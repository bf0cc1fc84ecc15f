import FreakV.Lib.Blocks
import FreakV.Lib.Transition
import Mathlib.Data.Nat.Log
import Mathlib.Tactic.SplitIfs

namespace FreakV.Mem

open Blocks Transition

structure PageInfo where
  span : Option Nat := none
  spanSize : Nat := 0
  offsetInSpan : Nat := 0
  free : Bool := false
  buddyOrder : Nat := 0
deriving DecidableEq

/-- `freeHeads k` is the list that `nodes` links from `free_heads[k]` on. -/
structure Buddy where
  pages : Nat → PageInfo
  nrPages : Nat
  freeHeads : Nat → List Nat

def buddyMaxOrder : Nat := 21

def mathCeilLog2 (n : Nat) : Nat := if n ≤ 1 then 0 else (n - 1).log2 + 1

def ctz : Nat → Nat → Nat
  | 0, _ => 0
  | fuel + 1, n => if n % 2 = 0 then ctz fuel (n / 2) + 1 else 0

def freedPage : PageInfo := { free := true }

def spanPage (n i : Nat) : PageInfo := { spanSize := n, offsetInSpan := i % 2 ^ 16 }

def InSpan (idx n p : Nat) : Prop := idx ≤ p ∧ p < idx + n

instance (idx n p : Nat) : Decidable (InSpan idx n p) := inferInstanceAs (Decidable (_ ∧ _))

namespace Buddy

def init : Buddy := ⟨fun _ => {}, 0, fun _ => []⟩

def setPages (b : Buddy) (idx n : Nat) (page : Nat → PageInfo) : Buddy :=
  { b with pages := fun p => if InSpan idx n p then page (p - idx) else b.pages p }

def setFree (b : Buddy) (idx : Nat) (free : Bool) : Buddy :=
  { b with pages := Function.update b.pages idx { b.pages idx with free := free } }

def listNodeRemove (b : Buddy) (idx : Nat) : Buddy :=
  let ord := (b.pages idx).buddyOrder
  { b with freeHeads := Function.update b.freeHeads ord ((b.freeHeads ord).erase idx) }

def listNodePush (b : Buddy) (idx ord : Nat) : Buddy :=
  { b with
    pages := Function.update b.pages idx { b.pages idx with buddyOrder := ord }
    freeHeads := Function.update b.freeHeads ord (idx :: b.freeHeads ord) }

def blockFree (b : Buddy) (idx order : Nat) : Buddy :=
  (b.setPages idx (2 ^ order) fun _ => freedPage).listNodePush idx order

def pieceOrder (pos remaining : Nat) : Nat :=
  let ordSize := remaining.log2
  let ordAlign := if pos = 0 then ordSize else ctz 32 pos
  let order := if ordSize < ordAlign then ordSize else ordAlign
  if buddyMaxOrder ≤ order then buddyMaxOrder - 1 else order

def freePieces : Nat → Buddy → Nat → Nat → Buddy
  | 0, b, _, _ => b
  | fuel + 1, b, pos, stop =>
    if pos < stop then
      let order := pieceOrder pos (stop - pos)
      freePieces fuel (b.listNodePush pos order) (pos + 2 ^ order) stop
    else b

def spanFree (b : Buddy) (idx n : Nat) : Buddy :=
  if 0 < n ∧ n &&& (n - 1) = 0 ∧ idx &&& (n - 1) = 0 then b.blockFree idx n.log2
  else freePieces n (b.setPages idx n fun _ => freedPage) idx (idx + n)

def mergeable (b : Buddy) (ord idx : Nat) : Bool :=
  let buddyIdx := idx ^^^ 2 ^ ord
  buddyIdx < b.nrPages && (b.pages buddyIdx).free && (b.pages buddyIdx).buddyOrder == ord

def merge (b : Buddy) (ord idx : Nat) : Buddy :=
  ((b.listNodeRemove idx).listNodeRemove (idx ^^^ 2 ^ ord)).listNodePush (base (ord + 1) idx) (ord + 1)

def coalesceOrder (ord : Nat) : Nat → Buddy → Option Buddy
  | 0, _ => none
  | fuel + 1, b =>
    match (b.freeHeads ord).find? (b.mergeable ord) with
    | none => some b
    | some idx => coalesceOrder ord fuel (b.merge ord idx)

def coalesceOrders (target : Nat) : List Nat → Buddy → Option Buddy
  | [], b => some b
  | ord :: rest, b =>
    match coalesceOrder ord ((b.freeHeads ord).length + 1) b with
    | none => none
    | some b => if b.freeHeads target ≠ [] then some b else coalesceOrders target rest b

def spanCoalesce (b : Buddy) (target : Nat) : Option (Bool × Buddy) :=
  (coalesceOrders target (List.range' 0 (min target (buddyMaxOrder - 1))) b).map fun b => (b.freeHeads target ≠ [], b)

def foundOrder (b : Buddy) (order : Nat) : Option Nat :=
  (List.range' order (buddyMaxOrder - order)).find? fun ord => b.freeHeads ord ≠ []

def spanCheck (b : Buddy) (n : Nat) : Option (Bool × Buddy) :=
  if n = 0 then some (false, b)
  else if buddyMaxOrder ≤ mathCeilLog2 n then some (false, b)
  else if (b.foundOrder (mathCeilLog2 n)).isSome then some (true, b)
  else b.spanCoalesce (mathCeilLog2 n)

def split (order idx : Nat) : Nat → Buddy → Buddy
  | 0, b => b
  | found + 1, b =>
    if order < found + 1 then
      let half := idx + 2 ^ found
      split order idx found ((b.setFree half true).listNodePush half found)
    else b

def carve (b : Buddy) (n order found idx : Nat) : Buddy :=
  let marked := (split order idx found ((b.listNodeRemove idx).setFree idx false)).setPages idx n (spanPage n)
  if n < 2 ^ order then marked.spanFree (idx + n) (2 ^ order - n) else marked

def spanAlloc (b : Buddy) (n : Nat) : Option (Nat × Buddy) :=
  let order := mathCeilLog2 n
  if n = 0 ∨ buddyMaxOrder ≤ order then none
  else
    match b.foundOrder order with
    | none => none
    | some found =>
      match b.freeHeads found with
      | [] => none
      | idx :: _ => some (idx, b.carve n order found idx)

/-- The end of mem_data_grow: the new pages are zeroed and freed as one span. -/
def grow (b : Buddy) (added : Nat) : Buddy :=
  spanFree { b.setPages b.nrPages added fun _ => {} with nrPages := b.nrPages + added } b.nrPages added

def info (b : Buddy) (p : Nat) : PageInfo := { b.pages p with buddyOrder := 0 }

structure Lists (b : Buddy) (free : Nat → Prop) : Prop where
  tiling : Tiling b.freeHeads free
  order : ∀ {k s}, s ∈ b.freeHeads k → (b.pages s).buddyOrder = k ∧ k < buddyMaxOrder

def flags (b : Buddy) (p : Nat) : Bool := (b.pages p).free

structure Sound (b : Buddy) : Prop where
  lists : b.Lists fun p => b.flags p
  below : ∀ {p}, b.flags p → p < b.nrPages

section Steps

variable {b : Buddy} {free : Nat → Prop} {k s idx n : Nat}

@[simp] theorem flags_listNodeRemove : (b.listNodeRemove idx).flags = b.flags := rfl

@[simp] theorem flags_listNodePush : (b.listNodePush idx k).flags = b.flags := by
  funext p
  simp only [flags, listNodePush, Function.update_apply]
  split <;> simp_all

theorem flags_setPages (page : Nat → PageInfo) (p : Nat) :
    (b.setPages idx n page).flags p = if InSpan idx n p then (page (p - idx)).free else b.flags p := by
  simp only [flags, setPages]
  split <;> rfl

theorem flags_setFree {value : Bool} : (b.setFree idx value).flags = Function.update b.flags idx value := by
  funext p
  simp only [flags, setFree, Function.update_apply]
  split <;> rfl

theorem Lists.congr {free' : Nat → Prop} (lists : b.Lists free) (same : ∀ p, free' p ↔ free p) : b.Lists free' :=
  ⟨lists.tiling.congr same, lists.order⟩

theorem Lists.head_free (lists : b.Lists free) (member : s ∈ b.freeHeads k) : free s :=
  lists.tiling.block_free member ⟨Nat.le_refl s, Nat.lt_add_of_pos_right (Nat.two_pow_pos k)⟩

theorem Lists.pages {b' : Buddy} (lists : b.Lists free) (same : b'.freeHeads = b.freeHeads)
    (orders : ∀ p, free p → (b'.pages p).buddyOrder = (b.pages p).buddyOrder) : b'.Lists free := by
  refine ⟨same ▸ lists.tiling, fun {k s} member => ?_⟩
  rw [same] at member
  rw [orders s (lists.head_free member)]
  exact lists.order member

theorem Lists.setPages {page : Nat → PageInfo} (lists : b.Lists free)
    (taken : ∀ p, InSpan idx n p → ¬free p) : (b.setPages idx n page).Lists free := by
  refine lists.pages rfl fun p here => ?_
  simp only [Buddy.setPages]
  rw [if_neg fun inside => taken p inside here]

theorem Lists.setFree (lists : b.Lists free) (idx : Nat) (value : Bool) : (b.setFree idx value).Lists free := by
  refine lists.pages rfl fun p _ => ?_
  simp only [Buddy.setFree, Function.update_apply]
  split <;> simp_all

theorem Lists.remove (lists : b.Lists free) (member : s ∈ b.freeHeads k) :
    (b.listNodeRemove s).Lists fun p => free p ∧ ¬Block k s p := by
  obtain ⟨rfl, -⟩ := lists.order member
  refine ⟨lists.tiling.remove member, fun {j t} there => lists.order ?_⟩
  simp only [listNodeRemove, Function.update_apply] at there
  split at there
  next same => exact same ▸ List.mem_of_mem_erase there
  · exact there

theorem Lists.push (lists : b.Lists free) (aligned : 2 ^ k ∣ s) (small : k < buddyMaxOrder)
    (taken : ∀ p, Block k s p → ¬free p) : (b.listNodePush s k).Lists fun p => free p ∨ Block k s p := by
  refine ⟨lists.tiling.push aligned taken, fun {j t} there => ?_⟩
  simp only [listNodePush, Function.update_apply] at there ⊢
  by_cases head : t = s
  · have fresh : t ∉ b.freeHeads j := by
      rw [head]
      exact fun member => taken s ⟨Nat.le_refl s, Nat.lt_add_of_pos_right (Nat.two_pow_pos k)⟩ (lists.head_free member)
    split at there
    next same => simp [head, same, small]
    · exact absurd there fresh
  · rw [if_neg head]
    split at there
    next same =>
      rw [same]
      exact lists.order ((List.mem_cons.1 there).resolve_left head)
    · exact lists.order there

theorem ctz_dvd (fuel n : Nat) : 2 ^ ctz fuel n ∣ n := by
  induction fuel generalizing n with
  | zero => simp [ctz]
  | succ fuel ih =>
    simp only [ctz]
    split
    next even =>
      obtain ⟨q, half⟩ := ih (n / 2)
      exact ⟨q, by rw [pow_succ, Nat.mul_right_comm, ← half]; omega⟩
    · simp

theorem pieceOrder_spec (pos : Nat) {remaining : Nat} (some : 0 < remaining) : pieceOrder pos remaining < buddyMaxOrder ∧
    2 ^ pieceOrder pos remaining ∣ pos ∧ 2 ^ pieceOrder pos remaining ≤ remaining := by
  obtain ⟨size, align, small⟩ : pieceOrder pos remaining ≤ remaining.log2 ∧
      pieceOrder pos remaining ≤ (if pos = 0 then remaining.log2 else ctz 32 pos) ∧
      pieceOrder pos remaining < buddyMaxOrder := by
    simp only [pieceOrder, buddyMaxOrder]
    split_ifs <;> omega
  refine ⟨small, ?_, (Nat.pow_le_pow_right (by omega) size).trans (Nat.log2_self_le (by omega))⟩
  refine (pow_dvd_pow 2 align).trans ?_
  split
  next zero => simp [zero]
  · exact ctz_dvd 32 pos

theorem freePieces_flags (fuel pos stop : Nat) : (freePieces fuel b pos stop).flags = b.flags ∧
    (freePieces fuel b pos stop).nrPages = b.nrPages := by
  induction fuel generalizing b pos with
  | zero => exact ⟨rfl, rfl⟩
  | succ fuel ih =>
    simp only [freePieces]
    split
    · exact ⟨(ih _).1.trans flags_listNodePush, (ih _).2⟩
    · exact ⟨rfl, rfl⟩

theorem freePieces_lists {fuel pos stop : Nat} (enough : stop ≤ pos + fuel) (lists : b.Lists free)
    (taken : ∀ p, pos ≤ p → p < stop → ¬free p) :
    (freePieces fuel b pos stop).Lists fun p => free p ∨ pos ≤ p ∧ p < stop := by
  induction fuel generalizing b free pos with
  | zero => exact lists.congr fun p => by rw [or_iff_left (by omega)]
  | succ fuel ih =>
    simp only [freePieces]
    split
    next more =>
      obtain ⟨small, aligned, fits⟩ := pieceOrder_spec pos (show 0 < stop - pos by omega)
      generalize pieceOrder pos (stop - pos) = order at *
      have pos' := Nat.two_pow_pos order
      have pushed := lists.push aligned small fun p inside => taken p inside.1 (by have := inside.2; omega)
      refine (ih (by omega) pushed fun p le lt => ?_).congr fun p => ?_
      · rintro (old | inside)
        · exact taken p (by omega) lt old
        · have := inside.2
          omega
      · simp only [Block, or_assoc]
        refine or_congr_right ?_
        omega
    · exact lists.congr fun p => by rw [or_iff_left (by omega)]

theorem aligned_of_and (pos : 0 < n) (power : n &&& (n - 1) = 0) (start : idx &&& (n - 1) = 0) :
    2 ^ n.log2 = n ∧ 2 ^ n.log2 ∣ idx := by
  obtain ⟨e, rfl⟩ := (Nat.and_sub_one_eq_zero_iff_isPowerOfTwo (by omega)).1 power
  rw [Nat.and_two_pow_sub_one_eq_mod] at start
  rw [Nat.log2_two_pow]
  exact ⟨rfl, Nat.dvd_of_mod_eq_zero start⟩

theorem spanFree_lists (pos : 0 < n) (few : n < 2 ^ buddyMaxOrder) (lists : b.Lists free)
    (taken : ∀ p, InSpan idx n p → ¬free p) : (b.spanFree idx n).Lists fun p => free p ∨ InSpan idx n p := by
  unfold spanFree
  split
  next one =>
    obtain ⟨size, aligned⟩ := aligned_of_and one.1 one.2.1 one.2.2
    have small : n.log2 < buddyMaxOrder := (Nat.log2_lt (by omega)).2 few
    rw [blockFree, size]
    refine ((lists.setPages taken).push aligned small fun p inside => ?_).congr fun p => ?_
    · exact taken p ⟨inside.1, size ▸ inside.2⟩
    · rw [Block, size, InSpan]
  · exact freePieces_lists (Nat.le_refl _) (lists.setPages taken) fun p le lt => taken p ⟨le, lt⟩

theorem spanFree_flags (b : Buddy) (idx n : Nat) : (b.spanFree idx n).nrPages = b.nrPages ∧
    ∀ p, (b.spanFree idx n).flags p = true ↔ b.flags p ∨ InSpan idx n p := by
  have freed (p : Nat) : (b.setPages idx n fun _ => freedPage).flags p = true ↔ b.flags p ∨ InSpan idx n p := by
    rw [flags_setPages]
    split <;> simp_all [freedPage]
  unfold spanFree
  split
  next one => exact ⟨rfl, by simpa [blockFree, (aligned_of_and one.1 one.2.1 one.2.2).1] using freed⟩
  · obtain ⟨same, count⟩ := freePieces_flags (b := b.setPages idx n fun _ => freedPage) n idx (idx + n)
    exact ⟨count, by simpa [same] using freed⟩

theorem Sound.spanFree (sound : b.Sound) (pos : 0 < n) (few : n < 2 ^ buddyMaxOrder)
    (taken : ∀ p, InSpan idx n p → ¬b.flags p ∧ p < b.nrPages) : (b.spanFree idx n).Sound := by
  obtain ⟨count, free⟩ := spanFree_flags b idx n
  refine ⟨(spanFree_lists pos few sound.lists fun p inside => (taken p inside).1).congr free, fun {p} here => ?_⟩
  rw [count]
  exact ((free p).1 here).elim sound.below fun inside => (taken p inside).2

theorem buddy_mem (sound : b.Sound) (member : idx ∈ b.freeHeads k) (can : b.mergeable k idx) :
    idx ^^^ 2 ^ k ∈ b.freeHeads k := by
  obtain ⟨⟨-, free⟩, order⟩ : (_ ∧ (b.pages (idx ^^^ 2 ^ k)).free) ∧ (b.pages (idx ^^^ 2 ^ k)).buddyOrder = k := by
    simpa [mergeable] using can
  have aligned := sound.lists.tiling.aligned member
  have pos := Nat.two_pow_pos k
  obtain ⟨aligned', near⟩ : 2 ^ k ∣ idx ^^^ 2 ^ k ∧ Block (k + 1) (base (k + 1) idx) (idx ^^^ 2 ^ k) := by
    have start := dvd_of_succ (base_dvd (k + 1) idx)
    rcases xor_eq aligned with ⟨-, same⟩ | ⟨-, same⟩ <;> rw [same, Block, pow_succ]
    · exact ⟨start.2, by omega⟩
    · exact ⟨start.1, by omega⟩
  obtain ⟨j, there⟩ := (sound.lists.tiling.covers _).1 free
  -- the page is the head of its block unless that block holds idx as well
  rcases Nat.lt_or_ge k j with larger | le
  · have inside : Block j (base j (idx ^^^ 2 ^ k)) idx :=
      Block.sub (base_dvd _ _) (base_dvd (k + 1) idx) larger (block_base _ _) near (block_base _ _)
    rw [← (base_eq_iff (base_dvd _ _)).2 inside] at there
    have same := sound.lists.tiling.apart there (base_of_dvd aligned ▸ member)
    omega
  · rw [base_of_dvd ((pow_dvd_pow 2 le).trans aligned')] at there
    obtain rfl : j = k := (sound.lists.order there).1.symm.trans order
    exact there

theorem merge_lists (sound : b.Sound) (member : idx ∈ b.freeHeads k) (can : b.mergeable k idx) (small : k + 1 < buddyMaxOrder) :
    (b.merge k idx).Lists fun p => b.flags p := by
  have other := buddy_mem sound member can
  have aligned := sound.lists.tiling.aligned member
  have pair := xor_eq aligned
  have pos := Nat.two_pow_pos k
  have remains : idx ^^^ 2 ^ k ∈ (b.listNodeRemove idx).freeHeads k := by
    simp only [listNodeRemove, (sound.lists.order member).1, Function.update_self]
    exact ((sound.lists.tiling.nodup k).mem_erase_iff).2 ⟨by omega, other⟩
  have halves (p : Nat) : Block (k + 1) (base (k + 1) idx) p ↔ Block k idx p ∨ Block k (idx ^^^ 2 ^ k) p := by
    rw [block_succ]
    rcases pair with ⟨first, second⟩ | ⟨first, second⟩ <;> rw [second]
    · rw [← first]
    · rw [← first, or_comm]
  refine (((sound.lists.remove member).remove remains).push (base_dvd _ _) small fun p inside => ?_).congr fun p => ?_
  · rw [halves] at inside
    tauto
  · rw [halves]
    have first := @Tiling.block_free _ _ _ _ sound.lists.tiling member p
    have second := @Tiling.block_free _ _ _ _ sound.lists.tiling other p
    tauto

theorem merge_sound (sound : b.Sound) (member : idx ∈ b.freeHeads k) (can : b.mergeable k idx) (small : k + 1 < buddyMaxOrder) :
    (b.merge k idx).Sound ∧ (b.merge k idx).flags = b.flags ∧ (b.merge k idx).nrPages = b.nrPages := by
  have flags : (b.merge k idx).flags = b.flags := flags_listNodePush
  exact ⟨⟨flags ▸ merge_lists sound member can small, flags ▸ sound.below⟩, flags, rfl⟩

theorem merge_freeHeads (sound : b.Sound) (member : idx ∈ b.freeHeads k) (can : b.mergeable k idx) :
    ((b.merge k idx).freeHeads k).length < (b.freeHeads k).length ∧
      ∀ j, j ≠ k → j ≠ k + 1 → (b.merge k idx).freeHeads j = b.freeHeads j := by
  have first := (sound.lists.order member).1
  have second := (sound.lists.order (buddy_mem sound member can)).1
  simp only [merge, listNodePush, listNodeRemove, first, second, Function.update_self]
  refine ⟨?_, fun j here above => by simp [Function.update_of_ne, here, above]⟩
  rw [Function.update_of_ne (by omega), Function.update_self]
  calc _ ≤ ((b.freeHeads k).erase idx).length := List.length_erase_le
    _ < (b.freeHeads k).length := by
      rw [List.length_erase_of_mem member]
      exact Nat.sub_lt (List.length_pos_of_mem member) Nat.one_pos

def Merged (b : Buddy) (j : Nat) : Prop := ∀ s, 2 ^ (j + 1) ∣ s → s ∈ b.freeHeads j → s + 2 ^ j ∉ b.freeHeads j

theorem merged_of_find? (sound : b.Sound) (none : (b.freeHeads k).find? (b.mergeable k) = none) : b.Merged k := by
  intro s aligned first second
  have start := base_of_dvd aligned
  have xor : s ^^^ 2 ^ k = s + 2 ^ k := by
    have := Nat.two_pow_pos k
    rcases xor_eq (dvd_of_succ aligned).1 with ⟨-, same⟩ | ⟨same, -⟩ <;> omega
  refine List.find?_eq_none.1 none s first ?_
  have free := sound.lists.head_free second
  simpa [mergeable, xor, (sound.lists.order second).1] using And.intro (sound.below free) (show (b.pages _).free from free)

structure Coalesced (b b' : Buddy) (low high : Nat) : Prop where
  sound : b'.Sound
  flags : b'.flags = b.flags
  nrPages : b'.nrPages = b.nrPages
  heads : ∀ j, j < low ∨ high < j → b'.freeHeads j = b.freeHeads j

theorem Coalesced.trans {b₁ b₂ : Buddy} {low low' high : Nat} (first : Coalesced b b₁ low high)
    (second : Coalesced b₁ b₂ low' high) (lower : low ≤ low') : Coalesced b b₂ low high :=
  ⟨second.sound, second.flags.trans first.flags, second.nrPages.trans first.nrPages, fun j outside =>
    (second.heads j (by omega)).trans (first.heads j (by omega))⟩

theorem coalesceOrder_spec {fuel : Nat} (sound : b.Sound) (small : k + 1 < buddyMaxOrder) (enough : (b.freeHeads k).length < fuel) :
    ∃ b', coalesceOrder k fuel b = some b' ∧ Coalesced b b' k (k + 1) ∧ b'.Merged k := by
  induction fuel generalizing b with
  | zero => omega
  | succ fuel ih =>
    simp only [coalesceOrder]
    split
    next none => exact ⟨b, rfl, ⟨sound, rfl, rfl, fun _ _ => rfl⟩, merged_of_find? sound none⟩
    next idx found =>
      have member := List.mem_of_find?_eq_some found
      have can := List.find?_some found
      obtain ⟨sound', infos, count⟩ := merge_sound sound member can small
      obtain ⟨shorter, heads⟩ := merge_freeHeads sound member can
      obtain ⟨b', run, pass, merged⟩ := ih sound' (by omega)
      have first : Coalesced b (b.merge k idx) k (k + 1) :=
        ⟨sound', infos, count, fun j outside => heads j (by omega) (by omega)⟩
      exact ⟨b', run, first.trans pass (Nat.le_refl k), merged⟩

theorem coalesceOrders_spec {target : Nat} (low len : Nat) (sound : b.Sound) (within : low + len ≤ target)
    (small : target < buddyMaxOrder) (merged : ∀ j < low, b.Merged j) :
    ∃ b', coalesceOrders target (List.range' low len) b = some b' ∧ Coalesced b b' low target ∧
      (b'.freeHeads target ≠ [] ∨ ∀ j < low + len, b'.Merged j) := by
  induction len generalizing b low with
  | zero => exact ⟨b, rfl, ⟨sound, rfl, rfl, fun _ _ => rfl⟩, .inr merged⟩
  | succ len ih =>
    obtain ⟨b₁, run, pass, here⟩ := coalesceOrder_spec (k := low) sound (by omega) (Nat.lt_succ_self _)
    simp only [List.range'_succ, coalesceOrders, run]
    have first : Coalesced b b₁ low target := ⟨pass.sound, pass.flags, pass.nrPages, fun j outside => pass.heads j (by omega)⟩
    split
    next there => exact ⟨b₁, rfl, first, .inl there⟩
    · have below : ∀ j < low + 1, b₁.Merged j := by
        intro j less
        rcases Nat.lt_or_eq_of_le (Nat.le_of_lt_succ less) with less | rfl
        · rw [Merged, pass.heads j (.inl less)]
          exact merged j less
        · exact here
      obtain ⟨b₂, run', pass', result⟩ := ih (low + 1) pass.sound (by omega) below
      exact ⟨b₂, run', first.trans pass' (by omega), by rwa [Nat.add_right_comm] at result⟩

theorem spanCoalesce_spec (sound : b.Sound) {target : Nat} (small : target < buddyMaxOrder) :
    ∃ b', b.spanCoalesce target = some (decide (b'.freeHeads target ≠ []), b') ∧ Coalesced b b' 0 target ∧
      (b'.freeHeads target ≠ [] ∨ ∀ j < target, b'.Merged j) := by
  obtain ⟨b', run, pass, result⟩ := coalesceOrders_spec 0 (min target (buddyMaxOrder - 1)) sound (by omega) small (by omega)
  refine ⟨b', by simp [spanCoalesce, run], pass, ?_⟩
  rwa [show 0 + min target (buddyMaxOrder - 1) = target by omega] at result

theorem foundOrder_isSome {order : Nat} : (b.foundOrder order).isSome ↔ ∃ j, order ≤ j ∧ j < buddyMaxOrder ∧ b.freeHeads j ≠ [] := by
  simp only [foundOrder, List.find?_isSome, List.mem_range'_1, decide_eq_true_eq]
  refine exists_congr fun j => ?_
  constructor
  · rintro ⟨⟨le, lt⟩, here⟩
    exact ⟨le, by omega, here⟩
  · rintro ⟨le, lt, here⟩
    exact ⟨⟨le, by omega⟩, here⟩

def FreeRun (b : Buddy) (k : Nat) : Prop := ∃ s, 2 ^ k ∣ s ∧ s + 2 ^ k ≤ b.nrPages ∧ ∀ p, Block k s p → (b.info p).free

theorem freeRun_of_head (sound : b.Sound) {j : Nat} (le : k ≤ j) (some : b.freeHeads j ≠ []) : b.FreeRun k := by
  obtain ⟨s, member⟩ := List.exists_mem_of_ne_nil _ some
  have aligned := (pow_dvd_pow 2 le).trans (sound.lists.tiling.aligned member)
  have inside {p : Nat} (here : Block k s p) : b.flags p :=
    sound.lists.tiling.block_free member ⟨here.1, here.2.trans_le (Nat.add_le_add_left (Nat.pow_le_pow_right (by omega) le) s)⟩
  have pos := Nat.two_pow_pos k
  refine ⟨s, aligned, ?_, fun p => inside⟩
  have last := sound.below (inside (p := s + 2 ^ k - 1) ⟨by omega, by omega⟩)
  omega

theorem head_of_freeRun (sound : b.Sound) (merged : ∀ j < k, b.Merged j) (run : b.FreeRun k) : ∃ j, k ≤ j ∧ b.freeHeads j ≠ [] := by
  obtain ⟨s, aligned, -, all⟩ := run
  obtain ⟨j, le, member⟩ := sound.lists.tiling.whole merged aligned all
  exact ⟨j, le, List.ne_nil_of_mem member⟩

theorem spanCheck_spec (sound : b.Sound) (pos : 0 < n) (small : mathCeilLog2 n < buddyMaxOrder) :
    ∃ r b', b.spanCheck n = some (r, b') ∧ b'.Sound ∧ b'.flags = b.flags ∧ b'.nrPages = b.nrPages ∧ (r = true ↔ b.FreeRun (mathCeilLog2 n)) ∧
      (r = true → (b'.foundOrder (mathCeilLog2 n)).isSome) := by
  simp only [spanCheck, if_neg (Nat.ne_of_gt pos), if_neg (Nat.not_le.2 small)]
  generalize mathCeilLog2 n = order at *
  split
  next found =>
    obtain ⟨j, le, -, here⟩ := foundOrder_isSome.1 found
    exact ⟨true, b, rfl, sound, rfl, rfl, iff_of_true rfl (freeRun_of_head sound le here), fun _ => found⟩
  next empty =>
    obtain ⟨b', run, pass, result⟩ := spanCoalesce_spec sound small
    have same : b'.FreeRun order ↔ b.FreeRun order := by
      have free (p : Nat) : (b'.info p).free = (b.info p).free := congrFun pass.flags p
      simp [FreeRun, free, pass.nrPages]
    refine ⟨_, b', run, pass.sound, pass.flags, pass.nrPages, ?_, fun here => foundOrder_isSome.2 ⟨order, Nat.le_refl _, small, by simpa using here⟩⟩
    rw [decide_eq_true_iff, ← same]
    refine ⟨freeRun_of_head pass.sound (Nat.le_refl _), fun free => result.elim id fun merged => ?_⟩
    obtain ⟨j, le, here⟩ := head_of_freeRun pass.sound merged free
    rcases Nat.lt_or_eq_of_le le with above | rfl
    · -- no larger block was there before, and the pass makes none
      obtain ⟨s, member⟩ := List.exists_mem_of_ne_nil _ here
      have less := (pass.sound.lists.order member).2
      rw [pass.heads j (.inr above)] at here
      exact absurd (foundOrder_isSome.2 ⟨j, le, less, here⟩) empty
    · exact here

theorem le_mathCeilLog2 (n : Nat) : n ≤ 2 ^ mathCeilLog2 n := by
  unfold mathCeilLog2
  split
  · simpa
  · have := Nat.lt_log2_self (n := n - 1)
    omega

theorem mathCeilLog2_small (few : n ≤ 2 ^ 20) : mathCeilLog2 n < buddyMaxOrder := by
  unfold mathCeilLog2 buddyMaxOrder
  split
  · omega
  · have : (n - 1).log2 < 20 := (Nat.log2_lt (by omega)).2 (by omega)
    omega

theorem split_lists {order found : Nat} (le : order ≤ found) (small : found < buddyMaxOrder) (aligned : 2 ^ found ∣ idx)
    (lists : b.Lists free) (taken : ∀ p, Block found idx p → ¬free p) :
    (split order idx found b).Lists fun p => free p ∨ Block found idx p ∧ ¬Block order idx p := by
  induction found generalizing b free with
  | zero =>
    obtain rfl : order = 0 := by omega
    exact lists.congr fun p => by tauto
  | succ found ih =>
    simp only [split]
    split
    next less =>
      obtain ⟨low, high⟩ := dvd_of_succ aligned
      have pushed := (lists.setFree (idx + 2 ^ found) true).push high (by omega) fun p inside => taken p (block_succ.2 (.inr inside))
      refine (ih (by omega) (by omega) low pushed fun p inside => ?_).congr fun p => ?_
      · rintro (old | upper)
        · exact taken p (block_succ.2 (.inl inside)) old
        · exact absurd upper.1 (Nat.not_le.2 inside.2)
      · have inner : Block order idx p → ¬Block found (idx + 2 ^ found) p := by
          have := Nat.pow_le_pow_right (show 0 < 2 by omega) (show order ≤ found by omega)
          simp only [Block]
          omega
        rw [block_succ]
        tauto
    · obtain rfl : order = found + 1 := by omega
      exact lists.congr fun p => by tauto

theorem split_flags (order : Nat) {found : Nat} (free : ∀ p, Block found idx p → p ≠ idx → b.flags p) :
    (split order idx found b).flags = b.flags ∧ (split order idx found b).nrPages = b.nrPages := by
  induction found generalizing b with
  | zero => exact ⟨rfl, rfl⟩
  | succ found ih =>
    simp only [split]
    split
    · have pos := Nat.two_pow_pos found
      have half := free (idx + 2 ^ found) (block_succ.2 (.inr ⟨Nat.le_refl _, by omega⟩)) (by omega)
      have same : ((b.setFree (idx + 2 ^ found) true).listNodePush (idx + 2 ^ found) found).flags = b.flags := by
        rw [flags_listNodePush, flags_setFree, Function.update_eq_self_iff, half]
      obtain ⟨flags, count⟩ := ih (b := (b.setFree (idx + 2 ^ found) true).listNodePush (idx + 2 ^ found) found)
        fun p inside other => by
          rw [same]
          exact free p (block_succ.2 (.inl inside)) other
      exact ⟨flags.trans same, count⟩
    · exact ⟨rfl, rfl⟩

theorem spanAlloc_isSome : (b.spanAlloc n).isSome ↔ 0 < n ∧ mathCeilLog2 n < buddyMaxOrder ∧ (b.foundOrder (mathCeilLog2 n)).isSome := by
  simp only [spanAlloc]
  split
  next bad =>
    simp only [Option.isSome_none, Bool.false_eq_true, false_iff]
    omega
  next good =>
    split
    next none => simp [none]
    next found here =>
      have nonempty : b.freeHeads found ≠ [] := by simpa using List.find?_some here
      split
      next empty => exact absurd empty nonempty
      · simp only [Option.isSome_some, here, true_iff, and_true]
        omega

section Carve

variable {order found : Nat} (sound : b.Sound) (member : idx ∈ b.freeHeads found) (le : order ≤ found) (pos : 0 < n)
include sound member le pos

theorem carve_lists (fits : n ≤ 2 ^ order) : (b.carve n order found idx).Lists fun p => b.flags p ∧ ¬InSpan idx n p := by
  have less := (sound.lists.order member).2
  have smaller := Nat.pow_le_pow_right (show 0 < 2 by omega) le
  have rest : (split order idx found ((b.listNodeRemove idx).setFree idx false)).Lists
      fun p => b.flags p ∧ ¬Block order idx p := by
    refine (split_lists le less (sound.lists.tiling.aligned member) ((sound.lists.remove member).setFree idx false)
      fun p inside here => here.2 inside).congr fun p => ?_
    have block : Block found idx p → b.flags p := sound.lists.tiling.block_free member
    have inner : Block order idx p → Block found idx p := fun here => ⟨here.1, by have := here.2; omega⟩
    tauto
  simp only [carve]
  generalize marking : (split order idx found ((b.listNodeRemove idx).setFree idx false)).setPages idx n (spanPage n) = rest'
  have marked : rest'.Lists fun p => b.flags p ∧ ¬Block order idx p := by
    rw [← marking]
    exact rest.setPages fun p here free => free.2 ⟨here.1, by have := here.2; omega⟩
  split
  next more =>
    have few : 2 ^ order - n < 2 ^ buddyMaxOrder :=
      (Nat.sub_le _ _).trans_lt (Nat.pow_lt_pow_right (by omega) (by omega))
    have tail (p : Nat) : InSpan (idx + n) (2 ^ order - n) p ↔ Block order idx p ∧ ¬InSpan idx n p := by
      simp only [InSpan, Block]
      omega
    have head (p : Nat) : InSpan idx n p → Block order idx p := fun here => ⟨here.1, by have := here.2; omega⟩
    refine (spanFree_lists (by omega) few marked fun p inside free => free.2 ((tail p).1 inside).1).congr fun p => ?_
    have block : Block order idx p → b.flags p := fun here =>
      sound.lists.tiling.block_free member ⟨here.1, by have := here.2; omega⟩
    have := head p
    rw [tail]
    tauto
  · exact marked.congr fun p => by rw [Block, show 2 ^ order = n by omega, InSpan]

theorem carve_flags : (b.carve n order found idx).nrPages = b.nrPages ∧
    ∀ p, (b.carve n order found idx).flags p = true ↔ b.flags p ∧ ¬InSpan idx n p := by
  have block {p : Nat} : Block found idx p → b.flags p := sound.lists.tiling.block_free member
  have smaller := Nat.pow_le_pow_right (show 0 < 2 by omega) le
  obtain ⟨same, count⟩ := split_flags (b := (b.listNodeRemove idx).setFree idx false) order fun p inside other => by
    rw [flags_setFree, Function.update_of_ne other]
    exact block inside
  simp only [carve]
  generalize marking : (split order idx found ((b.listNodeRemove idx).setFree idx false)).setPages idx n (spanPage n) = marked
  have total : marked.nrPages = b.nrPages := by
    rw [← marking]
    exact count
  have mark (p : Nat) : marked.flags p = true ↔ b.flags p ∧ ¬InSpan idx n p := by
    rw [← marking, flags_setPages, same, flags_setFree, Function.update_apply]
    split
    · simp_all [spanPage]
    next outside =>
      have other : p ≠ idx := by
        rintro rfl
        exact outside ⟨Nat.le_refl p, by omega⟩
      simp [outside, other]
  split
  · obtain ⟨count', free⟩ := spanFree_flags marked (idx + n) (2 ^ order - n)
    refine ⟨count'.trans total, fun p => ?_⟩
    rw [free, mark, or_iff_left_of_imp fun tail => ?_]
    -- the tail of the block is freed again, and it was free
    exact ⟨block ⟨by have := tail.1; omega, by have := tail.2; omega⟩, fun inside => by have := tail.1; have := inside.2; omega⟩
  · exact ⟨total, mark⟩

theorem carve_sound (fits : n ≤ 2 ^ order) : (b.carve n order found idx).Sound := by
  obtain ⟨count, free⟩ := carve_flags sound member le pos
  refine ⟨(carve_lists sound member le pos fits).congr free, fun {p} here => ?_⟩
  rw [count]
  exact sound.below ((free p).1 here).1

end Carve

theorem spanAlloc_spec {b' : Buddy} (sound : b.Sound) (got : b.spanAlloc n = some (idx, b')) :
    0 < n ∧ n < 2 ^ buddyMaxOrder ∧ (∀ p, InSpan idx n p → b.flags p) ∧ b'.Sound ∧ b'.nrPages = b.nrPages ∧
      ∀ p, b'.flags p = true ↔ b.flags p ∧ ¬InSpan idx n p := by
  have fits := le_mathCeilLog2 n
  simp only [spanAlloc] at got
  generalize mathCeilLog2 n = order at *
  split at got
  · cases got
  next good =>
    split at got
    · cases got
    next found here =>
      have le : order ≤ found := (List.mem_range'_1.1 (List.mem_of_find?_eq_some here)).1
      split at got
      · cases got
      next start rest head =>
        obtain ⟨rfl, rfl⟩ : start = idx ∧ b.carve n order found start = b' := by simpa using got
        have member : start ∈ b.freeHeads found := by simp [head]
        have few : 2 ^ order < 2 ^ buddyMaxOrder := Nat.pow_lt_pow_right (by omega) (by omega)
        have smaller := Nat.pow_le_pow_right (show 0 < 2 by omega) le
        obtain ⟨count, free⟩ := carve_flags (n := n) sound member le (by omega)
        refine ⟨by omega, by omega, fun p inside => ?_, carve_sound sound member le (by omega) fits, count, free⟩
        exact sound.lists.tiling.block_free member ⟨inside.1, by have := inside.2; omega⟩

theorem Sound.grow (sound : b.Sound) (pos : 0 < n) (few : n < 2 ^ buddyMaxOrder) : (b.grow n).Sound ∧
    (b.grow n).nrPages = b.nrPages + n ∧ ∀ p, (b.grow n).flags p = true ↔ b.flags p ∨ InSpan b.nrPages n p := by
  have fresh : ∀ p, InSpan b.nrPages n p → ¬b.flags p := fun p inside free => Nat.not_lt.2 inside.1 (sound.below free)
  have zeroed : (b.setPages b.nrPages n fun _ => {}).Lists fun p => b.flags p := sound.lists.setPages fresh
  have kept (p : Nat) : (b.setPages b.nrPages n fun _ => {}).flags p = b.flags p := by
    rw [flags_setPages]
    split <;> simp_all
  simp only [Buddy.grow]
  generalize extended : ({ b.setPages b.nrPages n fun _ => {} with nrPages := b.nrPages + n } : Buddy) = e
  have total : e.nrPages = b.nrPages + n := by rw [← extended]
  have same (p : Nat) : e.flags p = b.flags p := by
    rw [← extended]
    exact kept p
  have sound' : e.Sound := by
    refine ⟨(zeroed.pages (by rw [← extended]) (by simp [← extended])).congr fun p => by rw [same], fun {p} => ?_⟩
    rw [same, total]
    exact fun here => Nat.lt_add_right n (sound.below here)
  obtain ⟨count, free⟩ := spanFree_flags e b.nrPages n
  refine ⟨sound'.spanFree pos few fun p inside => ?_, count.trans total, fun p => by rw [free, same]⟩
  rw [same, total]
  exact ⟨fresh p inside, inside.2⟩

end Steps

structure Traced where
  buddy : Buddy
  spans : List (Nat × Nat)

inductive Action
  | alloc (n : Nat)
  | free (idx n : Nat)
  | coalesce (target : Nat)
  | check (n : Nat)
  | grow (added : Nat)

def step (t : Traced) : Action → Option Traced
  | .alloc n =>
    match t.buddy.spanAlloc n with
    | none => some t
    | some (idx, b) => some ⟨b, (idx, n) :: t.spans⟩
  | .free idx n => some ⟨t.buddy.spanFree idx n, t.spans.erase (idx, n)⟩
  | .coalesce target => (t.buddy.spanCoalesce target).map fun r => { t with buddy := r.2 }
  | .check n => (t.buddy.spanCheck n).map fun r => { t with buddy := r.2 }
  | .grow added => some { t with buddy := t.buddy.grow added }

/-- Only spans that were handed out are freed, and mem_data_grow adds less than the largest list can hold. -/
def Allowed (t : Traced) : Action → Prop
  | .free idx n => (idx, n) ∈ t.spans
  | .coalesce target => target < buddyMaxOrder
  | .grow added => 0 < added ∧ added < 2 ^ buddyMaxOrder
  | _ => True

def start : Traced := ⟨init, []⟩

structure Held (b : Buddy) (span : Nat × Nat) : Prop where
  pos : 0 < span.2
  few : span.2 < 2 ^ buddyMaxOrder
  taken : ∀ p, InSpan span.1 span.2 p → ¬b.flags p ∧ p < b.nrPages

def Apart (a b : Nat × Nat) : Prop := ∀ p, InSpan a.1 a.2 p → ¬InSpan b.1 b.2 p

theorem Apart.symm {a b : Nat × Nat} (apart : Apart a b) : Apart b a := fun p there here => apart p here there

def Traced.Outstanding (t : Traced) (p : Nat) : Prop := ∃ span ∈ t.spans, InSpan span.1 span.2 p

structure Traced.Sound (t : Traced) : Prop where
  buddy : t.buddy.Sound
  held : ∀ span ∈ t.spans, Held t.buddy span
  apart : t.spans.Pairwise Apart
  taken : ∀ p < t.buddy.nrPages, ¬t.buddy.flags p → t.Outstanding p

section Runs

variable {t t' : Traced} {a : Action}

theorem Held.mono {b b' : Buddy} {span : Nat × Nat} (held : Held b span) (count : b.nrPages ≤ b'.nrPages)
    (flags : ∀ p, InSpan span.1 span.2 p → b'.flags p → b.flags p) : Held b' span :=
  ⟨held.pos, held.few, fun p inside => ⟨fun free => (held.taken p inside).1 (flags p inside free),
    (held.taken p inside).2.trans_le count⟩⟩

theorem Traced.Sound.free_iff (sound : t.Sound) (p : Nat) :
    t.buddy.flags p = true ↔ p < t.buddy.nrPages ∧ ¬t.Outstanding p := by
  constructor
  · intro free
    refine ⟨sound.buddy.below free, ?_⟩
    rintro ⟨span, member, inside⟩
    exact ((sound.held span member).taken p inside).1 free
  · rintro ⟨below, nobody⟩
    by_contra taken
    exact nobody (sound.taken p below taken)

theorem sound_alloc (sound : t.Sound) {n idx : Nat} {b : Buddy} (got : t.buddy.spanAlloc n = some (idx, b)) :
    Traced.Sound ⟨b, (idx, n) :: t.spans⟩ := by
  obtain ⟨pos, few, free, sound', count, after⟩ := spanAlloc_spec sound.buddy got
  have fresh : ∀ span ∈ t.spans, Apart (idx, n) span := fun span member p here there =>
    ((sound.held span member).taken p there).1 (free p here)
  refine ⟨sound', fun span member => ?_, List.pairwise_cons.2 ⟨fresh, sound.apart⟩, fun p below taken => ?_⟩
  · rcases List.mem_cons.1 member with rfl | member
    · refine ⟨pos, few, fun p inside => ⟨fun here => ((after p).1 here).2 inside, ?_⟩⟩
      rw [count]
      exact sound.buddy.below (free p inside)
    · exact (sound.held span member).mono (Nat.le_of_eq count.symm) fun p _ here => ((after p).1 here).1
  · by_cases inside : InSpan idx n p
    · exact ⟨(idx, n), List.mem_cons_self, inside⟩
    · have before : ¬t.buddy.flags p := fun here => taken ((after p).2 ⟨here, inside⟩)
      obtain ⟨span, member, there⟩ := sound.taken p (count ▸ below) before
      exact ⟨span, List.mem_cons_of_mem _ member, there⟩

theorem sound_free (sound : t.Sound) {idx n : Nat} (member : (idx, n) ∈ t.spans) :
    Traced.Sound ⟨t.buddy.spanFree idx n, t.spans.erase (idx, n)⟩ := by
  have held := sound.held _ member
  obtain ⟨count, free⟩ := spanFree_flags t.buddy idx n
  have apart := ((List.perm_cons_erase member).pairwise_iff Apart.symm).1 sound.apart
  refine ⟨sound.buddy.spanFree held.pos held.few held.taken, fun span other => ?_, (List.pairwise_cons.1 apart).2,
    fun p below taken => ?_⟩
  · refine (sound.held span (List.mem_of_mem_erase other)).mono (Nat.le_of_eq count.symm) fun p inside here => ?_
    exact ((free p).1 here).resolve_right fun there => (List.pairwise_cons.1 apart).1 span other p there inside
  · rw [free, not_or] at taken
    obtain ⟨span, before, there⟩ := sound.taken p (count ▸ below) taken.1
    have other : span ≠ (idx, n) := by
      rintro rfl
      exact taken.2 there
    exact ⟨span, (List.mem_erase_of_ne other).2 before, there⟩

theorem sound_grow (sound : t.Sound) {added : Nat} (pos : 0 < added) (few : added < 2 ^ buddyMaxOrder) :
    Traced.Sound { t with buddy := t.buddy.grow added } := by
  obtain ⟨sound', count, free⟩ := sound.buddy.grow pos few
  refine ⟨sound', fun span member => (sound.held span member).mono (by rw [count]; omega) fun p inside here => ?_, sound.apart,
    fun p below taken => ?_⟩
  · exact ((free p).1 here).resolve_right fun there => Nat.not_lt.2 there.1 ((sound.held span member).taken p inside).2
  · rw [free, not_or] at taken
    have below' : p < t.buddy.nrPages + added := count ▸ below
    have old : p < t.buddy.nrPages := Nat.lt_of_not_le fun fresh => taken.2 ⟨fresh, below'⟩
    exact sound.taken p old taken.1

theorem sound_same {b : Buddy} (sound : t.Sound) (sound' : b.Sound) (flags : b.flags = t.buddy.flags) (count : b.nrPages = t.buddy.nrPages) :
    Traced.Sound { t with buddy := b } :=
  ⟨sound', fun span member => (sound.held span member).mono (Nat.le_of_eq count.symm) fun p _ => by rw [flags]; exact id, sound.apart,
    fun p below taken => sound.taken p (count ▸ below) (flags ▸ taken)⟩

theorem sound_step (sound : t.Sound) (allowed : Allowed t a) (moved : step t a = some t') : t'.Sound := by
  cases a with
  | alloc n =>
    simp only [step] at moved
    split at moved <;> cases moved
    · exact sound
    next got => exact sound_alloc sound got
  | free idx n =>
    cases moved
    exact sound_free sound allowed
  | coalesce target =>
    obtain ⟨b', run, pass, -⟩ := spanCoalesce_spec sound.buddy allowed
    simp only [step, run, Option.map_some, Option.some.injEq] at moved
    subst moved
    exact sound_same sound pass.sound pass.flags pass.nrPages
  | check n =>
    simp only [step] at moved
    by_cases bad : n = 0 ∨ buddyMaxOrder ≤ mathCeilLog2 n
    · have same : t.buddy.spanCheck n = some (false, t.buddy) := by
        rcases bad with zero | large <;> simp_all [spanCheck]
      simp only [same, Option.map_some, Option.some.injEq] at moved
      exact moved ▸ sound
    · obtain ⟨r, b', run, sound', flags, count, -⟩ := spanCheck_spec sound.buddy (n := n) (by omega) (by omega)
      simp only [run, Option.map_some, Option.some.injEq] at moved
      subst moved
      exact sound_same sound sound' flags count
  | grow added =>
    cases moved
    exact sound_grow sound allowed.1 allowed.2

theorem sound_start : start.Sound := by
  refine ⟨⟨⟨⟨fun k => List.nodup_nil, ?_, ?_, fun p => ?_⟩, ?_⟩, ?_⟩, ?_, .nil, ?_⟩ <;> simp [start, init, flags]

structure FindsRuns (t : Traced) : Prop where
  free : ∀ p, (t.buddy.pages p).free = true ↔ p < t.buddy.nrPages ∧ ¬t.Outstanding p
  apart : t.spans.Pairwise Apart
  partition : Tiling t.buddy.freeHeads fun p => (t.buddy.pages p).free
  coalesce : ∀ target < buddyMaxOrder, ∃ r b', t.buddy.spanCoalesce target = some (r, b') ∧
    ∀ p, (b'.pages p).free = (t.buddy.pages p).free
  check : ∀ n, 1 ≤ n → n ≤ 2 ^ 20 → ∃ r b', t.buddy.spanCheck n = some (r, b') ∧ (r = true ↔ t.buddy.FreeRun (mathCeilLog2 n)) ∧
    (r = true → (b'.spanAlloc n).isSome)

theorem finds_every_run (run : Reaches step Allowed start t) : FindsRuns t := by
  have sound : t.Sound := run.invariant sound_start fun sound allowed moved => sound_step sound allowed moved
  refine ⟨sound.free_iff, sound.apart, sound.buddy.lists.tiling, fun target small => ?_, fun n pos few => ?_⟩
  · obtain ⟨b', done, pass, -⟩ := spanCoalesce_spec sound.buddy small
    exact ⟨_, b', done, congrFun pass.flags⟩
  · have small := mathCeilLog2_small few
    obtain ⟨r, b', done, -, -, -, exact_, found⟩ := spanCheck_spec sound.buddy pos small
    exact ⟨r, b', done, exact_, fun here => spanAlloc_isSome.2 ⟨pos, small, found here⟩⟩

def permits (t : Traced) : Action → Bool
  | .free idx n => t.spans.contains (idx, n)
  | .coalesce target => target < buddyMaxOrder
  | .grow added => 0 < added ∧ added < 2 ^ buddyMaxOrder
  | _ => true

theorem permits_allowed (t : Traced) (a : Action) (passed : permits t a = true) : Allowed t a := by
  cases a <;> simp_all [permits, Allowed]

-- of eight pages three and two are taken; the three come back in pieces, and merge with the one that was left between
def mergingRun : List Action := [.grow 8, .alloc 3, .alloc 2, .free 0 3, .coalesce 2]

theorem finds_every_run_merging : ∃ t, follow step permits mergingRun start = some t ∧ t.spans = [(4, 2)] ∧
    t.buddy.freeHeads 2 = [0] ∧ FindsRuns t := by
  have ran : (follow step permits mergingRun start).isSome := by decide
  have reached := (Option.some_get ran).symm
  exact ⟨_, reached, rfl, rfl, finds_every_run (follow_reaches permits_allowed reached)⟩

end Runs

end Buddy

end FreakV.Mem
