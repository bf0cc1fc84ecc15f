import FreakV.Mem.Arena
import Mathlib.Data.Nat.Bitwise
import Mathlib.Tactic.Ring

namespace FreakV.Shards

def maxShards : Nat := 64

def storeId (id : Nat) : UInt8 := UInt8.ofNat id

section Wakeup

abbrev WakeMask := BitVec 64

def shardSendMsgDeferred (mask : WakeMask) (dest : Nat) : WakeMask := mask ||| (1#64 <<< (dest % 64))

def flushLoop : Nat → WakeMask → List Nat
  | 0, _ => []
  | fuel + 1, mask => if mask = 0#64 then [] else mask.ctz.toNat :: flushLoop fuel (mask &&& (mask - 1#64))

def shardFlushWakeup (mask : WakeMask) : List Nat := flushLoop 64 mask

end Wakeup

section Dispatch

def clear (n : Nat) (array : List Nat) : Option (List Nat) :=
  if n ≤ array.length then some (List.replicate n 0 ++ array.drop n) else none

def increment (array : List Nat) (i : Nat) : Option (List Nat) :=
  if i < array.length then some (array.modify i (· + 1)) else none

def countRemote (myId : Nat) (counts targets : List Nat) : Option (List Nat) :=
  targets.foldlM (fun counts target => if target = myId then some counts else increment counts target) counts

/-- The loop over the shards that allocates the batches. It leaves the counts at 0, and the lengths of the batches stand
for `batch_ptrs`. -/
def allocBatches (nshards : Nat) (counts batches : List Nat) : Option (List Nat × List Nat) :=
  (List.range nshards).foldlM (fun (counts, batches) sid =>
    (counts[sid]?).bind fun count =>
      if count = 0 then some (counts, batches)
      else if sid < batches.length then some (counts.set sid 0, batches.set sid count)
      else none) (counts, batches)

def msetCoordinatorDispatchArgv (stack : List Nat) (nshards myId : Nat) (targets : List Nat) : Option (List (Nat × Nat)) := do
  let counts ← clear nshards stack
  let batches ← clear nshards stack
  let counts ← countRemote myId counts targets
  let (counts, batches) ← allocBatches nshards counts batches
  let _ ← countRemote myId counts targets
  let lengths ← (List.range nshards).mapM fun sid => (batches[sid]?).map fun length => (sid, length)
  return lengths.filter fun (_, length) => length ≠ 0

def msetSendFinToRemotes (shardHeads : List Nat) (nshards myId : Nat) : Option (List Nat) := do
  let heads ← (List.range nshards).mapM fun sid => if sid = myId then some (sid, 0) else (shardHeads[sid]?).map fun head => (sid, head)
  return (heads.filter fun (_, head) => head ≠ 0).map Prod.fst

end Dispatch

structure Works (nshards : Nat) : Prop where
  dispatch : ∀ stack myId targets, stack.length = maxShards → myId < nshards → (∀ t ∈ targets, t < nshards) →
    msetCoordinatorDispatchArgv stack nshards myId targets ≠ none
  heads : ∀ shardHeads myId, shardHeads.length = maxShards → myId < nshards →
    increment shardHeads myId ≠ none ∧ msetSendFinToRemotes shardHeads nshards myId ≠ none
  ids : ∀ id < nshards, (storeId id).toNat = id
  wakes : ∀ targets : List Nat, (∀ t ∈ targets, t < nshards) →
    (shardFlushWakeup (targets.foldl shardSendMsgDeferred 0#64)).Nodup ∧
    ∀ t, t ∈ shardFlushWakeup (targets.foldl shardSendMsgDeferred 0#64) ↔ t ∈ targets

section Bits

theorem and_sub_one (c q : Nat) : (2 ^ c * (2 * q + 1)) &&& (2 ^ c * (2 * q + 1) - 1) = 2 ^ c * (2 * q) := by
  induction c with
  | zero =>
    simp only [pow_zero, Nat.one_mul, Nat.add_sub_cancel]
    have odd : 2 * q + 1 = Nat.bit true q := rfl
    have even : 2 * q = Nat.bit false q := rfl
    rw [odd, even, Nat.land_bit]
    simp
  | succ c ih =>
    have positive : 0 < 2 ^ c * (2 * q + 1) := Nat.mul_pos (Nat.two_pow_pos c) (Nat.succ_pos _)
    have twice : 2 ^ (c + 1) * (2 * q + 1) = Nat.bit false (2 ^ c * (2 * q + 1)) := by
      simp only [Nat.bit_false]
      ring
    have less : 2 ^ (c + 1) * (2 * q + 1) - 1 = Nat.bit true (2 ^ c * (2 * q + 1) - 1) := by
      rw [twice]
      simp only [Nat.bit_false, Nat.bit_true]
      omega
    rw [less, twice, Nat.land_bit, ih]
    simp only [Bool.false_and, Nat.bit_false]
    ring

theorem eq_of_lowest {n c : Nat} (below : ∀ i < c, n.testBit i = false) (here : n.testBit c = true) :
    ∃ q, n = 2 ^ c * (2 * q + 1) := by
  induction c generalizing n with
  | zero =>
    have odd : n % 2 = 1 := by simpa [Nat.testBit_zero] using here
    exact ⟨n / 2, by omega⟩
  | succ c ih =>
    have even : n % 2 = 0 := by simpa [Nat.testBit_zero] using below 0 (Nat.succ_pos c)
    have half (i : Nat) : (n / 2).testBit i = n.testBit (i + 1) := (Nat.testBit_succ n i).symm
    obtain ⟨q, eq⟩ := ih (fun i small => (half i).trans (below (i + 1) (Nat.succ_lt_succ small))) ((half c).trans here)
    refine ⟨q, ?_⟩
    rw [pow_succ, Nat.mul_comm (2 ^ c), Nat.mul_assoc, ← eq]
    omega

theorem getLsbD_clear_lowest {mask : WakeMask} (some_bit : mask ≠ 0#64) (i : Nat) :
    (mask &&& (mask - 1#64)).getLsbD i = (mask.getLsbD i && decide (i ≠ mask.ctz.toNat)) := by
  have set : mask.toNat.testBit mask.ctz.toNat = true := BitVec.getLsbD_true_ctz_of_ne_zero some_bit
  have below (j : Nat) (small : j < mask.ctz.toNat) : mask.toNat.testBit j = false :=
    BitVec.getLsbD_false_of_lt_ctz small
  obtain ⟨q, eq⟩ := eq_of_lowest below set
  generalize mask.ctz.toNat = c at eq
  have positive : 1 ≤ mask.toNat := by
    rw [eq]
    exact Nat.mul_pos (Nat.two_pow_pos c) (Nat.succ_pos _)
  have bound := mask.isLt
  have less : (mask - 1#64).toNat = mask.toNat - 1 := by
    rw [BitVec.toNat_sub]
    have one : (1#64).toNat = 1 := rfl
    rw [one]
    omega
  have both : (mask &&& (mask - 1#64)).toNat = 2 ^ c * (2 * q) := by
    rw [BitVec.toNat_and, less, eq]
    exact and_sub_one c q
  rw [BitVec.getLsbD, BitVec.getLsbD, both, eq, Nat.testBit_two_pow_mul, Nat.testBit_two_pow_mul]
  by_cases same : i = c
  · simp [same, Nat.testBit_zero]
  · by_cases above : c ≤ i
    · obtain ⟨k, rfl⟩ : ∃ k, i = c + (k + 1) := ⟨i - c - 1, by omega⟩
      have shift : c + (k + 1) - c = k + 1 := by omega
      simp [shift, Nat.testBit_succ, Nat.mul_add_div]
    · simp [above]

end Bits

section Flush

theorem flushLoop_spec (fuel : Nat) (mask : WakeMask) (below : ∀ i, i + fuel < 64 → mask.getLsbD i = false) :
    (flushLoop fuel mask).Nodup ∧ ∀ i, i ∈ flushLoop fuel mask ↔ mask.getLsbD i = true := by
  induction fuel generalizing mask with
  | zero =>
    refine ⟨.nil, fun i => ?_⟩
    simp only [flushLoop, List.not_mem_nil, false_iff, Bool.not_eq_true]
    by_cases small : i < 64
    · exact below i small
    · exact BitVec.getLsbD_of_ge mask i (Nat.le_of_not_lt small)
  | succ fuel ih =>
    by_cases none : mask = 0#64
    · simp [flushLoop, none]
    · have set := BitVec.getLsbD_true_ctz_of_ne_zero none
      have clears := getLsbD_clear_lowest none
      have later (i : Nat) (small : i + fuel < 64) : (mask &&& (mask - 1#64)).getLsbD i = false := by
        rw [clears]
        by_cases same : i = mask.ctz.toNat
        · simp [same]
        · have low : i < mask.ctz.toNat := by
            have high : ¬ mask.ctz.toNat + (fuel + 1) < 64 := fun low => by simp [below _ low] at set
            omega
          simp [BitVec.getLsbD_false_of_lt_ctz low]
      obtain ⟨once, members⟩ := ih _ later
      simp only [flushLoop, if_neg none]
      refine ⟨List.nodup_cons.2 ⟨fun there => ?_, once⟩, fun i => ?_⟩
      · rw [members, clears] at there
        simp at there
      · rw [List.mem_cons, members, clears]
        by_cases same : i = mask.ctz.toNat
        · simp [same, set]
        · simp [same]

theorem getLsbD_shardSendMsgDeferred (mask : WakeMask) {dest : Nat} (small : dest < 64) (i : Nat) :
    (shardSendMsgDeferred mask dest).getLsbD i = (mask.getLsbD i || decide (i = dest)) := by
  rw [shardSendMsgDeferred, BitVec.getLsbD_or, Nat.mod_eq_of_lt small]
  by_cases same : i = dest
  · simp [same, small]
  · have zero (k : Nat) : (1#64).getLsbD k = decide (k = 0) := by simp [BitVec.getLsbD_one]
    simp only [BitVec.getLsbD_shiftLeft, zero, same, decide_false, Bool.or_false, Bool.or_eq_left_iff_imp]
    simp only [Bool.and_eq_true, decide_eq_true_eq, Bool.not_eq_true', decide_eq_false_iff_not]
    omega

theorem flushWakeup_targets {targets : List Nat} (small : ∀ t ∈ targets, t < 64) :
    (shardFlushWakeup (targets.foldl shardSendMsgDeferred 0#64)).Nodup ∧
    ∀ t, t ∈ shardFlushWakeup (targets.foldl shardSendMsgDeferred 0#64) ↔ t ∈ targets := by
  have bits (targets : List Nat) (mask : WakeMask) (small : ∀ t ∈ targets, t < 64) (i : Nat) :
      (targets.foldl shardSendMsgDeferred mask).getLsbD i = true ↔ mask.getLsbD i = true ∨ i ∈ targets := by
    induction targets generalizing mask with
    | nil => simp
    | cons t rest ih =>
      rw [List.foldl_cons, ih _ fun u there => small u (List.mem_cons_of_mem t there),
        getLsbD_shardSendMsgDeferred mask (small t List.mem_cons_self)]
      simp [or_assoc]
  obtain ⟨once, members⟩ := flushLoop_spec 64 (targets.foldl shardSendMsgDeferred 0#64) fun i low => by omega
  refine ⟨once, fun t => (members t).trans ?_⟩
  rw [bits targets 0#64 small t]
  simp

end Flush

section Arrays

variable {nshards myId : Nat} {targets : List Nat}

theorem clear_eq {stack : List Nat} (fits : nshards ≤ stack.length) :
    ∃ array, clear nshards stack = some array ∧ array.length = stack.length := by
  refine ⟨_, if_pos fits, ?_⟩
  simp only [List.length_append, List.length_replicate, List.length_drop]
  omega

theorem countRemote_eq (myId : Nat) {counts : List Nat} (within : ∀ t ∈ targets, t < counts.length) :
    ∃ counts', countRemote myId counts targets = some counts' ∧ counts'.length = counts.length := by
  induction targets generalizing counts with
  | nil => exact ⟨counts, rfl, rfl⟩
  | cons t rest ih =>
    have later : ∀ u ∈ rest, u < counts.length := fun u there => within u (List.mem_cons_of_mem t there)
    by_cases mine : t = myId
    · obtain ⟨counts', counted, length⟩ := ih later
      refine ⟨counts', ?_, length⟩
      simpa [countRemote, mine] using counted
    · have here := within t List.mem_cons_self
      have same : (counts.modify t (· + 1)).length = counts.length := List.length_modify ..
      obtain ⟨counts', counted, length⟩ := ih (same ▸ later)
      refine ⟨counts', ?_, length.trans same⟩
      simpa [countRemote, mine, increment, here] using counted

theorem allocBatches_eq (nshards : Nat) {counts batches : List Nat} (some_count : nshards ≤ counts.length)
    (some_batch : nshards ≤ batches.length) :
    ∃ counts' batches', allocBatches nshards counts batches = some (counts', batches') ∧
      counts'.length = counts.length ∧ batches'.length = batches.length := by
  induction nshards with
  | zero => exact ⟨counts, batches, rfl, rfl, rfl⟩
  | succ n ih =>
    obtain ⟨counts', batches', allocated, lengths⟩ := ih (Nat.le_of_succ_le some_count) (Nat.le_of_succ_le some_batch)
    have present : n < counts'.length := by omega
    have room : n < batches'.length := by omega
    unfold allocBatches at allocated ⊢
    rw [List.range_succ, List.foldlM_append, allocated]
    simp only [Option.bind_eq_bind, Option.bind_some, List.foldlM_cons, List.foldlM_nil, List.getElem?_eq_getElem present,
      if_pos room, Option.pure_def]
    by_cases zero : counts'[n] = 0
    · exact ⟨counts', batches', by simp [zero], lengths⟩
    · exact ⟨counts'.set n 0, batches'.set n counts'[n], by simp [zero], by simpa using lengths⟩

theorem mapM_ne_none {A B : Type} {f : A → Option B} {list : List A} (defined : ∀ a ∈ list, f a ≠ none) :
    list.mapM f ≠ none := by
  induction list with
  | nil => simp
  | cons a rest ih =>
    obtain ⟨b, here⟩ := Option.ne_none_iff_exists'.1 (defined a List.mem_cons_self)
    obtain ⟨bs, there⟩ := Option.ne_none_iff_exists'.1 (ih fun c member => defined c (List.mem_cons_of_mem a member))
    simp [List.mapM_cons, here, there]

theorem dispatch_ne_none {stack : List Nat} (fits : nshards ≤ stack.length) (within : ∀ t ∈ targets, t < nshards) :
    msetCoordinatorDispatchArgv stack nshards myId targets ≠ none := by
  obtain ⟨array, cleared, length⟩ := clear_eq fits
  have inside (counts : List Nat) (same : counts.length = stack.length) (t : Nat) (there : t ∈ targets) : t < counts.length :=
    same ▸ Nat.lt_of_lt_of_le (within t there) fits
  obtain ⟨counts, counted, length₁⟩ := countRemote_eq myId (inside array length)
  have counts_fit (counts : List Nat) (same : counts.length = array.length) : nshards ≤ counts.length :=
    same ▸ length ▸ fits
  obtain ⟨counts', batches, allocated, length₂, length₃⟩ :=
    allocBatches_eq nshards (counts_fit counts length₁) (length ▸ fits)
  obtain ⟨filled, refilled, -⟩ := countRemote_eq myId (inside counts' (by omega))
  have sent : (List.range nshards).mapM (fun sid => (batches[sid]?).map fun length => (sid, length)) ≠ none := by
    refine mapM_ne_none fun sid there => ?_
    have small : sid < batches.length := by
      have := List.mem_range.1 there
      omega
    simp [List.getElem?_eq_getElem small]
  obtain ⟨lengths, sent⟩ := Option.ne_none_iff_exists'.1 sent
  simp [msetCoordinatorDispatchArgv, cleared, counted, allocated, refilled, sent]

end Arrays

theorem wakeup_sixty_four : shardFlushWakeup (shardSendMsgDeferred 0#64 64) = [0] := by decide +kernel

theorem works_iff (nshards : Nat) : Works nshards ↔ nshards ≤ 64 := by
  constructor
  · intro works
    refine Nat.le_of_not_lt fun many => ?_
    have signalled := (works.wakes [64] (by simpa using many)).2 64
    rw [List.foldl_cons, List.foldl_nil, wakeup_sixty_four] at signalled
    simp at signalled
  · intro few
    refine ⟨fun stack myId targets length _ within => ?_, fun shardHeads myId length mine => ⟨?_, ?_⟩, fun id small => ?_, ?_⟩
    · exact dispatch_ne_none (length ▸ few) within
    · have inside : myId < shardHeads.length := length ▸ Nat.lt_of_lt_of_le mine few
      simp [increment, inside]
    · have heads : (List.range nshards).mapM (fun sid =>
          if sid = myId then some (sid, 0) else (shardHeads[sid]?).map fun head => (sid, head)) ≠ none := by
        refine mapM_ne_none fun sid there => ?_
        have small : sid < shardHeads.length := length ▸ Nat.lt_of_lt_of_le (List.mem_range.1 there) few
        split <;> simp [List.getElem?_eq_getElem small]
      obtain ⟨list, heads⟩ := Option.ne_none_iff_exists'.1 heads
      simp [msetSendFinToRemotes, heads]
    · rw [storeId, UInt8.toNat_ofNat']
      exact Nat.mod_eq_of_lt (Nat.lt_of_lt_of_le small (Nat.le_trans few (by decide)))
    · intro targets within
      exact flushWakeup_targets fun t there => Nat.lt_of_lt_of_le (within t there) few

theorem last_shard_not_woken : Mem.memLibAccepts 65 = true ∧ shardFlushWakeup (shardSendMsgDeferred 0#64 64) = [0] ∧
    msetCoordinatorDispatchArgv (List.replicate maxShards 0) 65 0 [1] = none ∧ ¬ Works 65 := by
  refine ⟨rfl, wakeup_sixty_four, rfl, fun works => ?_⟩
  have signalled := (works.wakes [64] (by decide)).2 64
  rw [List.foldl_cons, List.foldl_nil, wakeup_sixty_four] at signalled
  simp at signalled

end FreakV.Shards
