import FreakV.Lib.BinaryHeap
import FreakV.Lib.Transition
import Mathlib.Data.Multiset.Range
import Mathlib.Tactic.NormNum

namespace FreakV.Shard

open BinaryHeap

structure TtlNode where
  expire : Nat
  obj : Nat
deriving DecidableEq

structure TtlIndex where
  heap : Nat → TtlNode
  size : Nat
  cap : Nat
  heapIdx : Nat → Option Nat

def ttlHeapInitCap : Nat := 256

namespace TtlIndex

def init : TtlIndex := { heap := fun _ => ⟨0, 0⟩, size := 0, cap := 0, heapIdx := fun _ => none }

def nodeSwap (idx : TtlIndex) (a b : Nat) : TtlIndex :=
  let heap := Function.update (Function.update idx.heap a (idx.heap b)) b (idx.heap a)
  { idx with
    heap := heap
    heapIdx := Function.update (Function.update idx.heapIdx (heap a).obj (some a)) (heap b).obj (some b) }

theorem nodeSwap_heap (idx : TtlIndex) (a b i : Nat) : (idx.nodeSwap a b).heap i = idx.heap (Equiv.swap a b i) := by
  simp only [nodeSwap, Function.update_apply, Equiv.swap_apply_def]
  split_ifs <;> simp_all

def byExpire : Keyed TtlIndex Nat where
  key idx i := (idx.heap i).expire
  swap := nodeSwap
  key_swap idx a b i := by
    rw [nodeSwap_heap, Equiv.swap_apply_def]
    split_ifs <;> rfl

def nodeSiftUp (idx : TtlIndex) (i : Nat) : TtlIndex := siftUp byExpire i idx i

def nodeSiftDown (idx : TtlIndex) (i : Nat) : TtlIndex := siftDown byExpire idx.size idx.size idx i

def nodeFix (idx : TtlIndex) (i : Nat) : TtlIndex := fix byExpire idx.size idx i

-- heap[pos] = node; node.obj->heap_idx = pos
def setNode (idx : TtlIndex) (pos : Nat) (node : TtlNode) : TtlIndex :=
  { idx with heap := Function.update idx.heap pos node, heapIdx := Function.update idx.heapIdx node.obj (some pos) }

def setExpire (idx : TtlIndex) (pos expire : Nat) : TtlIndex :=
  { idx with heap := Function.update idx.heap pos { idx.heap pos with expire := expire } }

def clearIdx (idx : TtlIndex) (obj : Nat) : TtlIndex := { idx with heapIdx := Function.update idx.heapIdx obj none }

def grow (idx : TtlIndex) (grows : Bool) : Option TtlIndex :=
  if idx.cap ≤ idx.size then
    if grows then some { idx with cap := if idx.cap ≠ 0 then idx.cap * 2 % 2 ^ 32 else ttlHeapInitCap } else none
  else some idx

def nodePush (idx : TtlIndex) (obj expire : Nat) (grows : Bool) : TtlIndex × Bool :=
  match idx.grow grows with
  | none => (idx, false)
  | some idx =>
    let pos := idx.size
    (({ idx with size := pos + 1 }.setNode pos ⟨expire, obj⟩).nodeSiftUp pos, true)

def nodeUpdate (idx : TtlIndex) (obj expire : Nat) : TtlIndex :=
  match idx.heapIdx obj with
  | none => idx
  | some pos => (idx.setExpire pos expire).nodeFix pos

def nodeRemove (idx : TtlIndex) (obj : Nat) : TtlIndex :=
  match idx.heapIdx obj with
  | none => idx
  | some pos =>
    let idx := { idx with size := idx.size - 1 }
    let idx := if pos < idx.size then (idx.setNode pos (idx.heap idx.size)).nodeFix pos else idx
    idx.clearIdx obj

def nodePeek (idx : TtlIndex) : Nat := if 0 < idx.size then (idx.heap 0).expire else 2 ^ 64 - 1

def nodePop (idx : TtlIndex) : TtlIndex × Option (Nat × Nat) :=
  if idx.size = 0 then (idx, none)
  else
    let node := idx.heap 0
    let idx : TtlIndex := { idx.clearIdx node.obj with size := idx.size - 1 }
    let idx := if 0 < idx.size then (idx.setNode 0 (idx.heap idx.size)).nodeSiftDown 0 else idx
    (idx, some (node.obj, node.expire))

def Holds (idx : TtlIndex) (obj expire : Nat) : Prop := ∃ i < idx.size, idx.heap i = ⟨expire, obj⟩

structure Placed (idx : TtlIndex) (leaving : Option Nat) : Prop where
  place : ∀ o i, leaving ≠ some o → (idx.heapIdx o = some i ↔ i < idx.size ∧ (idx.heap i).obj = o)
  left : ∀ i < idx.size, leaving ≠ some (idx.heap i).obj

structure Rearranged (idx idx' : TtlIndex) : Prop where
  size : idx'.size = idx.size
  cap : idx'.cap = idx.cap
  nodes : ∀ o e, idx'.Holds o e ↔ idx.Holds o e

variable {idx idx' : TtlIndex} {leaving : Option Nat} {a b : Nat}

theorem Rearranged.refl (idx : TtlIndex) : Rearranged idx idx := ⟨rfl, rfl, fun _ _ => Iff.rfl⟩

theorem Placed.known (placed : idx.Placed leaving) (within : a < idx.size) : idx.heapIdx (idx.heap a).obj = some a :=
  (placed.place _ a (placed.left a within)).2 ⟨within, rfl⟩

theorem Placed.inj (placed : idx.Placed leaving) (within : a < idx.size) (within' : b < idx.size)
    (same : (idx.heap a).obj = (idx.heap b).obj) : a = b := by
  have first := placed.known within
  rw [same, placed.known within'] at first
  exact (Option.some.inj first).symm

theorem swap_lt {n i : Nat} (within : a < n) (within' : b < n) : Equiv.swap a b i < n ↔ i < n := by
  rw [Equiv.swap_apply_def]
  split_ifs <;> omega

theorem holds_nodeSwap (within : a < idx.size) (within' : b < idx.size) (o e : Nat) :
    (idx.nodeSwap a b).Holds o e ↔ idx.Holds o e :=
  (Equiv.swap a b).exists_congr fun i => by
    rw [nodeSwap_heap, swap_lt within within']
    rfl

theorem nodeSwap_heapIdx (idx : TtlIndex) (a b o : Nat) :
    (idx.nodeSwap a b).heapIdx o =
      if o = (idx.heap a).obj then some b else if o = (idx.heap b).obj then some a else idx.heapIdx o := by
  change Function.update (Function.update _ ((idx.nodeSwap a b).heap a).obj _) ((idx.nodeSwap a b).heap b).obj _ o = _
  rw [nodeSwap_heap, nodeSwap_heap, Equiv.swap_apply_left, Equiv.swap_apply_right, Function.update_apply,
    Function.update_apply]

theorem Placed.nodeSwap (placed : idx.Placed leaving) (within : a < idx.size) (within' : b < idx.size) :
    (idx.nodeSwap a b).Placed leaving := by
  refine ⟨fun o i stays => ?_, fun i inside => ?_⟩
  · have moved : (idx.nodeSwap a b).heapIdx o = some i ↔ idx.heapIdx o = some (Equiv.swap a b i) := by
      rw [nodeSwap_heapIdx]
      by_cases first : o = (idx.heap a).obj
      · rw [if_pos first, first, placed.known within, Option.some.injEq, Option.some.injEq, eq_comm (a := a),
          Equiv.swap_apply_eq_iff, Equiv.swap_apply_left, eq_comm]
      by_cases second : o = (idx.heap b).obj
      · rw [if_neg first, if_pos second, second, placed.known within', Option.some.injEq, Option.some.injEq,
          eq_comm (a := b), Equiv.swap_apply_eq_iff, Equiv.swap_apply_right, eq_comm]
      have away {j : Nat} (found : idx.heapIdx o = some j) : Equiv.swap a b j = j := by
        have here := ((placed.place o j stays).1 found).2
        exact Equiv.swap_apply_of_ne_of_ne (fun same => first (same ▸ here.symm)) fun same => second (same ▸ here.symm)
      rw [if_neg first, if_neg second]
      refine ⟨fun found => by rw [away found, found], fun found => ?_⟩
      have same := away found
      rw [Equiv.swap_apply_self] at same
      rw [found, ← same]
    rw [moved, placed.place o _ stays, swap_lt within within', nodeSwap_heap]
    rfl
  · rw [nodeSwap_heap]
    exact placed.left _ ((swap_lt within within').2 inside)

structure Sifted (leaving : Option Nat) (idx idx' : TtlIndex) : Prop where
  placed : idx'.Placed leaving
  same : Rearranged idx idx'

theorem Sifted.swap (sifted : Sifted leaving idx idx') (within : a < idx.size) (within' : b < idx.size) :
    Sifted leaving idx (idx'.nodeSwap a b) := by
  have size := sifted.same.size
  rw [← size] at within within'
  exact ⟨sifted.placed.nodeSwap within within', size, sifted.same.cap,
    fun o e => (holds_nodeSwap within within' o e).trans (sifted.same.nodes o e)⟩

theorem Sifted.room (sifted : Sifted leaving idx idx') (room : idx.size ≤ idx.cap) : idx'.size ≤ idx'.cap := by
  rw [sifted.same.size, sifted.same.cap]
  exact room

variable {pos : Nat}

theorem Placed.siftUp (placed : idx.Placed leaving) (inside : pos < idx.size) :
    Sifted leaving idx (idx.nodeSiftUp pos) :=
  siftUp_keeps (fun _ _ _ within within' sifted => Sifted.swap sifted within within') inside ⟨placed, .refl idx⟩

theorem Placed.fix (placed : idx.Placed leaving) (inside : pos < idx.size) :
    Sifted leaving idx (idx.nodeFix pos) :=
  fix_keeps (fun _ _ _ within within' sifted => Sifted.swap sifted within within') inside ⟨placed, .refl idx⟩

structure Valid (idx : TtlIndex) : Prop where
  ordered : Ordered byExpire idx.size idx
  placed : idx.Placed none
  room : idx.size ≤ idx.cap

variable {o e : Nat}

theorem Valid.init : init.Valid :=
  ⟨fun _ _ within => absurd within (by simp [TtlIndex.init]), ⟨by simp [TtlIndex.init], by simp⟩, by simp [TtlIndex.init]⟩

theorem Placed.heapIdx_eq_none (placed : idx.Placed none) : idx.heapIdx o = none ↔ ∀ e, ¬idx.Holds o e := by
  constructor
  · rintro missing e ⟨i, inside, node⟩
    have known := placed.known inside
    rw [node, missing] at known
    cases known
  · intro absent
    rw [Option.eq_none_iff_forall_ne_some]
    intro i found
    obtain ⟨inside, here⟩ := (placed.place o i (by simp)).1 found
    exact absent (idx.heap i).expire ⟨i, inside, by rw [← here]⟩

theorem Placed.holds_unique {e' : Nat} (placed : idx.Placed none) (first : idx.Holds o e) (second : idx.Holds o e') :
    e = e' := by
  obtain ⟨i, inside, node⟩ := first
  obtain ⟨j, inside', node'⟩ := second
  have same := placed.inj inside inside' (by rw [node, node'])
  rw [same, node'] at node
  exact (congrArg TtlNode.expire node).symm

section Push

theorem Placed.appended (placed : idx.Placed none) (fresh : idx.heapIdx o = none) :
    ({ idx with size := idx.size + 1 }.setNode idx.size ⟨e, o⟩).Placed none := by
  refine ⟨fun o' i _ => ?_, fun _ _ => by simp⟩
  have old := placed.place o' i (by simp)
  simp only [setNode, Function.update_apply]
  by_cases same : o' = o
  · rw [if_pos same]
    refine ⟨fun found => ?_, fun ⟨inside, node⟩ => ?_⟩
    · cases found
      exact ⟨Nat.lt_succ_self _, by rw [if_pos rfl, same]⟩
    · split at node
      next last => rw [last]
      next before =>
        have found := old.2 ⟨by omega, node⟩
        rw [same, fresh] at found
        cases found
  · rw [if_neg same, old]
    refine ⟨fun ⟨inside, node⟩ => ⟨Nat.lt_succ_of_lt inside, by rw [if_neg inside.ne, node]⟩, fun ⟨inside, node⟩ => ?_⟩
    split at node
    · exact absurd node.symm same
    next before => exact ⟨by omega, node⟩

theorem holds_appended (o' e' : Nat) : ({ idx with size := idx.size + 1 }.setNode idx.size ⟨e, o⟩).Holds o' e' ↔
    o' = o ∧ e' = e ∨ idx.Holds o' e' := by
  constructor
  · rintro ⟨i, inside, node⟩
    have inside : i < idx.size + 1 := inside
    simp only [setNode, Function.update_apply] at node
    split at node
    · cases node
      exact .inl ⟨rfl, rfl⟩
    next before => exact .inr ⟨i, by omega, node⟩
  · rintro (⟨rfl, rfl⟩ | ⟨i, inside, node⟩)
    · exact ⟨idx.size, Nat.lt_succ_self _, by simp [setNode]⟩
    · exact ⟨i, Nat.lt_succ_of_lt inside, by simp [setNode, Function.update_of_ne inside.ne, node]⟩

theorem Valid.upTo_appended (valid : idx.Valid) :
    UpTo byExpire (idx.size + 1) ({ idx with size := idx.size + 1 }.setNode idx.size ⟨e, o⟩) idx.size := by
  constructor
  · intro j positive within other
    have above := parent_lt positive
    have before : j < idx.size := by omega
    have same {k : Nat} (less : k < idx.size) :
        byExpire.key ({ idx with size := idx.size + 1 }.setNode idx.size ⟨e, o⟩) k = byExpire.key idx k := by
      simp only [byExpire, setNode, Function.update_of_ne less.ne]
    rw [same before, same (by omega)]
    exact valid.ordered j positive before
  · intro _ j positive within child
    have above := parent_lt positive
    omega

theorem grow_eq (valid : idx.Valid) (few : idx.size < 2 ^ 31) : ∃ cap, idx.size < cap ∧
    idx.grow true = some { idx with cap := cap } := by
  have room := valid.room
  unfold grow
  split
  next full =>
    refine ⟨_, ?_, rfl⟩
    split
    · omega
    next empty => unfold ttlHeapInitCap; omega
  · exact ⟨idx.cap, by omega, rfl⟩

theorem Valid.nodePush_grown {grows : Bool} {cap : Nat} (valid : idx.Valid) (fresh : idx.heapIdx o = none)
    (more : idx.size < cap) (grown : idx.grow grows = some { idx with cap := cap }) :
    (idx.nodePush o e grows).2 = true ∧ (idx.nodePush o e grows).1.Valid ∧
      (idx.nodePush o e grows).1.size = idx.size + 1 ∧
      ∀ o' e', (idx.nodePush o e grows).1.Holds o' e' ↔ o' = o ∧ e' = e ∨ idx.Holds o' e' := by
  rw [TtlIndex.nodePush, grown]
  have wider : ({ idx with cap := cap } : TtlIndex).Valid := ⟨valid.ordered, ⟨valid.placed.place, valid.placed.left⟩, more.le⟩
  have appended := wider.placed.appended (e := e) fresh
  have sifted := appended.siftUp (Nat.lt_succ_self _)
  have size := sifted.same.size
  have ordered := (wider.upTo_appended (e := e) (o := o)).siftUp (Nat.lt_succ_self _) (Nat.le_refl _)
  exact ⟨rfl, ⟨size.symm ▸ ordered, sifted.placed, sifted.room more⟩, size,
    fun o' e' => (sifted.same.nodes o' e').trans (holds_appended o' e')⟩

theorem Valid.nodePush (valid : idx.Valid) (fresh : idx.heapIdx o = none) (few : idx.size < 2 ^ 31) :
    (idx.nodePush o e true).2 = true ∧ (idx.nodePush o e true).1.Valid ∧
      (idx.nodePush o e true).1.size = idx.size + 1 ∧
      ∀ o' e', (idx.nodePush o e true).1.Holds o' e' ↔ o' = o ∧ e' = e ∨ idx.Holds o' e' := by
  obtain ⟨cap, more, grown⟩ := grow_eq valid few
  exact valid.nodePush_grown fresh more grown

theorem Valid.nodePush_room (valid : idx.Valid) (fresh : idx.heapIdx o = none) (room : idx.size < idx.cap) (grows : Bool) :
    (idx.nodePush o e grows).1.Valid ∧
      ∀ o' e', (idx.nodePush o e grows).1.Holds o' e' ↔ o' = o ∧ e' = e ∨ idx.Holds o' e' := by
  have grown : idx.grow grows = some { idx with cap := idx.cap } := if_neg (by omega)
  obtain ⟨-, valid', -, holds⟩ := valid.nodePush_grown (e := e) fresh room grown
  exact ⟨valid', holds⟩

end Push

section Update

theorem setExpire_obj (idx : TtlIndex) (pos expire i : Nat) : ((idx.setExpire pos expire).heap i).obj = (idx.heap i).obj := by
  simp only [setExpire, Function.update_apply]
  split
  next same => rw [same]
  · rfl

theorem Placed.setExpire (placed : idx.Placed none) : (idx.setExpire pos e).Placed none := by
  refine ⟨fun o' i stays => ?_, fun _ _ => by simp⟩
  rw [setExpire_obj]
  exact placed.place o' i stays

theorem Placed.holds_setExpire (placed : idx.Placed none) (inside : pos < idx.size) (o' e' : Nat) :
    (idx.setExpire pos e).Holds o' e' ↔
      o' = (idx.heap pos).obj ∧ e' = e ∨ o' ≠ (idx.heap pos).obj ∧ idx.Holds o' e' := by
  constructor
  · rintro ⟨i, within, node⟩
    simp only [TtlIndex.setExpire, Function.update_apply] at node
    split at node
    · cases node
      exact .inl ⟨rfl, rfl⟩
    next other =>
      refine .inr ⟨fun same => other (placed.inj within inside ?_), i, within, node⟩
      rw [← same, node]
  · rintro (⟨rfl, rfl⟩ | ⟨other, i, within, node⟩)
    · exact ⟨pos, inside, by simp [TtlIndex.setExpire]⟩
    · refine ⟨i, within, ?_⟩
      have elsewhere : i ≠ pos := by
        rintro rfl
        exact other (congrArg TtlNode.obj node).symm
      simp [TtlIndex.setExpire, Function.update_of_ne elsewhere, node]

theorem Valid.nodeUpdate (valid : idx.Valid) (o e : Nat) :
    (idx.nodeUpdate o e).Valid ∧ (idx.nodeUpdate o e).size = idx.size ∧
      ∀ o' e', (idx.nodeUpdate o e).Holds o' e' ↔ if o' = o then e' = e ∧ ∃ e, idx.Holds o e else idx.Holds o' e' := by
  unfold TtlIndex.nodeUpdate
  split
  next missing =>
    refine ⟨valid, rfl, fun o' e' => ?_⟩
    have absent := valid.placed.heapIdx_eq_none.1 missing
    split
    next same => simp [same, absent]
    · rfl
  next pos found =>
    obtain ⟨inside, here⟩ := (valid.placed.place o pos (by simp)).1 found
    have placed : (idx.setExpire pos e).Placed none := valid.placed.setExpire
    have sifted := placed.fix inside
    have around : Around byExpire idx.size (idx.setExpire pos e) pos :=
      valid.ordered.around fun j other => by simp [byExpire, setExpire, Function.update_of_ne other]
    have size := sifted.same.size
    refine ⟨⟨size.symm ▸ around.fix inside, sifted.placed, sifted.room valid.room⟩, size, fun o' e' => ?_⟩
    rw [sifted.same.nodes, valid.placed.holds_setExpire inside, here]
    split
    next same =>
      have present : ∃ e, idx.Holds o e := ⟨(idx.heap pos).expire, pos, inside, by rw [← here]⟩
      simp [same, present]
    next other => simp [other]

end Update

section Remove

def vacated (idx : TtlIndex) (pos : Nat) : TtlIndex :=
  let idx := { idx with size := idx.size - 1 }
  if pos < idx.size then idx.setNode pos (idx.heap idx.size) else idx

theorem vacated_size (idx : TtlIndex) (pos : Nat) : (idx.vacated pos).size = idx.size - 1 := by
  unfold vacated
  dsimp only
  split <;> rfl

theorem vacated_cap (idx : TtlIndex) (pos : Nat) : (idx.vacated pos).cap = idx.cap := by
  unfold vacated
  dsimp only
  split <;> rfl

theorem vacated_heap (idx : TtlIndex) {i : Nat} (within : i < idx.size - 1) :
    (idx.vacated pos).heap i = if i = pos then idx.heap (idx.size - 1) else idx.heap i := by
  unfold vacated
  dsimp only
  split
  · simp only [setNode, Function.update_apply]
  next late => rw [if_neg (by omega)]

theorem vacated_heapIdx (idx : TtlIndex) (pos o : Nat) : (idx.vacated pos).heapIdx o =
    if pos < idx.size - 1 ∧ o = (idx.heap (idx.size - 1)).obj then some pos else idx.heapIdx o := by
  unfold vacated
  dsimp only
  split
  next early => simp only [setNode, Function.update_apply, early, true_and]
  next late => rw [if_neg fun both => late both.1]

theorem Placed.vacated (placed : idx.Placed none) (inside : pos < idx.size) :
    (idx.vacated pos).Placed (some (idx.heap pos).obj) := by
  have last : idx.size - 1 < idx.size := by omega
  refine ⟨fun o' i stays => ?_, fun i within same => ?_⟩
  · have old := placed.place o' i (by simp)
    rw [vacated_heapIdx, vacated_size]
    split
    next moved =>
      refine ⟨fun found => ?_, fun ⟨within, node⟩ => ?_⟩
      · cases found
        exact ⟨moved.1, by rw [vacated_heap idx moved.1, if_pos rfl, moved.2]⟩
      · rw [vacated_heap idx within] at node
        split at node
        next here => rw [here]
        · have := placed.inj (by omega) last (node.trans moved.2)
          omega
    next still =>
      rw [old]
      refine ⟨fun ⟨within, here⟩ => ?_, fun ⟨within, node⟩ => ?_⟩
      · have elsewhere : i ≠ pos := by
          rintro rfl
          exact stays (congrArg some here)
        have before : i < idx.size - 1 := by
          refine Nat.lt_of_le_of_ne (by omega) fun same => ?_
          rw [same] at here elsewhere
          exact still ⟨by omega, here.symm⟩
        exact ⟨before, by rw [vacated_heap idx before, if_neg elsewhere, here]⟩
      · rw [vacated_heap idx within] at node
        split at node
        next here => exact absurd ⟨here ▸ within, node.symm⟩ still
        · exact ⟨by omega, node⟩
  · rw [vacated_size] at within
    rw [vacated_heap idx within, Option.some.injEq] at same
    split at same
    next here =>
      have := placed.inj inside last same
      omega
    next elsewhere => exact elsewhere (placed.inj (by omega) inside same.symm)

theorem Placed.holds_vacated (placed : idx.Placed none) (inside : pos < idx.size) (o' e' : Nat) :
    (idx.vacated pos).Holds o' e' ↔ o' ≠ (idx.heap pos).obj ∧ idx.Holds o' e' := by
  constructor
  · rintro ⟨i, within, node⟩
    have left := (placed.vacated inside).left i within
    rw [node] at left
    refine ⟨fun same => left (by rw [same]), ?_⟩
    rw [vacated_size] at within
    rw [vacated_heap idx within] at node
    split at node
    · exact ⟨idx.size - 1, by omega, node⟩
    · exact ⟨i, by omega, node⟩
  · rintro ⟨other, i, within, node⟩
    have elsewhere : i ≠ pos := by
      rintro rfl
      exact other (congrArg TtlNode.obj node).symm
    by_cases last : i = idx.size - 1
    · refine ⟨pos, by rw [vacated_size]; omega, ?_⟩
      rw [vacated_heap idx (by omega), if_pos rfl, ← last, node]
    · refine ⟨i, by rw [vacated_size]; omega, ?_⟩
      rw [vacated_heap idx (by omega), if_neg elsewhere, node]

theorem Valid.vacated_around (valid : idx.Valid) : Around byExpire (idx.size - 1) (idx.vacated pos) pos := by
  have shorter : Ordered byExpire (idx.size - 1) idx := fun j positive within => valid.ordered j positive (by omega)
  have same : ∀ j, j ≠ pos → byExpire.key (idx.vacated pos) j = byExpire.key idx j := by
    intro j other
    unfold vacated
    dsimp only
    split
    · simp [byExpire, setNode, Function.update_of_ne other]
    · rfl
  exact shorter.around same

theorem Valid.vacated_room (valid : idx.Valid) : (idx.vacated pos).size ≤ (idx.vacated pos).cap := by
  rw [vacated_size, vacated_cap]
  exact Nat.le_trans (Nat.sub_le _ _) valid.room

theorem Placed.clearIdx (placed : idx.Placed (some o)) : (idx.clearIdx o).Placed none := by
  refine ⟨fun o' i _ => ?_, fun _ _ => by simp⟩
  simp only [TtlIndex.clearIdx, Function.update_apply]
  split
  next same =>
    refine ⟨nofun, fun ⟨inside, here⟩ => absurd ?_ (placed.left i inside)⟩
    rw [here, same]
  next other => exact placed.place o' i fun same => other (Option.some.inj same).symm

theorem nodeRemove_eq (found : idx.heapIdx o = some pos) : idx.nodeRemove o =
    (if pos < idx.size - 1 then (idx.vacated pos).nodeFix pos else idx.vacated pos).clearIdx o := by
  simp only [nodeRemove, found, vacated]
  split <;> rfl

theorem Placed.refit {s : TtlIndex} (placed : s.Placed leaving) (bound : pos ≤ s.size)
    (around : Around byExpire s.size s pos) :
    Sifted leaving s (if pos < s.size then s.nodeFix pos else s) ∧
      Ordered byExpire s.size (if pos < s.size then s.nodeFix pos else s) := by
  split
  next early => exact ⟨placed.fix early, around.fix early⟩
  next late =>
    refine ⟨⟨placed, .refl s⟩, fun j positive within => ?_⟩
    have above := parent_lt positive
    exact around.rest j positive within (by omega) (by omega)

theorem Valid.nodeRemove_at (valid : idx.Valid) (found : idx.heapIdx o = some pos) :
    (idx.nodeRemove o).Valid ∧ (idx.nodeRemove o).size = idx.size - 1 ∧
      ∀ o' e', (idx.nodeRemove o).Holds o' e' ↔ o' ≠ o ∧ idx.Holds o' e' := by
  obtain ⟨inside, here⟩ := (valid.placed.place o pos (by simp)).1 found
  have placed := valid.placed.vacated inside
  have nodes := valid.placed.holds_vacated inside
  have size := idx.vacated_size pos
  rw [here] at placed nodes
  obtain ⟨sifted, ordered⟩ := placed.refit (show pos ≤ _ by omega) (size ▸ valid.vacated_around)
  rw [nodeRemove_eq found, ← size]
  have size' := sifted.same.size
  exact ⟨⟨size'.symm ▸ ordered, sifted.placed.clearIdx, sifted.room valid.vacated_room⟩, size', fun o' e' =>
    (sifted.same.nodes o' e').trans (nodes o' e')⟩

theorem Valid.nodeRemove (valid : idx.Valid) (o : Nat) :
    (idx.nodeRemove o).Valid ∧ (idx.nodeRemove o).size ≤ idx.size ∧
      ∀ o' e', (idx.nodeRemove o).Holds o' e' ↔ o' ≠ o ∧ idx.Holds o' e' := by
  cases found : idx.heapIdx o with
  | none =>
    have absent := valid.placed.heapIdx_eq_none.1 found
    have same : idx.nodeRemove o = idx := by simp [TtlIndex.nodeRemove, found]
    rw [same]
    refine ⟨valid, Nat.le_refl _, fun o' e' => ⟨fun holds => ⟨?_, holds⟩, And.right⟩⟩
    rintro rfl
    exact absent e' holds
  | some pos =>
    obtain ⟨valid', size, nodes⟩ := valid.nodeRemove_at found
    exact ⟨valid', by omega, nodes⟩

end Remove

section Pop

theorem Placed.nodePop_eq (placed : idx.Placed none) (some_ : 0 < idx.size) : idx.nodePop =
    (if 0 < idx.size - 1 then ((idx.vacated 0).clearIdx (idx.heap 0).obj).nodeFix 0
      else (idx.vacated 0).clearIdx (idx.heap 0).obj,
      some ((idx.heap 0).obj, (idx.heap 0).expire)) := by
  rw [TtlIndex.nodePop, if_neg (by omega)]
  simp only [Prod.mk.injEq, and_true, TtlIndex.vacated, TtlIndex.clearIdx]
  split
  next more =>
    have other : (idx.heap 0).obj ≠ (idx.heap (idx.size - 1)).obj := fun same => by
      have := placed.inj some_ (show idx.size - 1 < idx.size by omega) same
      omega
    simp only [setNode]
    rw [Function.update_comm other]
    simp [nodeFix, BinaryHeap.fix, nodeSiftDown]
  · rfl

theorem Valid.nodePop_none (empty : idx.size = 0) : idx.nodePop = (idx, none) := by simp [TtlIndex.nodePop, empty]

theorem Valid.nodePop (valid : idx.Valid) (some_ : 0 < idx.size) :
    idx.nodePop.2 = some ((idx.heap 0).obj, (idx.heap 0).expire) ∧ idx.nodePop.1.Valid ∧
      idx.nodePop.1.size = idx.size - 1 ∧ idx.nodePop.1.cap = idx.cap ∧
      ∀ o' e', idx.nodePop.1.Holds o' e' ↔ o' ≠ (idx.heap 0).obj ∧ idx.Holds o' e' := by
  have placed := (valid.placed.vacated some_).clearIdx
  have size : ((idx.vacated 0).clearIdx (idx.heap 0).obj).size = idx.size - 1 := idx.vacated_size 0
  have around : Around byExpire (idx.size - 1) (idx.vacated 0) 0 := valid.vacated_around
  obtain ⟨sifted, ordered⟩ := placed.refit (Nat.zero_le _) (size ▸ ⟨around.rest, around.bridged⟩)
  rw [valid.placed.nodePop_eq some_, ← size]
  have size' := sifted.same.size
  exact ⟨rfl, ⟨size'.symm ▸ ordered, sifted.placed, sifted.room valid.vacated_room⟩, size',
    sifted.same.cap.trans (idx.vacated_cap 0), fun o' e' =>
      (sifted.same.nodes o' e').trans (valid.placed.holds_vacated some_ o' e')⟩

end Pop

section Runs

def pairs (idx : TtlIndex) : Multiset (Nat × Nat) :=
  (Multiset.range idx.size).map fun i => ((idx.heap i).obj, (idx.heap i).expire)

theorem mem_pairs : (o, e) ∈ idx.pairs ↔ idx.Holds o e := by
  simp only [pairs, Multiset.mem_map, Multiset.mem_range, Prod.mk.injEq, Holds]
  refine exists_congr fun i => and_congr_right fun _ => ⟨fun parts => ?_, fun node => by simp [node]⟩
  rw [← parts.1, ← parts.2]

theorem Placed.nodup_pairs (placed : idx.Placed none) : idx.pairs.Nodup := by
  refine Multiset.Nodup.map_on (fun i within j within' same => ?_) (Multiset.nodup_range _)
  exact placed.inj (Multiset.mem_range.1 within) (Multiset.mem_range.1 within') (congrArg Prod.fst same)

inductive Op
  | push (obj expire : Nat)
  | update (obj expire : Nat)
  | remove (obj : Nat)
  | pop
deriving DecidableEq

def step (w : TtlIndex × Multiset (Nat × Nat)) : Op → Option (TtlIndex × Multiset (Nat × Nat))
  | .push o e => some ((w.1.nodePush o e true).1, (o, e) ::ₘ w.2)
  | .update o e => some (w.1.nodeUpdate o e, w.2.map fun p => if p.1 = o then (o, e) else p)
  | .remove o => some (w.1.nodeRemove o, w.2.filter fun p => p.1 ≠ o)
  | .pop => some (w.1.nodePop.1, w.1.nodePop.2.elim w.2 fun p => w.2.erase p)

def Fits (w : TtlIndex × Multiset (Nat × Nat)) : Op → Prop
  | .push o _ => (∀ p ∈ w.2, p.1 ≠ o) ∧ Multiset.card w.2 + 1 < 2 ^ 31
  | _ => True

structure Traces (w : TtlIndex × Multiset (Nat × Nat)) : Prop where
  valid : w.1.Valid
  pairs : w.1.pairs = w.2

variable {w w' : TtlIndex × Multiset (Nat × Nat)}

theorem Traces.mem (traces : Traces w) : (o, e) ∈ w.2 ↔ w.1.Holds o e := by rw [← traces.pairs, mem_pairs]

theorem Traces.nodup (traces : Traces w) : w.2.Nodup := traces.pairs ▸ traces.valid.placed.nodup_pairs

theorem Traces.card (traces : Traces w) : Multiset.card w.2 = w.1.size := by simp [← traces.pairs, TtlIndex.pairs]

theorem Traces.unique {e' : Nat} (traces : Traces w) (first : (o, e) ∈ w.2) (second : (o, e') ∈ w.2) : e = e' :=
  traces.valid.placed.holds_unique (traces.mem.1 first) (traces.mem.1 second)

theorem Traces.of_mem (valid : w.1.Valid) (nodup : w.2.Nodup) (same : ∀ o e, w.1.Holds o e ↔ (o, e) ∈ w.2) : Traces w :=
  ⟨valid, (valid.placed.nodup_pairs.ext nodup).2 fun (_, _) => mem_pairs.trans (same _ _)⟩

theorem Traces.push (traces : Traces w) (fits : Fits w (.push o e)) :
    Traces ((w.1.nodePush o e true).1, (o, e) ::ₘ w.2) := by
  have fresh : w.1.heapIdx o = none :=
    traces.valid.placed.heapIdx_eq_none.2 fun e' holds => fits.1 (o, e') (traces.mem.2 holds) rfl
  have few : w.1.size < 2 ^ 31 := by
    have := fits.2
    rw [traces.card] at this
    omega
  obtain ⟨-, valid, -, nodes⟩ := traces.valid.nodePush (e := e) fresh few
  refine .of_mem valid (Multiset.nodup_cons.2 ⟨fun there => fits.1 _ there rfl, traces.nodup⟩) fun o' e' => ?_
  rw [nodes, Multiset.mem_cons, Prod.mk.injEq, traces.mem]

theorem Traces.update (traces : Traces w) (o e : Nat) :
    Traces (w.1.nodeUpdate o e, w.2.map fun p => if p.1 = o then (o, e) else p) := by
  obtain ⟨valid, -, nodes⟩ := traces.valid.nodeUpdate o e
  have first (p : Nat × Nat) : (if p.1 = o then (o, e) else p).1 = p.1 := by
    split
    next same => exact same.symm
    · rfl
  have nodup : (w.2.map fun p => if p.1 = o then (o, e) else p).Nodup := by
    refine Multiset.Nodup.map_on (fun p there q there' same => ?_) traces.nodup
    have objs := congrArg Prod.fst same
    rw [first, first] at objs
    exact Prod.ext objs (traces.unique there (by rw [objs]; exact there'))
  refine .of_mem valid nodup fun o' e' => ?_
  rw [nodes, Multiset.mem_map]
  constructor
  · intro holds
    split at holds
    next same =>
      obtain ⟨rfl, old, present⟩ := holds
      exact ⟨(o, old), traces.mem.2 present, by simp [same]⟩
    next other => exact ⟨(o', e'), traces.mem.2 holds, by simp [other]⟩
  · rintro ⟨⟨o₁, e₁⟩, there, same⟩
    by_cases changed : o₁ = o
    · rw [if_pos changed, Prod.mk.injEq] at same
      obtain ⟨rfl, rfl⟩ := same
      rw [if_pos rfl]
      exact ⟨rfl, e₁, traces.mem.1 (changed ▸ there)⟩
    · rw [if_neg changed, Prod.mk.injEq] at same
      obtain ⟨rfl, rfl⟩ := same
      rw [if_neg changed]
      exact traces.mem.1 there

theorem Traces.remove (traces : Traces w) (o : Nat) : Traces (w.1.nodeRemove o, w.2.filter fun p => p.1 ≠ o) := by
  obtain ⟨valid, -, nodes⟩ := traces.valid.nodeRemove o
  refine .of_mem valid (traces.nodup.filter _) fun o' e' => ?_
  rw [nodes, Multiset.mem_filter, traces.mem, and_comm]

theorem Traces.pop (traces : Traces w) (some_ : 0 < w.1.size) :
    w.1.nodePop.2 = some ((w.1.heap 0).obj, (w.1.heap 0).expire) ∧
      Traces (w.1.nodePop.1, w.2.erase ((w.1.heap 0).obj, (w.1.heap 0).expire)) := by
  obtain ⟨result, valid, -, -, nodes⟩ := traces.valid.nodePop some_
  refine ⟨result, .of_mem valid (traces.nodup.erase _) fun o' e' => ?_⟩
  rw [nodes, traces.nodup.mem_erase_iff, traces.mem]
  refine ⟨fun kept => ⟨fun same => kept.1 (congrArg Prod.fst same), kept.2⟩, fun kept => ⟨?_, kept.2⟩⟩
  rintro rfl
  have here : w.1.Holds (w.1.heap 0).obj (w.1.heap 0).expire := ⟨0, some_, rfl⟩
  exact kept.1 (by rw [traces.valid.placed.holds_unique kept.2 here])

theorem Traces.step {op : Op} (traces : Traces w) (fits : Fits w op) (stepped : step w op = some w') : Traces w' := by
  cases op with
  | push o e =>
    cases stepped
    exact traces.push fits
  | update o e =>
    cases stepped
    exact traces.update o e
  | remove o =>
    cases stepped
    exact traces.remove o
  | pop =>
    cases stepped
    rcases Nat.eq_zero_or_pos w.1.size with empty | some_
    · rw [Valid.nodePop_none empty]
      exact traces
    · obtain ⟨result, popped⟩ := traces.pop some_
      rw [result]
      exact popped

theorem Traces.init : Traces (TtlIndex.init, 0) := ⟨.init, by simp [TtlIndex.pairs, TtlIndex.init]⟩

open Transition in
theorem ttl_priority_queue (reached : Reaches step Fits (TtlIndex.init, 0) w) :
    (∀ i, 0 < i → i < w.1.size → (w.1.heap ((i - 1) / 2)).expire ≤ (w.1.heap i).expire) ∧
    (∀ p ∈ w.2, ∃ i, w.1.heapIdx p.1 = some i ∧ i < w.1.size ∧ (w.1.heap i).obj = p.1) ∧
    (∀ o, (∀ p ∈ w.2, p.1 ≠ o) → w.1.heapIdx o = none) ∧
    w.1.pairs = w.2 ∧
    (w.1.nodePop.2 = none ↔ w.2 = 0) ∧
    ∀ p, w.1.nodePop.2 = some p → p ∈ w.2 ∧ (∀ q ∈ w.2, p.2 ≤ q.2) ∧ w.1.nodePop.1.pairs = w.2.erase p := by
  have traces : Traces w := reached.invariant .init fun traces fits stepped => traces.step fits stepped
  refine ⟨traces.valid.ordered, ?_, ?_, traces.pairs, ?_, ?_⟩
  · rintro ⟨o, e⟩ there
    obtain ⟨i, inside, node⟩ := traces.mem.1 there
    have known := traces.valid.placed.known inside
    rw [node] at known
    exact ⟨i, known, inside, by rw [node]⟩
  · intro o absent
    exact traces.valid.placed.heapIdx_eq_none.2 fun e holds => absent (o, e) (traces.mem.2 holds) rfl
  · rw [← Multiset.card_eq_zero, traces.card]
    rcases Nat.eq_zero_or_pos w.1.size with empty | some_
    · simp [Valid.nodePop_none empty, empty]
    · simp [(traces.pop some_).1, some_.ne']
  · intro p popped
    rcases Nat.eq_zero_or_pos w.1.size with empty | some_
    · simp [Valid.nodePop_none empty] at popped
    · obtain ⟨result, after⟩ := traces.pop some_
      obtain rfl := Option.some.inj (result.symm.trans popped)
      refine ⟨traces.mem.2 ⟨0, some_, rfl⟩, ?_, after.pairs⟩
      rintro ⟨o, e⟩ there
      obtain ⟨i, inside, node⟩ := traces.mem.1 there
      have least := traces.valid.ordered.first_le inside
      simp only [byExpire, node] at least
      exact least

theorem ttl_priority_queue_two : ∃ v w, step (TtlIndex.init, 0) (.push 1 30) = some v ∧ step v (.push 2 10) = some w ∧
    w.1.nodePop.2 = some (2, 10) ∧ w.1.pairs = w.2 :=
  ⟨_, _, rfl, rfl, by decide,
    (ttl_priority_queue (.tail (.tail .refl (show Fits _ (.push 1 30) from ⟨by simp, by simp⟩) rfl)
      (show Fits _ (.push 2 10) from ⟨by simp, by simp⟩) rfl)).2.2.2.1⟩

end Runs

end TtlIndex

end FreakV.Shard
