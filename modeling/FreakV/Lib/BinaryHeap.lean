import Mathlib.Order.Lattice

namespace BinaryHeap

/-- An array seen through the keys at its places. What else a swap does is left to the array. -/
structure Keyed (S K : Type) where
  key : S → Nat → K
  swap : S → Nat → Nat → S
  key_swap : ∀ (s : S) (a b i : Nat),
    key (swap s a b) i = if i = a then key s b else if i = b then key s a else key s i

def parent (i : Nat) : Nat := (i - 1) / 2

variable {S K : Type} [LinearOrder K] (h : Keyed S K)

def siftUp : Nat → S → Nat → S
  | 0, s, _ => s
  | rounds + 1, s, i =>
    if i = 0 ∨ h.key s (parent i) ≤ h.key s i then s else siftUp rounds (h.swap s (parent i) i) (parent i)

def smallest (size : Nat) (s : S) (i : Nat) : Nat :=
  let left := if 2 * i + 1 < size ∧ h.key s (2 * i + 1) < h.key s i then 2 * i + 1 else i
  if 2 * i + 2 < size ∧ h.key s (2 * i + 2) < h.key s left then 2 * i + 2 else left

def siftDown (size : Nat) : Nat → S → Nat → S
  | 0, s, _ => s
  | rounds + 1, s, i =>
    let least := smallest h size s i
    if least = i then s else siftDown size rounds (h.swap s i least) least

def fix (size : Nat) (s : S) (i : Nat) : S :=
  if 0 < i ∧ h.key s i < h.key s (parent i) then siftUp h i s i else siftDown h size size s i

def Ordered (size : Nat) (s : S) : Prop := ∀ j, 0 < j → j < size → h.key s (parent j) ≤ h.key s j

def Bridged (size : Nat) (s : S) (i : Nat) : Prop :=
  0 < i → ∀ j, 0 < j → j < size → parent j = i → h.key s (parent i) ≤ h.key s j

structure UpTo (size : Nat) (s : S) (i : Nat) : Prop where
  rest : ∀ j, 0 < j → j < size → j ≠ i → h.key s (parent j) ≤ h.key s j
  bridged : Bridged h size s i

structure DownFrom (size : Nat) (s : S) (i : Nat) : Prop where
  rest : ∀ j, 0 < j → j < size → parent j ≠ i → h.key s (parent j) ≤ h.key s j
  bridged : Bridged h size s i

structure Around (size : Nat) (s : S) (i : Nat) : Prop where
  rest : ∀ j, 0 < j → j < size → j ≠ i → parent j ≠ i → h.key s (parent j) ≤ h.key s j
  bridged : Bridged h size s i

variable {h} {size rounds i : Nat} {s s' : S}

theorem parent_lt {j : Nat} (positive : 0 < j) : parent j < j := by
  unfold parent
  omega

theorem child_cases {j : Nat} (positive : 0 < j) (child : parent j = i) : j = 2 * i + 1 ∨ j = 2 * i + 2 := by
  unfold parent at child
  omega

section Order

theorem UpTo.swap (up : UpTo h size s i) (positive : 0 < i) (inside : i < size)
    (less : h.key s i < h.key s (parent i)) : UpTo h size (h.swap s (parent i) i) (parent i) := by
  have above := parent_lt positive
  have upper : 0 < parent i → h.key s (parent (parent i)) ≤ h.key s (parent i) :=
    fun more => up.rest (parent i) more (by omega) (by omega)
  constructor
  · intro j more within other
    have higher := parent_lt more
    simp only [h.key_swap]
    by_cases here : j = i
    · subst here
      simp [above.ne', less.le]
    · by_cases child : parent j = i
      · simp only [child, other, here, if_true, if_false, above.ne']
        exact up.bridged positive j more within child
      · by_cases sibling : parent j = parent i
        · simp only [sibling, other, here, if_true, if_false]
          have kept := up.rest j more within here
          rw [sibling] at kept
          exact less.le.trans kept
        · simp only [child, sibling, other, here, if_false]
          exact up.rest j more within here
  · intro more j positive' within child
    have highest := parent_lt more
    simp only [h.key_swap, highest.ne, show parent (parent i) ≠ i by omega, if_false]
    by_cases here : j = i
    · subst here
      simp only [above.ne', if_true, if_false]
      exact upper more
    · have lower := parent_lt positive'
      simp only [here, show j ≠ parent i by omega, if_false]
      have kept := up.rest j positive' within here
      rw [child] at kept
      exact (upper more).trans kept

theorem UpTo.ordered (up : UpTo h size s i) (stop : i = 0 ∨ h.key s (parent i) ≤ h.key s i) : Ordered h size s := by
  intro j positive within
  by_cases here : j = i
  · subst here
    exact stop.resolve_left (by omega)
  · exact up.rest j positive within here

theorem UpTo.siftUp (up : UpTo h size s i) (inside : i < size) (enough : i ≤ rounds) :
    Ordered h size (siftUp h rounds s i) := by
  induction rounds generalizing s i with
  | zero => exact up.ordered (.inl (by omega))
  | succ rounds ih =>
    rw [BinaryHeap.siftUp]
    split
    next stop => exact up.ordered stop
    next go =>
      rw [not_or, not_le] at go
      have above := parent_lt (Nat.pos_of_ne_zero go.1)
      exact ih (up.swap (Nat.pos_of_ne_zero go.1) inside go.2) (by omega) (by omega)

theorem smallest_cases (size : Nat) (s : S) (i : Nat) :
    smallest h size s i = i ∨
      smallest h size s i < size ∧ i < smallest h size s i ∧ parent (smallest h size s i) = i ∧
        h.key s (smallest h size s i) < h.key s i := by
  unfold smallest
  dsimp only
  split
  next left =>
    split
    next right => exact .inr ⟨right.1, by omega, by unfold parent; omega, right.2.trans left.2⟩
    · exact .inr ⟨left.1, by omega, by unfold parent; omega, left.2⟩
  · split
    next right => exact .inr ⟨right.1, by omega, by unfold parent; omega, right.2⟩
    · exact .inl rfl

theorem smallest_le (s : S) {j : Nat} (positive : 0 < j) (within : j < size) (child : parent j = i) :
    h.key s (smallest h size s i) ≤ h.key s j := by
  unfold smallest
  dsimp only
  rcases child_cases positive child with rfl | rfl
  · split
    · split
      next right => exact right.2.le
      · exact le_refl _
    next stays =>
      rw [not_and, not_lt] at stays
      split
      next right => exact right.2.le.trans (stays within)
      · exact stays within
  · generalize (if 2 * i + 1 < size ∧ h.key s (2 * i + 1) < h.key s i then 2 * i + 1 else i) = left
    split
    · exact le_refl _
    next stays =>
      rw [not_and, not_lt] at stays
      exact stays within

theorem DownFrom.swap (down : DownFrom h size s i) (moves : smallest h size s i ≠ i) :
    DownFrom h size (h.swap s i (smallest h size s i)) (smallest h size s i) := by
  obtain ⟨inside, below, child, less⟩ := (smallest_cases size s i).resolve_left moves
  have least {j : Nat} (positive : 0 < j) (within : j < size) (same : parent j = i) :
      h.key s (smallest h size s i) ≤ h.key s j := smallest_le s positive within same
  generalize smallest h size s i = c at inside below child less least moves
  constructor
  · intro j positive within other
    have higher := parent_lt positive
    simp only [h.key_swap]
    by_cases here : j = i
    · subst here
      simp only [if_true, higher.ne, other, if_false]
      have kept := down.bridged positive c (by omega) inside child
      exact kept
    · by_cases sibling : parent j = i
      · simp only [sibling, here, if_true, if_false]
        split
        · exact less.le
        · exact least positive within sibling
      · have different : j ≠ c := fun same => sibling (same ▸ child)
        simp only [sibling, other, here, different, if_false]
        exact down.rest j positive within sibling
  · intro more j positive within grandchild
    have lower := parent_lt positive
    simp only [child, h.key_swap, show j ≠ i by omega, show j ≠ c by omega, if_true, if_false]
    have kept := down.rest j positive within (by omega)
    rwa [grandchild] at kept

theorem DownFrom.ordered (down : DownFrom h size s i) (stop : smallest h size s i = i) : Ordered h size s := by
  intro j positive within
  by_cases child : parent j = i
  · have least := smallest_le (h := h) s positive within child
    rwa [stop, ← child] at least
  · exact down.rest j positive within child

theorem DownFrom.siftDown (down : DownFrom h size s i) (enough : size ≤ i + rounds) :
    Ordered h size (siftDown h size rounds s i) := by
  induction rounds generalizing s i with
  | zero =>
    refine down.ordered ((smallest_cases size s i).resolve_right fun below => ?_)
    have := below.1
    have := below.2.1
    omega
  | succ rounds ih =>
    rw [BinaryHeap.siftDown]
    split
    next stop => exact down.ordered stop
    next moves =>
      have below := ((smallest_cases size s i).resolve_left moves).2.1
      exact ih (down.swap moves) (by omega)

theorem Around.fix (around : Around h size s i) (inside : i < size) : Ordered h size (fix h size s i) := by
  unfold BinaryHeap.fix
  split
  next rises =>
    refine UpTo.siftUp ⟨fun j positive within other => ?_, around.bridged⟩ inside (Nat.le_refl _)
    by_cases child : parent j = i
    · rw [child]
      exact rises.2.le.trans (around.bridged rises.1 j positive within child)
    · exact around.rest j positive within other child
  next stays =>
    refine DownFrom.siftDown ⟨fun j positive within other => ?_, around.bridged⟩ (by omega)
    by_cases here : j = i
    · subst here
      rw [not_and, not_lt] at stays
      exact stays positive
    · exact around.rest j positive within here other

theorem Ordered.around (ordered : Ordered h size s) (same : ∀ j, j ≠ i → h.key s' j = h.key s j) :
    Around h size s' i := by
  constructor
  · intro j positive within other child
    rw [same j other, same (parent j) child]
    exact ordered j positive within
  · intro more j positive within child
    have lower := parent_lt positive
    have higher := parent_lt more
    have first := ordered i more (by omega)
    have second := ordered j positive within
    rw [child] at second
    rw [same j (by omega), same (parent i) (by omega)]
    exact first.trans second

theorem Ordered.first_le (ordered : Ordered h size s) {j : Nat} (within : j < size) : h.key s 0 ≤ h.key s j := by
  induction j using Nat.strongRecOn with
  | _ j ih =>
    rcases Nat.eq_zero_or_pos j with rfl | positive
    · exact le_refl _
    · have above := parent_lt positive
      exact (ih (parent j) above (by omega)).trans (ordered j positive within)

end Order

section Invariant

variable {P : S → Prop}

theorem siftUp_keeps (swaps : ∀ s a b, a < size → b < size → P s → P (h.swap s a b)) (inside : i < size) (start : P s) :
    P (siftUp h rounds s i) := by
  induction rounds generalizing s i with
  | zero => exact start
  | succ rounds ih =>
    rw [siftUp]
    split
    · exact start
    next go =>
      rw [not_or] at go
      have above := parent_lt (Nat.pos_of_ne_zero go.1)
      exact ih (by omega) (swaps s (parent i) i (by omega) inside start)

theorem siftDown_keeps (swaps : ∀ s a b, a < size → b < size → P s → P (h.swap s a b)) (inside : i < size) (start : P s) :
    P (siftDown h size rounds s i) := by
  induction rounds generalizing s i with
  | zero => exact start
  | succ rounds ih =>
    rw [siftDown]
    split
    · exact start
    next moves =>
      have below := ((smallest_cases size s i).resolve_left moves).1
      exact ih below (swaps s i _ inside below start)

theorem fix_keeps (swaps : ∀ s a b, a < size → b < size → P s → P (h.swap s a b)) (inside : i < size) (start : P s) :
    P (fix h size s i) := by
  unfold fix
  split
  · exact siftUp_keeps swaps inside start
  · exact siftDown_keeps swaps inside start

end Invariant

end BinaryHeap
