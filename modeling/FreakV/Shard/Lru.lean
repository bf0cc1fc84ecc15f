import FreakV.Lib.DoublyLinked
import Mathlib.Logic.Function.Basic

namespace FreakV.Shard

open Linked

structure Lru where
  lruPrev : Nat → Option Nat
  lruNext : Nat → Option Nat
  lruHead : Nat → Option Nat
  lruTail : Nat → Option Nat
  poolIdx : Nat → Nat

namespace Lru

def init (poolIdx : Nat → Nat) : Lru :=
  { lruPrev := fun _ => none, lruNext := fun _ => none, lruHead := fun _ => none, lruTail := fun _ => none,
    poolIdx := poolIdx }

-- The first half of lru_node_remove: what leads to the object is made to lead behind it.
def skipForth (l : Lru) (o : Nat) : Lru :=
  match l.lruPrev o with
  | some before => { l with lruNext := Function.update l.lruNext before (l.lruNext o) }
  | none =>
    if l.lruHead (l.poolIdx o) = some o then
      { l with lruHead := Function.update l.lruHead (l.poolIdx o) (l.lruNext o) }
    else l

def skipBack (l : Lru) (o : Nat) : Lru :=
  match l.lruNext o with
  | some after => { l with lruPrev := Function.update l.lruPrev after (l.lruPrev o) }
  | none =>
    if l.lruTail (l.poolIdx o) = some o then
      { l with lruTail := Function.update l.lruTail (l.poolIdx o) (l.lruPrev o) }
    else l

def clearLinks (l : Lru) (o : Nat) : Lru :=
  { l with lruPrev := Function.update l.lruPrev o none, lruNext := Function.update l.lruNext o none }

def nodeRemove (l : Lru) (o : Nat) : Lru := ((l.skipForth o).skipBack o).clearLinks o

-- The part of lru_node_prepend behind the call of lru_node_remove.
def linkFirst (l : Lru) (o : Nat) : Lru :=
  let p := l.poolIdx o
  let head := l.lruHead p
  let l := { l with lruPrev := Function.update l.lruPrev o none, lruNext := Function.update l.lruNext o head }
  let l := match head with
    | some first => { l with lruPrev := Function.update l.lruPrev first (some o) }
    | none => { l with lruTail := Function.update l.lruTail p (some o) }
  { l with lruHead := Function.update l.lruHead p (some o) }

def nodePrepend (l : Lru) (o : Nat) : Lru := (l.nodeRemove o).linkFirst o

def nodeTouch (l : Lru) (o : Nat) : Lru := l.nodePrepend o

structure Threads (l : Lru) (lists : Nat → List Nat) : Prop where
  linked : ∀ p, Doubly l.lruNext l.lruPrev (l.lruHead p) (l.lruTail p) (lists p)
  pooled : ∀ p, ∀ o ∈ lists p, l.poolIdx o = p

variable {l : Lru} {lists : Nat → List Nat} {o p : Nat}

section Fields

variable (l : Lru) (o : Nat)

theorem skipForth_lruNext (b : Nat) :
    (l.skipForth o).lruNext b = if l.lruPrev o = some b then l.lruNext o else l.lruNext b := by
  unfold skipForth
  cases l.lruPrev o with
  | some before => simp only [Function.update_apply, Option.some.injEq, eq_comm]
  | none =>
    simp only [reduceCtorEq, if_false]
    split <;> rfl

theorem skipForth_lruHead (q : Nat) : (l.skipForth o).lruHead q =
    if q = l.poolIdx o ∧ l.lruPrev o = none ∧ l.lruHead q = some o then l.lruNext o else l.lruHead q := by
  unfold skipForth
  cases l.lruPrev o with
  | some before => simp
  | none =>
    by_cases first : l.lruHead (l.poolIdx o) = some o
    · by_cases same : q = l.poolIdx o
      · simp [same, first]
      · simp [first, same]
    · by_cases same : q = l.poolIdx o
      · simp [same, first]
      · simp [first, same]

theorem skipForth_rest : (l.skipForth o).lruPrev = l.lruPrev ∧ (l.skipForth o).lruTail = l.lruTail ∧
    (l.skipForth o).poolIdx = l.poolIdx := by
  unfold skipForth
  split
  · exact ⟨rfl, rfl, rfl⟩
  · split <;> exact ⟨rfl, rfl, rfl⟩

def mirror : Lru :=
  { lruPrev := l.lruNext, lruNext := l.lruPrev, lruHead := l.lruTail, lruTail := l.lruHead, poolIdx := l.poolIdx }

theorem skipBack_eq_mirror : l.skipBack o = (l.mirror.skipForth o).mirror := by
  unfold skipBack skipForth
  cases next : l.lruNext o with
  | some after => simp only [mirror, next]
  | none =>
    by_cases last : l.lruTail (l.poolIdx o) = some o
    · simp only [mirror, next, last, if_true]
    · simp only [mirror, next, last, if_false]

theorem nodeRemove_poolIdx : (l.nodeRemove o).poolIdx = l.poolIdx := by
  change ((l.skipForth o).skipBack o).poolIdx = _
  rw [skipBack_eq_mirror]
  exact ((skipForth_rest _ o).2.2).trans (skipForth_rest l o).2.2

theorem nodeRemove_lruNext (b : Nat) : (l.nodeRemove o).lruNext b =
    if b = o then none else if l.lruPrev o = some b then l.lruNext o else l.lruNext b := by
  have kept : ((l.skipForth o).skipBack o).lruNext = (l.skipForth o).lruNext := by
    rw [skipBack_eq_mirror]
    exact (skipForth_rest _ o).1
  simp only [nodeRemove, clearLinks, Function.update_apply, kept, skipForth_lruNext]

theorem nodeRemove_lruPrev (c : Nat) : (l.nodeRemove o).lruPrev c =
    if c = o then none else if l.lruNext o = some c then l.lruPrev o else l.lruPrev c := by
  have changed : ((l.skipForth o).skipBack o).lruPrev c =
      if l.lruNext o = some c then l.lruPrev o else l.lruPrev c := by
    rw [skipBack_eq_mirror]
    refine (skipForth_lruNext (l.skipForth o).mirror o c).trans ?_
    simp only [mirror, skipForth_lruNext, ite_self, (skipForth_rest l o).1]
  simp only [nodeRemove, clearLinks, Function.update_apply, changed]

theorem nodeRemove_lruHead (q : Nat) : (l.nodeRemove o).lruHead q =
    if q = l.poolIdx o ∧ l.lruPrev o = none ∧ l.lruHead q = some o then l.lruNext o else l.lruHead q := by
  have kept : ((l.skipForth o).skipBack o).lruHead = (l.skipForth o).lruHead := by
    rw [skipBack_eq_mirror]
    exact (skipForth_rest _ o).2.1
  simp only [nodeRemove, clearLinks, kept, skipForth_lruHead]

theorem nodeRemove_lruTail (q : Nat) : (l.nodeRemove o).lruTail q =
    if q = l.poolIdx o ∧ l.lruNext o = none ∧ l.lruTail q = some o then l.lruPrev o else l.lruTail q := by
  change ((l.skipForth o).skipBack o).lruTail q = _
  rw [skipBack_eq_mirror]
  refine (skipForth_lruHead (l.skipForth o).mirror o q).trans ?_
  simp only [mirror, skipForth_lruNext, ite_self, skipForth_rest]

theorem linkFirst_poolIdx : (l.linkFirst o).poolIdx = l.poolIdx := by
  unfold linkFirst
  dsimp only
  split <;> rfl

theorem linkFirst_lruNext (b : Nat) :
    (l.linkFirst o).lruNext b = if b = o then l.lruHead (l.poolIdx o) else l.lruNext b := by
  unfold linkFirst
  dsimp only
  split <;> simp only [Function.update_apply]

theorem linkFirst_lruPrev (b : Nat) : (l.linkFirst o).lruPrev b =
    if l.lruHead (l.poolIdx o) = some b then some o else if b = o then none else l.lruPrev b := by
  cases head : l.lruHead (l.poolIdx o) with
  | none => simp [linkFirst, head, Function.update_apply]
  | some first => simp [linkFirst, head, Function.update_apply, eq_comm (a := first)]

theorem linkFirst_lruHead (p : Nat) :
    (l.linkFirst o).lruHead p = if p = l.poolIdx o then some o else l.lruHead p := by
  unfold linkFirst
  dsimp only
  split <;> simp only [Function.update_apply]

theorem linkFirst_lruTail (p : Nat) : (l.linkFirst o).lruTail p =
    if p = l.poolIdx o ∧ l.lruHead (l.poolIdx o) = none then some o else l.lruTail p := by
  cases head : l.lruHead (l.poolIdx o) with
  | none => simp [linkFirst, head, Function.update_apply]
  | some first => simp [linkFirst, head]

end Fields

theorem Threads.notMem (threads : l.Threads lists) (other : l.poolIdx o ≠ p) : o ∉ lists p :=
  fun there => other (threads.pooled p o there)

theorem Threads.nodeRemove_other (threads : l.Threads lists) (inside : o ∈ lists (l.poolIdx o)) (other : p ≠ l.poolIdx o) :
    Doubly (l.nodeRemove o).lruNext (l.nodeRemove o).lruPrev ((l.nodeRemove o).lruHead p) ((l.nodeRemove o).lruTail p)
      (lists p) := by
  obtain ⟨front, behind, split⟩ := List.append_of_mem inside
  have list := threads.linked (l.poolIdx o)
  rw [split] at list
  have apart {b : Nat} (there : b ∈ lists p) : b ∉ front ++ o :: behind := by
    rw [← split]
    exact threads.notMem fun same => other ((threads.pooled p b there).symm.trans same)
  rw [nodeRemove_lruHead, nodeRemove_lruTail, if_neg fun both => other both.1, if_neg fun both => other both.1]
  refine (threads.linked p).congr (fun b there => ?_) fun c there => ?_
  · have away := apart there
    rw [nodeRemove_lruNext, if_neg (fun same => away (by simp [same])), if_neg]
    rw [list.prev_eq]
    exact fun last => away (List.mem_append_left _ (List.mem_of_getLast? last))
  · have away := apart there
    rw [nodeRemove_lruPrev, if_neg (fun same => away (by simp [same])), if_neg]
    rw [list.next_eq]
    exact fun first => away (by simp [List.mem_of_head? first])

theorem Threads.nodeRemove_own (threads : l.Threads lists) (inside : o ∈ lists (l.poolIdx o)) :
    Doubly (l.nodeRemove o).lruNext (l.nodeRemove o).lruPrev ((l.nodeRemove o).lruHead (l.poolIdx o))
      ((l.nodeRemove o).lruTail (l.poolIdx o)) ((lists (l.poolIdx o)).erase o) := by
  obtain ⟨front, behind, split⟩ := List.append_of_mem inside
  have list := threads.linked (l.poolIdx o)
  rw [split] at list
  have notFront : o ∉ front := fun there => (List.nodup_append.1 list.nodup).2.2 o there o List.mem_cons_self rfl
  have notBehind : o ∉ behind := (List.nodup_cons.1 (List.nodup_append.1 list.nodup).2.1).1
  have apart {b : Nat} (there : b ∈ front ++ behind) : b ≠ o := by
    rintro rfl
    exact (List.mem_append.1 there).elim notFront notBehind
  rw [split, List.erase_append_right _ notFront, List.erase_cons_head]
  refine list.remove ?_ ?_ (fun b before => ?_) (fun c after => ?_) (fun b there away => ?_) fun c there away => ?_
  · rw [nodeRemove_lruHead, list.prev_eq, list.head_eq]
    cases front with
    | nil => simp
    | cons first rest => simp
  · rw [nodeRemove_lruTail, list.next_eq, list.tail_eq]
    rcases behind with - | ⟨first, rest⟩
    · simp
    · simp
  · have there : b ∈ front := List.mem_of_getLast? (list.prev_eq.symm.trans before)
    rw [nodeRemove_lruNext, if_neg (apart (List.mem_append_left _ there)), if_pos before]
  · have there : c ∈ behind := List.mem_of_head? (list.next_eq.symm.trans after)
    rw [nodeRemove_lruPrev, if_neg (apart (List.mem_append_right _ there)), if_pos after]
  · rw [nodeRemove_lruNext, if_neg (apart there), if_neg away]
  · rw [nodeRemove_lruPrev, if_neg (apart there), if_neg away]

theorem Threads.nodeRemove (threads : l.Threads lists) (inside : o ∈ lists (l.poolIdx o)) :
    (l.nodeRemove o).Threads (Function.update lists (l.poolIdx o) ((lists (l.poolIdx o)).erase o)) := by
  refine ⟨fun p => ?_, fun p b there => ?_⟩
  · rcases eq_or_ne p (l.poolIdx o) with rfl | other
    · rw [Function.update_self]
      exact threads.nodeRemove_own inside
    · rw [Function.update_of_ne other]
      exact threads.nodeRemove_other inside other
  · rw [nodeRemove_poolIdx]
    rcases eq_or_ne p (l.poolIdx o) with rfl | other
    · rw [Function.update_self] at there
      exact threads.pooled _ b (List.mem_of_mem_erase there)
    · rw [Function.update_of_ne other] at there
      exact threads.pooled p b there

theorem Threads.linkFirst (threads : l.Threads lists) (outside : o ∉ lists (l.poolIdx o)) :
    (l.linkFirst o).Threads (Function.update lists (l.poolIdx o) (o :: lists (l.poolIdx o))) := by
  have absent (p : Nat) : o ∉ lists p := by
    intro there
    exact outside (threads.pooled p o there ▸ there)
  have own := threads.linked (l.poolIdx o)
  have headIn {b : Nat} (first : l.lruHead (l.poolIdx o) = some b) : b ∈ lists (l.poolIdx o) :=
    List.mem_of_head? (own.head_eq.symm.trans first)
  refine ⟨fun p => ?_, fun p b there => ?_⟩
  · rcases eq_or_ne p (l.poolIdx o) with rfl | other
    · rw [Function.update_self]
      refine own.push (absent _) ?_ ?_ ?_ ?_ ?_ (fun b there => ?_) fun b there away => ?_
      · rw [linkFirst_lruPrev, if_neg fun first => absent _ (headIn first), if_pos rfl]
      · rw [linkFirst_lruNext, if_pos rfl]
      · rw [linkFirst_lruHead, if_pos rfl]
      · simp [linkFirst_lruTail, own.head_eq]
      · exact fun b first => by rw [linkFirst_lruPrev, if_pos first]
      · rw [linkFirst_lruNext, if_neg (ne_of_mem_of_not_mem there (absent _))]
      · rw [linkFirst_lruPrev, if_neg away, if_neg (ne_of_mem_of_not_mem there (absent _))]
    · rw [Function.update_of_ne other, linkFirst_lruHead, linkFirst_lruTail, if_neg other, if_neg fun both => other both.1]
      refine (threads.linked p).congr (fun b there => ?_) fun b there => ?_
      · rw [linkFirst_lruNext, if_neg (ne_of_mem_of_not_mem there (absent _))]
      · have away : l.lruHead (l.poolIdx o) ≠ some b := fun first =>
          other ((threads.pooled p b there).symm.trans (threads.pooled _ b (headIn first)))
        rw [linkFirst_lruPrev, if_neg away, if_neg (ne_of_mem_of_not_mem there (absent _))]
  · rw [linkFirst_poolIdx]
    rcases eq_or_ne p (l.poolIdx o) with rfl | other
    · rw [Function.update_self] at there
      rcases List.mem_cons.1 there with rfl | before
      · rfl
      · exact threads.pooled _ b before
    · rw [Function.update_of_ne other] at there
      exact threads.pooled p b there

def Keeps (l : Lru) (members : Nat → Prop) : Prop :=
  ∃ lists, l.Threads lists ∧ ∀ o, o ∈ lists (l.poolIdx o) ↔ members o

section Keeps

variable {members : Nat → Prop}

theorem Keeps.congr {others : Nat → Prop} (keeps : l.Keeps members) (same : ∀ o, members o ↔ others o) :
    l.Keeps others := by
  obtain ⟨lists, threads, exact⟩ := keeps
  exact ⟨lists, threads, fun o => (exact o).trans (same o)⟩

theorem Keeps.init (poolIdx : Nat → Nat) : (init poolIdx).Keeps fun _ => False :=
  ⟨fun _ => [], ⟨fun _ => .nil _ _, by simp⟩, by simp⟩

theorem Keeps.of_tail (keeps : l.Keeps members) (last : l.lruTail p = some o) : members o := by
  obtain ⟨lists, threads, listed⟩ := keeps
  have there : o ∈ lists p := List.mem_of_getLast? ((threads.linked p).tail_eq.symm.trans last)
  exact (listed o).1 (threads.pooled p o there ▸ there)

theorem Keeps.nodeRemove (keeps : l.Keeps members) (inside : members o) :
    (l.nodeRemove o).Keeps fun b => b ≠ o ∧ members b := by
  obtain ⟨lists, threads, listed⟩ := keeps
  refine ⟨_, threads.nodeRemove ((listed o).2 inside), fun b => ?_⟩
  rw [nodeRemove_poolIdx]
  beta_reduce
  rw [← listed]
  by_cases same : l.poolIdx b = l.poolIdx o
  · rw [same, Function.update_self, (threads.linked _).nodup.mem_erase_iff]
  · rw [Function.update_of_ne same]
    exact ⟨fun there => ⟨fun equal => same (congrArg l.poolIdx equal), there⟩, And.right⟩

theorem Keeps.linkFirst (keeps : l.Keeps members) (outside : ¬members o) :
    (l.linkFirst o).Keeps fun b => b = o ∨ members b := by
  obtain ⟨lists, threads, listed⟩ := keeps
  refine ⟨_, threads.linkFirst fun there => outside ((listed o).1 there), fun b => ?_⟩
  rw [linkFirst_poolIdx]
  beta_reduce
  rw [← listed]
  by_cases same : l.poolIdx b = l.poolIdx o
  · rw [same, Function.update_self, List.mem_cons]
  · rw [Function.update_of_ne same]
    refine ⟨.inr, ?_⟩
    rintro (rfl | there)
    · exact absurd rfl same
    · exact there

theorem Keeps.nodePrepend (keeps : l.Keeps members) (inside : members o) : (l.nodePrepend o).Keeps members := by
  refine ((keeps.nodeRemove inside).linkFirst fun both => both.1 rfl).congr fun b => ?_
  by_cases same : b = o
  · simp [same, inside]
  · simp [same]

def enrol (l : Lru) (o pool : Nat) : Lru :=
  { l with
    poolIdx := Function.update l.poolIdx o pool
    lruPrev := Function.update l.lruPrev o none
    lruNext := Function.update l.lruNext o none }

theorem Keeps.enrol (keeps : l.Keeps members) (outside : ¬members o) (pool : Nat) : (l.enrol o pool).Keeps members := by
  obtain ⟨lists, threads, listed⟩ := keeps
  have apart (p : Nat) {b : Nat} (there : b ∈ lists p) : b ≠ o := by
    rintro rfl
    exact outside ((listed b).1 (threads.pooled p b there ▸ there))
  refine ⟨lists, ⟨fun p => (threads.linked p).congr (fun b there => ?_) fun b there => ?_, fun p b there => ?_⟩, fun b => ?_⟩
  · exact Function.update_of_ne (apart p there) _ _
  · exact Function.update_of_ne (apart p there) _ _
  · exact (Function.update_of_ne (apart p there) _ _).trans (threads.pooled p b there)
  · by_cases same : b = o
    · subst same
      exact ⟨fun there => absurd rfl (apart _ there), fun there => absurd there outside⟩
    · rw [← listed, show (l.enrol o pool).poolIdx b = l.poolIdx b from Function.update_of_ne same _ _]

-- For a new object lru_node_remove has nothing to do.
theorem Keeps.nodeRemove_enrol (keeps : l.Keeps members) (outside : ¬members o) (pool : Nat) :
    (l.enrol o pool).nodeRemove o = l.enrol o pool := by
  obtain ⟨lists, threads, listed⟩ := keeps.enrol outside pool
  have prev : (l.enrol o pool).lruPrev o = none := Function.update_self ..
  have next : (l.enrol o pool).lruNext o = none := Function.update_self ..
  generalize l.enrol o pool = l at *
  have absent (p : Nat) : o ∉ lists p := fun there => outside ((listed o).1 (threads.pooled p o there ▸ there))
  have head (p : Nat) : l.lruHead p ≠ some o := fun first =>
    absent p (List.mem_of_head? ((threads.linked p).head_eq.symm.trans first))
  have tail (p : Nat) : l.lruTail p ≠ some o := fun last =>
    absent p (List.mem_of_getLast? ((threads.linked p).tail_eq.symm.trans last))
  have forth : l.skipForth o = l := by simp [skipForth, prev, head]
  have back : l.skipBack o = l := by simp [skipBack, next, tail]
  rw [Lru.nodeRemove, forth, back, clearLinks, ← prev, Function.update_eq_self, prev, ← next, Function.update_eq_self]

theorem Keeps.nodePrepend_enrol (keeps : l.Keeps members) (outside : ¬members o) (pool : Nat) :
    ((l.enrol o pool).nodePrepend o).Keeps fun b => b = o ∨ members b := by
  rw [Lru.nodePrepend, keeps.nodeRemove_enrol outside pool]
  exact (keeps.enrol outside pool).linkFirst outside

end Keeps

end Lru

end FreakV.Shard
