import FreakV.Lib.Probing
import FreakV.Lib.Transition
import Mathlib.Data.Nat.Bitwise

namespace FreakV.LockTable

open Probing Transition

def capacity : Nat := 65536

def groupSize : Nat := 16

def numGroups : Nat := 4096

def maxOccupancy : Nat := capacity * 3 / 4

def ctrlEmpty : Nat := 0xFF

def ctrlDeleted : Nat := 0x80

structure LockEntry where
  objPtr : Nat
  hash56 : Nat
  holder : Nat

structure LockManager where
  entries : Nat → LockEntry
  ctrl : Nat → Nat
  count : Nat
  deletedCount : Nat

def lockManagerInit : LockManager :=
  { entries := fun _ => ⟨0, 0, 0⟩, ctrl := fun _ => ctrlEmpty, count := 0, deletedCount := 0 }

def lmH2 (hash56 : Nat) : Nat := hash56 &&& 0x7F

def lmGroup (hash56 : Nat) : Nat := (hash56 >>> 7) &&& (numGroups - 1)

inductive Search
  | present (slot : Nat)
  | vacant (slot : Option Nat)

namespace LockManager

variable (lm : LockManager)

def matchByte (group byte : Nat) : List Nat :=
  ((List.range groupSize).map (group * groupSize + ·)).filter (lm.ctrl · = byte)

def hit (objPtr hash56 group : Nat) : Option Nat :=
  (lm.matchByte group (lmH2 hash56)).find? fun slot => (lm.entries slot).objPtr = objPtr

def visit (objPtr hash56 group : Nat) : Option (Option Nat) :=
  match lm.hit objPtr hash56 group with
  | some slot => some (some slot)
  | none => if lm.matchByte group ctrlEmpty = [] then none else some none

def lmFindSlot (objPtr hash56 : Nat) : Option Nat :=
  (probe numGroups (lm.visit objPtr hash56) numGroups (lmGroup hash56)).join

def lmResetCtrlIfEmpty : LockManager :=
  if lm.count ≠ 0 then lm else { lm with ctrl := fun _ => ctrlEmpty, deletedCount := 0 }

def lmInsertAt (slot objPtr hash56 holder : Nat) (alloc : Bool) : LockManager × Option Nat :=
  if alloc then
    ({ entries := Function.update lm.entries slot ⟨objPtr, hash56, holder⟩
       ctrl := Function.update lm.ctrl slot (lmH2 hash56)
       count := lm.count + 1
       deletedCount := if lm.ctrl slot = ctrlDeleted then lm.deletedCount - 1 else lm.deletedCount }, some slot)
  else ({ lm with entries := Function.update lm.entries slot ⟨0, 0, 0⟩ }, none)

def lockManagerLookup (objPtr hash56 : Nat) : Option Nat :=
  if objPtr = 0 then none else lm.lmFindSlot objPtr hash56

def insertLoop (objPtr hash56 : Nat) : Nat → Nat → Option Nat → Search
  | 0, _, firstDeleted => .vacant firstDeleted
  | fuel + 1, group, firstDeleted =>
    match lm.hit objPtr hash56 group with
    | some slot => .present slot
    | none =>
      let firstDeleted := firstDeleted <|> (lm.matchByte group ctrlDeleted).head?
      match lm.matchByte group ctrlEmpty with
      | empty :: _ => .vacant (some (firstDeleted.getD empty))
      | [] => insertLoop objPtr hash56 fuel ((group + 1) % numGroups) firstDeleted

/-- An entry stands for its address: the index of its slot. -/
def lockManagerInsert (objPtr hash56 holder : Nat) (alloc : Bool) : LockManager × Option Nat :=
  if maxOccupancy ≤ lm.count then (lm, none)
  else
    match lm.insertLoop objPtr hash56 numGroups (lmGroup hash56) none with
    | .present slot => (lm, some slot)
    | .vacant (some slot) => lm.lmInsertAt slot objPtr hash56 holder alloc
    | .vacant none => (lm, none)

def lockManagerUpdatePtr (oldPtr newPtr hash56 : Nat) : LockManager :=
  match lm.lockManagerLookup oldPtr hash56 with
  | some slot => { lm with entries := Function.update lm.entries slot { lm.entries slot with objPtr := newPtr } }
  | none => lm

def lockManagerRemove (objPtr hash56 : Nat) : LockManager :=
  match lm.lmFindSlot objPtr hash56 with
  | none => lm
  | some found =>
    lmResetCtrlIfEmpty
      { entries := Function.update lm.entries found ⟨0, 0, 0⟩
        ctrl := Function.update lm.ctrl found ctrlDeleted
        count := lm.count - 1
        deletedCount := lm.deletedCount + 1 }

end LockManager

section Groups

variable {lm : LockManager} {slot group byte : Nat}

theorem mem_matchByte : slot ∈ lm.matchByte group byte ↔ slot / groupSize = group ∧ lm.ctrl slot = byte := by
  simp only [LockManager.matchByte, List.mem_filter, List.mem_map, List.mem_range, decide_eq_true_eq, groupSize]
  refine and_congr_left fun _ => ⟨?_, fun same => ⟨slot % 16, by omega, by omega⟩⟩
  rintro ⟨i, small, rfl⟩
  omega

theorem matchByte_eq_nil : lm.matchByte group byte = [] ↔ ∀ slot, slot / groupSize = group → lm.ctrl slot ≠ byte := by
  simp [List.eq_nil_iff_forall_not_mem, mem_matchByte]

theorem lmH2_lt (hash56 : Nat) : lmH2 hash56 < 128 := Nat.lt_of_le_of_lt Nat.and_le_right (by decide)

theorem lmGroup_lt (hash56 : Nat) : lmGroup hash56 < numGroups := Nat.lt_of_le_of_lt Nat.and_le_right (by decide)

end Groups

abbrev Locks := Nat → Option (Nat × Nat)

def LockManager.full (lm : LockManager) : Finset Nat := (Finset.range capacity).filter fun slot => lm.ctrl slot < 128

def LockManager.Open (lm : LockManager) (group : Nat) : Prop := ∃ slot, slot / groupSize = group ∧ lm.ctrl slot = ctrlEmpty

structure Sound (hash : Nat → Nat) (lm : LockManager) (locks : Locks) : Prop where
  byte : ∀ slot, lm.ctrl slot < 128 ∨ lm.ctrl slot = ctrlDeleted ∨ lm.ctrl slot = ctrlEmpty
  known : ∀ {ptr e}, locks ptr = some e → e.1 < capacity ∧ lm.ctrl e.1 = lmH2 (hash ptr) ∧
    lm.entries e.1 = ⟨ptr, hash ptr, e.2⟩ ∧ Unbroken numGroups lm.Open (lmGroup (hash ptr)) (e.1 / groupSize)
  full : ∀ slot < capacity, lm.ctrl slot < 128 → locks (lm.entries slot).objPtr = some (slot, (lm.entries slot).holder)
  count : lm.count = lm.full.card

section Table

variable {hash : Nat → Nat} {lm : LockManager} {locks : Locks} {ptr slot : Nat}

theorem sound_init : Sound hash lockManagerInit fun _ => none :=
  ⟨fun _ => .inr (.inr rfl), nofun, fun slot _ full => absurd full (by simp [lockManagerInit, ctrlEmpty]),
    by simp [LockManager.full, lockManagerInit, ctrlEmpty]⟩

variable (sound : Sound hash lm locks)

include sound

theorem Sound.full_of_known {e : Nat × Nat} (known : locks ptr = some e) : lm.ctrl e.1 < 128 :=
  (sound.known known).2.1 ▸ lmH2_lt _

theorem Sound.hit_iff {group : Nat} (inside : group < numGroups) :
    lm.hit ptr (hash ptr) group = some slot ↔ slot / groupSize = group ∧ ∃ holder, locks ptr = some (slot, holder) := by
  have found : ∀ {slot}, lm.hit ptr (hash ptr) group = some slot →
      slot / groupSize = group ∧ ∃ holder, locks ptr = some (slot, holder) := by
    intro slot found
    have here := mem_matchByte.1 (List.mem_of_find?_eq_some found)
    have same : (lm.entries slot).objPtr = ptr := by simpa using List.find?_some found
    have inside' : slot < capacity := by
      have := here.1
      simp only [groupSize, numGroups, capacity] at *
      omega
    exact ⟨here.1, _, same ▸ sound.full slot inside' (here.2 ▸ lmH2_lt _)⟩
  refine ⟨found, fun ⟨here, holder, known⟩ => ?_⟩
  obtain ⟨-, tag, entry, -⟩ := sound.known known
  cases searched : lm.hit ptr (hash ptr) group with
  | none =>
    have missed := List.find?_eq_none.1 searched slot (mem_matchByte.2 ⟨here, tag⟩)
    simp [entry] at missed
  | some slot' =>
    obtain ⟨-, holder', known'⟩ := found searched
    simp_all

theorem Sound.hit_eq_none (absent : locks ptr = none) {group : Nat} (inside : group < numGroups) :
    lm.hit ptr (hash ptr) group = none := by
  refine Option.eq_none_iff_forall_ne_some.2 fun slot found => ?_
  obtain ⟨-, holder, known⟩ := (sound.hit_iff inside).1 found
  rw [absent] at known
  cases known

theorem Sound.probe_known {e : Nat × Nat} (known : locks ptr = some e) :
    probe numGroups (lm.visit ptr (hash ptr)) numGroups (lmGroup (hash ptr)) = some (some e.1) := by
  obtain ⟨inside, -, -, chain⟩ := sound.known known
  refine probe_of_unbroken (lmGroup_lt _) chain ?_ fun group inside' other closed => ?_
  · have place : e.1 / groupSize < numGroups := by
      simp only [groupSize, numGroups, capacity] at *
      omega
    simp [LockManager.visit, (sound.hit_iff place).2 ⟨rfl, e.2, known⟩]
  · have missed : lm.hit ptr (hash ptr) group = none := by
      refine Option.eq_none_iff_forall_ne_some.2 fun slot' found => other ?_
      obtain ⟨here, holder, known'⟩ := (sound.hit_iff inside').1 found
      obtain rfl : e = (slot', holder) := Option.some.inj (known.symm.trans known')
      exact here.symm
    have none : lm.matchByte group ctrlEmpty = [] := matchByte_eq_nil.2 fun slot' here empty => closed ⟨slot', here, empty⟩
    simp [LockManager.visit, missed, none]

theorem Sound.find_eq (ptr : Nat) : lm.lmFindSlot ptr (hash ptr) = (locks ptr).map Prod.fst := by
  cases known : locks ptr with
  | some e => rw [LockManager.lmFindSlot, sound.probe_known known, Option.join_some, Option.map_some]
  | none =>
    refine Option.eq_none_iff_forall_ne_some.2 fun slot found => ?_
    obtain ⟨group, inside, visited⟩ := probe_visits (lmGroup_lt _) (Option.join_eq_some_iff.1 found)
    simp [LockManager.visit, sound.hit_eq_none known inside] at visited

omit sound in
theorem insertLoop_present {hash56 fuel group : Nat} (firstDeleted : Option Nat)
    (found : probe numGroups (lm.visit ptr hash56) fuel group = some (some slot)) :
    lm.insertLoop ptr hash56 fuel group firstDeleted = .present slot := by
  induction fuel generalizing group firstDeleted with
  | zero => cases found
  | succ fuel ih =>
    rw [LockManager.insertLoop]
    rw [probe, LockManager.visit] at found
    cases searched : lm.hit ptr hash56 group with
    | some slot' => simpa [searched] using found
    | none =>
      cases empties : lm.matchByte group ctrlEmpty with
      | cons _ _ => simp [searched, empties] at found
      | nil => exact ih _ (by simpa [searched, empties] using found)

theorem Sound.insertLoop_vacant (absent : locks ptr = none) {fuel d : Nat} (firstDeleted : Option Nat)
    (rest : d + fuel = numGroups) (before : ∀ e < d, ¬lm.Open ((lmGroup (hash ptr) + e) % numGroups))
    (taken : ∀ slot, firstDeleted = some slot → lm.ctrl slot = ctrlDeleted ∧
      ∃ e < d, slot / groupSize = (lmGroup (hash ptr) + e) % numGroups)
    (passed : firstDeleted = none → ∀ e < d, lm.matchByte ((lmGroup (hash ptr) + e) % numGroups) ctrlDeleted = []) :
    ∃ result, lm.insertLoop ptr (hash ptr) fuel ((lmGroup (hash ptr) + d) % numGroups) firstDeleted = .vacant result ∧
      (∀ slot, result = some slot → 128 ≤ lm.ctrl slot ∧
        Unbroken numGroups lm.Open (lmGroup (hash ptr)) (slot / groupSize)) ∧
      (result = none → ∀ group < numGroups, ¬lm.Open group ∧ lm.matchByte group ctrlDeleted = []) := by
  induction fuel generalizing d firstDeleted with
  | zero =>
    refine ⟨firstDeleted, rfl, fun slot known => ?_, fun none group inside => ?_⟩
    · obtain ⟨deleted, e, near, place⟩ := taken slot known
      exact ⟨by simp [deleted, ctrlDeleted], e, by omega, place, fun e' _ => before e' (by omega)⟩
    · obtain ⟨e, near, rfl⟩ := exists_distance (lmGroup_lt (hash ptr)) inside
      exact ⟨before e (by omega), passed none e (by omega)⟩
  | succ fuel ih =>
    have inside : (lmGroup (hash ptr) + d) % numGroups < numGroups := Nat.mod_lt _ (by decide)
    rw [LockManager.insertLoop, sound.hit_eq_none absent inside]
    generalize first : (firstDeleted <|> (lm.matchByte ((lmGroup (hash ptr) + d) % numGroups) ctrlDeleted).head?) = firstDeleted'
    have taken' : ∀ slot, firstDeleted' = some slot → lm.ctrl slot = ctrlDeleted ∧
        ∃ e < d + 1, slot / groupSize = (lmGroup (hash ptr) + e) % numGroups := by
      rintro slot rfl
      cases firstDeleted with
      | some slot' =>
        obtain ⟨deleted, e, near, place⟩ := taken slot (by simpa using first)
        exact ⟨deleted, e, by omega, place⟩
      | none =>
        have here := mem_matchByte.1 (List.mem_of_mem_head? first)
        exact ⟨here.2, d, by omega, here.1⟩
    cases empties : lm.matchByte ((lmGroup (hash ptr) + d) % numGroups) ctrlEmpty with
    | cons empty others =>
      refine ⟨some (firstDeleted'.getD empty), rfl, fun slot chosen => ?_, nofun⟩
      have vacant := mem_matchByte.1 (empties ▸ List.mem_cons_self : empty ∈ lm.matchByte _ ctrlEmpty)
      cases firstDeleted' with
      | none =>
        obtain rfl : empty = slot := by simpa using chosen
        exact ⟨by simp [vacant.2, ctrlEmpty], d, by omega, vacant.1, before⟩
      | some slot' =>
        obtain ⟨deleted, e, near, place⟩ := taken' slot (by simpa using chosen)
        exact ⟨by simp [deleted, ctrlDeleted], e, by omega, place, fun e' _ => before e' (by omega)⟩
    | nil =>
      have next : ((lmGroup (hash ptr) + d) % numGroups + 1) % numGroups = (lmGroup (hash ptr) + (d + 1)) % numGroups := by
        rw [Nat.mod_add_mod, Nat.add_assoc]
      simp only [next]
      refine ih _ (by omega) (fun e near => ?_) taken' fun none e near => ?_
      · obtain near | rfl : e < d ∨ e = d := by omega
        · exact before e near
        · rintro ⟨slot, here, empty⟩
          exact matchByte_eq_nil.1 empties slot here empty
      · obtain ⟨early, here⟩ : firstDeleted = Option.none ∧
            (lm.matchByte ((lmGroup (hash ptr) + d) % numGroups) ctrlDeleted).head? = Option.none := by
          cases firstDeleted <;> simp_all
        obtain near | rfl : e < d ∨ e = d := by omega
        · exact passed early e near
        · exact List.head?_eq_none_iff.1 here

theorem Sound.exists_place (absent : locks ptr = none) (room : lm.count < maxOccupancy) :
    ∃ slot, lm.insertLoop ptr (hash ptr) numGroups (lmGroup (hash ptr)) none = .vacant (some slot) ∧ slot < capacity ∧
      128 ≤ lm.ctrl slot ∧ Unbroken numGroups lm.Open (lmGroup (hash ptr)) (slot / groupSize) := by
  obtain ⟨result, searched, good, bad⟩ := sound.insertLoop_vacant absent (d := 0) none (Nat.zero_add _) (by simp) (by simp) (by simp)
  rw [Nat.add_zero, Nat.mod_eq_of_lt (lmGroup_lt _)] at searched
  cases result with
  | some slot =>
    obtain ⟨vacant, d, near, place, before⟩ := good slot rfl
    refine ⟨slot, searched, ?_, vacant, d, near, place, before⟩
    have := Nat.mod_lt (lmGroup (hash ptr) + d) (by decide : 0 < numGroups)
    simp only [groupSize, numGroups, capacity] at *
    omega
  | none =>
    have all : lm.full = Finset.range capacity := by
      refine Finset.filter_true_of_mem fun slot inside => ?_
      have inside := Finset.mem_range.1 inside
      obtain ⟨closed, kept⟩ := bad rfl (slot / groupSize) (by simp only [groupSize, numGroups, capacity] at *; omega)
      rcases sound.byte slot with full | deleted | empty
      · exact full
      · exact absurd deleted (matchByte_eq_nil.1 kept slot rfl)
      · exact absurd ⟨slot, rfl, empty⟩ closed
    have full := sound.count
    rw [all, Finset.card_range] at full
    simp only [maxOccupancy, capacity] at *
    omega

theorem Sound.put {lm' : LockManager} {locks' : Locks} {e : LockEntry} (byte : Nat) (inside : slot < capacity)
    (entries : lm'.entries = Function.update lm.entries slot e) (ctrl : lm'.ctrl = Function.update lm.ctrl slot byte)
    (count : lm'.count + (if lm.ctrl slot < 128 then 1 else 0) = lm.count + if byte < 128 then 1 else 0)
    (kind : byte < 128 ∨ byte = ctrlDeleted ∨ byte = ctrlEmpty) (closed : byte = ctrlEmpty → lm.ctrl slot = ctrlEmpty)
    (fits : byte < 128 → byte = lmH2 (hash e.objPtr) ∧ e.hash56 = hash e.objPtr ∧
      Unbroken numGroups lm.Open (lmGroup (hash e.objPtr)) (slot / groupSize))
    (change : ∀ p x, locks' p = some x ↔ if x.1 = slot then byte < 128 ∧ p = e.objPtr ∧ x.2 = e.holder else locks p = some x) :
    Sound hash lm' locks' := by
  have fewer : ∀ group, lm'.Open group → lm.Open group := by
    rintro group ⟨s, place, empty⟩
    rw [ctrl, Function.update_apply] at empty
    split at empty
    next same => exact ⟨s, place, same ▸ closed empty⟩
    · exact ⟨s, place, empty⟩
  refine ⟨fun s => ?_, fun {p x} known => ?_, fun s inside' full => ?_, ?_⟩
  · rw [ctrl, Function.update_apply]
    split
    · exact kind
    · exact sound.byte s
  · have known := (change p x).1 known
    rw [entries, ctrl]
    split at known
    next same =>
      obtain ⟨full, rfl, holder⟩ := known
      obtain ⟨tag, kept, chain⟩ := fits full
      rw [same, Function.update_self, Function.update_self, holder, ← kept]
      exact ⟨inside, kept ▸ tag, rfl, kept ▸ chain.mono fewer⟩
    next other =>
      obtain ⟨inside', tag, entry, chain⟩ := sound.known known
      rw [Function.update_of_ne other, Function.update_of_ne other]
      exact ⟨inside', tag, entry, chain.mono fewer⟩
  · rw [change]
    rw [ctrl, Function.update_apply] at full
    rw [entries, Function.update_apply]
    by_cases same : s = slot
    · rw [if_pos same] at full
      simp [same, full]
    · rw [if_neg same] at full
      simpa [same] using sound.full s inside' full
  · have card : lm'.full.card + (if lm.ctrl slot < 128 then 1 else 0) = lm.full.card + if byte < 128 then 1 else 0 := by
      have split {l : LockManager} : l.full.card = (l.full.erase slot).card + if l.ctrl slot < 128 then 1 else 0 := by
        rw [Finset.card_erase_eq_ite]
        by_cases here : l.ctrl slot < 128
        · have member : slot ∈ l.full := by simp [LockManager.full, inside, here]
          have := Finset.card_pos.2 ⟨slot, member⟩
          simp only [member, here, if_true]
          omega
        · simp [LockManager.full, here]
      have same : lm'.full.erase slot = lm.full.erase slot := by
        ext s
        simp only [LockManager.full, Finset.mem_erase, Finset.mem_filter, ctrl, Function.update_apply]
        by_cases same : s = slot <;> simp [same]
      rw [split (l := lm'), split (l := lm), same, ctrl, Function.update_self]
      omega
    have := sound.count
    omega

theorem Sound.insertAt (absent : locks ptr = none) (inside : slot < capacity) (vacant : 128 ≤ lm.ctrl slot)
    (chain : Unbroken numGroups lm.Open (lmGroup (hash ptr)) (slot / groupSize)) (holder : Nat) :
    Sound hash (lm.lmInsertAt slot ptr (hash ptr) holder true).1 (Function.update locks ptr (some (slot, holder))) := by
  have unused : ∀ p x, locks p = some x → x.1 ≠ slot := by
    rintro p x known rfl
    exact absurd (sound.full_of_known known) (Nat.not_lt.2 vacant)
  refine sound.put (lmH2 (hash ptr)) inside rfl rfl ?_ (.inl (lmH2_lt _)) (fun empty => ?_)
    (fun _ => ⟨rfl, rfl, chain⟩) fun p x => ?_
  · simp [LockManager.lmInsertAt, lmH2_lt, Nat.not_lt.2 vacant]
  · exact absurd (empty ▸ lmH2_lt (hash ptr)) (by decide)
  · rw [Function.update_apply]
    split
    next same =>
      subst same
      split
      next here => simp [Prod.ext_iff, here, lmH2_lt, eq_comm]
      next other => simp [Prod.ext_iff, Ne.symm other, absent]
    next other =>
      split
      next here => simpa [other] using fun known => unused p x known here
      · rfl

theorem Sound.insertAt_failed (inside : slot < capacity) (vacant : 128 ≤ lm.ctrl slot) (objPtr hash56 holder : Nat) :
    Sound hash (lm.lmInsertAt slot objPtr hash56 holder false).1 locks := by
  refine sound.put (lm.ctrl slot) inside rfl (Function.update_eq_self _ _).symm rfl (sound.byte slot) id
    (fun full => absurd full (Nat.not_lt.2 vacant)) fun p x => ?_
  split
  next here =>
    refine iff_of_false (fun known => ?_) fun ⟨full, _⟩ => absurd full (Nat.not_lt.2 vacant)
    exact absurd (here ▸ sound.full_of_known known) (Nat.not_lt.2 vacant)
  · rfl

theorem Sound.remove (ptr : Nat) : Sound hash (lm.lockManagerRemove ptr (hash ptr)) (Function.update locks ptr none) := by
  rw [LockManager.lockManagerRemove, sound.find_eq]
  cases known : locks ptr with
  | none =>
    have same : Function.update locks ptr none = locks := by rw [← known, Function.update_eq_self]
    rw [same]
    exact sound
  | some e =>
    obtain ⟨inside, -, entry, -⟩ := sound.known known
    have full := sound.full_of_known known
    have positive : 0 < lm.count := by
      rw [sound.count]
      exact Finset.card_pos.2 ⟨e.1, by simp [LockManager.full, inside, full]⟩
    simp only [Option.map_some]
    generalize after : LockManager.mk (Function.update lm.entries e.1 ⟨0, 0, 0⟩) (Function.update lm.ctrl e.1 ctrlDeleted)
      (lm.count - 1) (lm.deletedCount + 1) = lm'
    have sound' : Sound hash lm' (Function.update locks ptr none) := by
      subst after
      refine sound.put ctrlDeleted inside rfl rfl ?_ (.inr (.inl rfl)) nofun nofun fun p x => ?_
      · simp only [full, if_true, ctrlDeleted, Nat.lt_irrefl, if_false]
        omega
      · rw [Function.update_apply]
        split
        next same =>
          subst same
          simp only [known, reduceCtorEq, ctrlDeleted, Nat.reduceLT, false_and, Option.some.injEq, false_iff]
          split
          · exact not_false
          next other => exact fun equal => other (equal ▸ rfl)
        next other =>
          split
          next here =>
            refine iff_of_false (fun known' => other ?_) nofun
            have entry' := (sound.known known').2.2.1
            rw [here, entry] at entry'
            exact (congrArg LockEntry.objPtr entry').symm
          · rfl
    rw [LockManager.lmResetCtrlIfEmpty]
    split
    · exact sound'
    next empty =>
      have nobody : ∀ p, Function.update locks ptr none p = none := by
        intro p
        refine Option.eq_none_iff_forall_ne_some.2 fun x known => ?_
        have none := sound'.count
        rw [not_not.1 empty, eq_comm, Finset.card_eq_zero] at none
        have member : x.1 ∈ lm'.full := by simp [LockManager.full, sound'.full_of_known known, (sound'.known known).1]
        simp [none] at member
      refine ⟨fun _ => .inr (.inr rfl), fun {p x} known => ?_, fun slot _ full => absurd full (by simp [ctrlEmpty]), ?_⟩
      · rw [nobody] at known
        cases known
      · simpa [LockManager.full, ctrlEmpty] using empty

theorem Sound.updatePtr {newPtr : Nat} (real : ptr ≠ 0) (same : hash newPtr = hash ptr) (absent : locks newPtr = none) :
    Sound hash (lm.lockManagerUpdatePtr ptr newPtr (hash ptr))
      (match locks ptr with
        | some e => Function.update (Function.update locks ptr none) newPtr (some e)
        | none => locks) := by
  rw [LockManager.lockManagerUpdatePtr, LockManager.lockManagerLookup, if_neg real, sound.find_eq]
  cases known : locks ptr with
  | none => exact sound
  | some e =>
    obtain ⟨inside, tag, entry, chain⟩ := sound.known known
    have full := sound.full_of_known known
    refine sound.put (lm.ctrl e.1) inside rfl (Function.update_eq_self _ _).symm rfl (sound.byte _) id
      (fun _ => ?_) fun p x => ?_
    · simp only [entry, same]
      exact ⟨tag, trivial, chain⟩
    · simp only [Function.update_apply, entry, full, true_and]
      by_cases moved : p = newPtr
      · subst moved
        rw [if_pos rfl]
        split
        next here => simp [Prod.ext_iff, here, eq_comm]
        next other => simp [Prod.ext_iff, Ne.symm other, absent]
      · rw [if_neg moved]
        by_cases old : p = ptr
        · subst old
          rw [if_pos rfl]
          split
          · simp [moved]
          next other => simp [known, Prod.ext_iff, Ne.symm other]
        · rw [if_neg old]
          split
          next here =>
            simp only [moved, false_and, iff_false]
            intro known'
            have entry' := (sound.known known').2.2.1
            rw [here, entry] at entry'
            exact old (congrArg LockEntry.objPtr entry').symm
          · rfl

end Table

inductive Op
  | insert (objPtr holder : Nat) (alloc : Bool)
  | lookup (objPtr : Nat)
  | remove (objPtr : Nat)
  | updatePtr (oldPtr newPtr : Nat)

structure World where
  lm : LockManager
  locks : Locks

namespace World

section Runs

variable (hash : Nat → Nat)

def start : World := ⟨lockManagerInit, fun _ => none⟩

def inserted (w : World) (objPtr holder : Nat) (alloc : Bool) : LockManager × Option Nat :=
  w.lm.lockManagerInsert objPtr (hash objPtr) holder alloc

def step (w : World) : Op → Option World
  | .insert objPtr holder alloc => some
      { lm := (w.inserted hash objPtr holder alloc).1
        locks :=
          match w.locks objPtr, (w.inserted hash objPtr holder alloc).2 with
          | none, some slot => Function.update w.locks objPtr (some (slot, holder))
          | _, _ => w.locks }
  | .lookup _ => some w
  | .remove objPtr => some
      { lm := w.lm.lockManagerRemove objPtr (hash objPtr), locks := Function.update w.locks objPtr none }
  | .updatePtr oldPtr newPtr => some
      { lm := w.lm.lockManagerUpdatePtr oldPtr newPtr (hash oldPtr)
        locks :=
          match w.locks oldPtr with
          | some e => Function.update (Function.update w.locks oldPtr none) newPtr (some e)
          | none => w.locks }

def Allowed (w : World) : Op → Prop
  | .insert objPtr _ _ | .lookup objPtr | .remove objPtr => objPtr ≠ 0
  | .updatePtr oldPtr newPtr => oldPtr ≠ 0 ∧ newPtr ≠ 0 ∧ hash newPtr = hash oldPtr ∧ w.locks newPtr = none

structure Refines (w : World) : Prop where
  lookup : ∀ ptr, ptr ≠ 0 → w.lm.lockManagerLookup ptr (hash ptr) = (w.locks ptr).map Prod.fst
  entry : ∀ ptr slot holder, w.locks ptr = some (slot, holder) → w.lm.entries slot = ⟨ptr, hash ptr, holder⟩
  apart : ∀ ptr ptr' slot holder holder', w.locks ptr = some (slot, holder) → w.locks ptr' = some (slot, holder') → ptr = ptr'
  count : ∃ present : Finset Nat, (∀ ptr, ptr ∈ present ↔ w.locks ptr ≠ none) ∧ w.lm.count = present.card
  old : ∀ ptr slot holder, w.locks ptr = some (slot, holder) → ∀ holder' alloc,
    w.inserted hash ptr holder' alloc = (w.lm, if w.lm.count < maxOccupancy then some slot else none)
  new : ∀ ptr, w.locks ptr = none → ∀ holder alloc,
    ((w.inserted hash ptr holder alloc).2 = none ↔ maxOccupancy ≤ w.lm.count ∨ alloc = false) ∧
      ∀ slot, (w.inserted hash ptr holder alloc).2 = some slot → ∀ other holder', w.locks other ≠ some (slot, holder')

end Runs

variable {hash : Nat → Nat} {w w' : World}

section Insertion

variable (sound : Sound hash w.lm w.locks) {ptr : Nat}

include sound

theorem inserted_old {e : Nat × Nat} (known : w.locks ptr = some e) (holder : Nat) (alloc : Bool) :
    w.inserted hash ptr holder alloc = (w.lm, if w.lm.count < maxOccupancy then some e.1 else none) := by
  rw [inserted, LockManager.lockManagerInsert]
  split
  next full => rw [if_neg (Nat.not_lt.2 full)]
  next room => simp only [insertLoop_present none (sound.probe_known known), if_pos (Nat.lt_of_not_le room)]

theorem inserted_new (absent : w.locks ptr = none) (holder : Nat) (alloc : Bool) :
    (maxOccupancy ≤ w.lm.count ∧ w.inserted hash ptr holder alloc = (w.lm, none)) ∨
      w.lm.count < maxOccupancy ∧ ∃ slot, w.inserted hash ptr holder alloc = w.lm.lmInsertAt slot ptr (hash ptr) holder alloc ∧
        slot < capacity ∧ 128 ≤ w.lm.ctrl slot ∧ Unbroken numGroups w.lm.Open (lmGroup (hash ptr)) (slot / groupSize) := by
  by_cases full : maxOccupancy ≤ w.lm.count
  · exact .inl ⟨full, by rw [inserted, LockManager.lockManagerInsert, if_pos full]⟩
  · obtain ⟨slot, searched, place⟩ := sound.exists_place absent (Nat.lt_of_not_le full)
    exact .inr ⟨Nat.lt_of_not_le full, slot, by rw [inserted, LockManager.lockManagerInsert, if_neg full, searched], place⟩

end Insertion

theorem sound_step {op : Op} (sound : Sound hash w.lm w.locks) (allowed : w.Allowed hash op)
    (moved : w.step hash op = some w') : Sound hash w'.lm w'.locks := by
  cases op with
  | insert ptr holder alloc =>
    cases moved
    cases known : w.locks ptr with
    | some e => simpa only [inserted_old sound known] using sound
    | none =>
      rcases inserted_new sound known holder alloc with ⟨-, failed⟩ | ⟨-, slot, placed, inside, vacant, chain⟩
      · simpa only [failed] using sound
      · simp only [placed]
        cases alloc with
        | true => exact sound.insertAt known inside vacant chain holder
        | false => exact sound.insertAt_failed inside vacant ptr (hash ptr) holder
  | lookup ptr =>
    cases moved
    exact sound
  | remove ptr =>
    cases moved
    exact sound.remove ptr
  | updatePtr old new =>
    obtain ⟨real, -, same, absent⟩ := allowed
    cases moved
    exact sound.updatePtr real same absent

theorem sound_of_run (run : Reaches (step hash) (Allowed hash) start w) : Sound hash w.lm w.locks :=
  run.invariant sound_init fun sound allowed moved => sound_step sound allowed moved

theorem lock_table_refines (run : Reaches (step hash) (Allowed hash) start w) : Refines hash w := by
  have sound := sound_of_run run
  refine ⟨fun ptr real => ?_, fun ptr slot holder known => (sound.known known).2.2.1,
    fun ptr ptr' slot holder holder' here there => ?_, ⟨w.lm.full.image fun slot => (w.lm.entries slot).objPtr, fun ptr => ?_, ?_⟩,
    fun ptr slot holder known => inserted_old sound known, fun ptr absent holder alloc => ?_⟩
  · rw [LockManager.lockManagerLookup, if_neg real, sound.find_eq]
  · have same := (sound.known here).2.2.1.symm.trans (sound.known there).2.2.1
    exact congrArg LockEntry.objPtr same
  · simp only [Finset.mem_image, LockManager.full, Finset.mem_filter, Finset.mem_range, Option.ne_none_iff_exists']
    constructor
    · rintro ⟨slot, ⟨inside, full⟩, rfl⟩
      exact ⟨_, sound.full slot inside full⟩
    · rintro ⟨e, known⟩
      exact ⟨e.1, ⟨(sound.known known).1, sound.full_of_known known⟩, by rw [(sound.known known).2.2.1]⟩
  · rw [sound.count, Finset.card_image_of_injOn]
    intro slot here slot' there same
    simp only [LockManager.full, Finset.mem_coe, Finset.mem_filter, Finset.mem_range] at here there same
    have known := sound.full slot here.1 here.2
    rw [same, sound.full slot' there.1 there.2] at known
    exact (congrArg Prod.fst (Option.some.inj known)).symm
  · rcases inserted_new sound absent holder alloc with ⟨full, failed⟩ | ⟨room, slot, placed, -, vacant, -⟩
    · simp [failed, full]
    · rw [placed]
      cases alloc with
      | false => simp [LockManager.lmInsertAt]
      | true =>
        refine ⟨by simp [LockManager.lmInsertAt, room], fun slot' same other holder' known => ?_⟩
        obtain rfl : slot = slot' := by simpa [LockManager.lmInsertAt] using same
        exact absurd (sound.full_of_known known) (Nat.not_lt.2 vacant)

theorem exists_filled {n : Nat} (few : n ≤ maxOccupancy) : ∃ w, Reaches (step id) (Allowed id) start w ∧ w.lm.count = n ∧
    ∀ ptr, 0 < ptr → (w.locks ptr = none ↔ n < ptr) := by
  induction n with
  | zero => exact ⟨start, .refl, rfl, fun ptr real => by simp [start, real]⟩
  | succ n ih =>
    obtain ⟨w, run, count, present⟩ := ih (by omega)
    have absent := (present (n + 1) (Nat.succ_pos n)).2 (Nat.lt_succ_self n)
    rcases inserted_new (sound_of_run run) absent 0 true with ⟨full, -⟩ | ⟨-, slot, placed, -⟩
    · omega
    · refine ⟨_, run.tail (show Allowed id w (.insert (n + 1) 0 true) from Nat.succ_ne_zero n) rfl, ?_, fun ptr real => ?_⟩
      · simp [placed, LockManager.lmInsertAt, count]
      · simp only [absent, placed, LockManager.lmInsertAt, if_true, Function.update_apply]
        split
        next same => simp [same]
        next other =>
          rw [present ptr real]
          omega

theorem lock_table_refines_three : ∃ w, Reaches (step id) (Allowed id) start w ∧ w.lm.count = 3 ∧ Refines id w := by
  obtain ⟨w, run, count, -⟩ := exists_filled (n := 3) (by decide)
  exact ⟨w, run, count, lock_table_refines run⟩

theorem full_table_refuses_known : ∃ w e, Reaches (step id) (Allowed id) start w ∧ w.locks 1 = some e ∧
    w.lm.lockManagerLookup 1 1 = some e.1 ∧ (w.inserted id 1 0 true).2 = none := by
  obtain ⟨w, run, count, present⟩ := exists_filled (n := maxOccupancy) le_rfl
  have sound := sound_of_run run
  obtain ⟨e, known⟩ := Option.ne_none_iff_exists'.1 (mt (present 1 Nat.one_pos).1 (by decide))
  refine ⟨w, e, run, known, ?_, ?_⟩
  · exact (sound.find_eq 1).trans (by rw [known, Option.map_some])
  · rw [inserted_old sound known, count, if_neg (Nat.lt_irrefl _)]

end World

end FreakV.LockTable
