import FreakV.Snapshot.Restore
import Mathlib.Data.List.Induction

namespace FreakV.Snapshot

def bitOf (pos : Pos) : Nat := pos.1 * snapModifiedSize * 8 + pos.2

structure Recorded (slots : List (Pos × Entry)) : Prop where
  once : (slots.map Prod.fst).Nodup
  small : ∀ slot ∈ slots, slot.1.2 < snapModifiedSize * 8

theorem bitOf_injective {p q : Pos} (small : p.2 < snapModifiedSize * 8) (small' : q.2 < snapModifiedSize * 8)
    (same : bitOf p = bitOf q) : p = q := by
  obtain ⟨l, k⟩ := p
  obtain ⟨l', k'⟩ := q
  simp only [bitOf, snapModifiedSize] at small small' same
  have page : l = l' := by omega
  have slot : k = k' := by omega
  rw [page, slot]

theorem bitOf_lt {pos : Pos} {pages : Nat} (small : pos.2 < snapModifiedSize * 8) (inside : pos.1 < pages) :
    bitOf pos < compactDedupInit pages := by
  simp only [bitOf, compactDedupInit, snapModifiedSize] at small ⊢
  omega

theorem lt_dedupPages {lpage nrPages : Nat} (inside : lpage < nrPages) (few : nrPages ≤ 2 ^ 20) : lpage < dedupPages nrPages := by
  unfold dedupPages
  omega

section Slots

variable (nrBits : Nat)

theorem compactDedupMark_eq (seen : List Nat) (pos : Pos) : compactDedupMark nrBits seen pos =
    if nrBits ≤ bitOf pos then (seen, true) else if bitOf pos ∈ seen then (seen, false) else (bitOf pos :: seen, true) :=
  rfl

def compactSlots : List Nat → List (Pos × Entry) → List Nat × List (Pos × Entry)
  | seen, [] => (seen, [])
  | seen, slot :: rest =>
    let (seen, firstSeen) := compactDedupMark nrBits seen slot.1
    let (seen, kept) := compactSlots seen rest
    (seen, if ¬firstSeen ∨ slot.2.deleted then kept else slot :: kept)

theorem compactSlots_append (seen : List Nat) (first second : List (Pos × Entry)) :
    compactSlots nrBits seen (first ++ second) =
      let (seen, kept) := compactSlots nrBits seen first
      let (seen, more) := compactSlots nrBits seen second
      (seen, kept ++ more) := by
  induction first generalizing seen with
  | nil => rfl
  | cons slot rest ih =>
    simp only [List.cons_append, compactSlots, ih]
    split <;> rfl

theorem compactEntries_eq (lpage : Nat) (seen : List Nat) (entries : List Entry) :
    let (seen', kept) := compactEntries nrBits lpage seen entries
    compactSlots nrBits seen (PageRecord.slots { lpageIdx := lpage, entries := entries }) =
      (seen', PageRecord.slots { lpageIdx := lpage, entries := kept }) := by
  induction entries generalizing seen with
  | nil => rfl
  | cons e rest ih =>
    simp only [PageRecord.slots, List.map_cons, compactSlots, compactEntries] at ih ⊢
    rw [ih]
    split <;> rfl

theorem compactRecords_eq (seen : List Nat) (records : List PageRecord) :
    compactSlots nrBits seen (records.flatMap PageRecord.slots) =
      ((compactRecords nrBits seen records).1, (compactRecords nrBits seen records).2.flatMap PageRecord.slots) := by
  induction records generalizing seen with
  | nil => rfl
  | cons r rest ih =>
    have page := compactEntries_eq nrBits r.lpageIdx seen r.entries
    simp only [List.flatMap_cons, compactSlots_append, compactRecords] at page ⊢
    rw [page]
    simp only [ih]
    split
    next empty => simp [empty, PageRecord.slots]
    · rfl

theorem compactSlots_recorded (seen : List Nat) {slots : List (Pos × Entry)} (recorded : Recorded slots) :
    (compactSlots nrBits seen slots).2 =
      slots.filter (fun slot => (nrBits ≤ bitOf slot.1 || bitOf slot.1 ∉ seen) && !slot.2.deleted) ∧
    ∀ bit, bit ∈ (compactSlots nrBits seen slots).1 ↔ bit ∈ seen ∨ bit < nrBits ∧ bit ∈ slots.map (bitOf ·.1) := by
  induction slots generalizing seen with
  | nil => simp [compactSlots]
  | cons slot rest ih =>
    have later : Recorded rest :=
      ⟨(List.nodup_cons.1 recorded.once).2, fun x member => recorded.small x (List.mem_cons_of_mem _ member)⟩
    have apart (x : Pos × Entry) (member : x ∈ rest) : bitOf x.1 ≠ bitOf slot.1 := by
      intro same
      have equal := bitOf_injective (later.small x member) (recorded.small slot List.mem_cons_self) same
      exact (List.nodup_cons.1 recorded.once).1 (equal ▸ List.mem_map_of_mem member)
    obtain ⟨kept, bits⟩ := ih (compactDedupMark nrBits seen slot.1).1 later
    constructor
    · simp only [compactSlots, kept, List.filter_cons]
      have same : rest.filter (fun x => (nrBits ≤ bitOf x.1 || bitOf x.1 ∉ (compactDedupMark nrBits seen slot.1).1) &&
          !x.2.deleted) = rest.filter (fun x => (nrBits ≤ bitOf x.1 || bitOf x.1 ∉ seen) && !x.2.deleted) := by
        refine List.filter_congr fun x member => ?_
        have other := apart x member
        rw [compactDedupMark_eq]
        split
        · rfl
        · split <;> simp [other]
      rw [same, compactDedupMark_eq]
      split
      · cases dead : slot.2.deleted <;> simp_all
      · split <;> cases dead : slot.2.deleted <;> simp_all
    · intro bit
      simp only [compactSlots, List.map_cons, List.mem_cons, compactDedupMark_eq]
      split
      · grind -ring -linarith
      · split <;> grind -ring -linarith

end Slots

section Base

variable {nrBits sessionId nrPages : Nat} {delta : File} {base : Option File}

theorem passes_iff (fresh : Recorded delta.slots) (inside : ∀ slot ∈ delta.slots, bitOf slot.1 < nrBits) {pos : Pos}
    (small : pos.2 < snapModifiedSize * 8) :
    nrBits ≤ bitOf pos ∨ bitOf pos ∉ (compactRecords nrBits [] delta.records).1 ↔ pos ∉ delta.slots.map Prod.fst := by
  have bits := (compactSlots_recorded nrBits [] fresh).2 (bitOf pos)
  rw [File.slots, compactRecords_eq, ← File.slots] at bits
  rw [bits]
  simp only [List.not_mem_nil, false_or, List.mem_map, not_exists, not_and]
  constructor
  · rintro outside slot member rfl
    obtain beyond | away := outside
    · exact absurd (inside slot member) (Nat.not_lt.2 beyond)
    · exact away (inside slot member) slot member rfl
  · intro away
    refine .inr fun _ slot member same => away slot member ?_
    exact bitOf_injective (fresh.small slot member) small same

theorem compactRecords_merge (fresh : Recorded delta.slots) (inside : ∀ slot ∈ delta.slots, bitOf slot.1 < nrBits) :
    (compactRecords nrBits [] delta.records).2.flatMap PageRecord.slots = delta.slots.filter (!·.2.deleted) ∧
    ∀ f : File, Recorded f.slots →
      (compactRecords nrBits (compactRecords nrBits [] delta.records).1 f.records).2.flatMap PageRecord.slots =
        f.slots.filter fun slot => slot.1 ∉ delta.slots.map Prod.fst && !slot.2.deleted := by
  constructor
  · have kept := (compactSlots_recorded nrBits [] fresh).1
    have same := congrArg Prod.snd (compactRecords_eq nrBits [] delta.records)
    refine same.symm.trans (kept.trans ?_)
    simp
  · intro f old
    have kept := (compactSlots_recorded nrBits (compactRecords nrBits [] delta.records).1 old).1
    have same := congrArg Prod.snd (compactRecords_eq nrBits (compactRecords nrBits [] delta.records).1 f.records)
    refine same.symm.trans (kept.trans (List.filter_congr fun slot member => ?_))
    congr 1
    rw [← Bool.decide_or, decide_eq_decide]
    exact passes_iff fresh inside (old.small slot member)

theorem slots_snapCompactDeltaIntoBase (fresh : Recorded delta.slots) (old : Recorded (baseSlots base))
    (inside : ∀ slot ∈ delta.slots, slot.1.1 < dedupPages nrPages) :
    (snapCompactDeltaIntoBase sessionId nrPages delta base).slots =
      delta.slots.filter (!·.2.deleted) ++
        (baseSlots base).filter fun slot => slot.1 ∉ delta.slots.map Prod.fst && !slot.2.deleted := by
  have within (slot : Pos × Entry) (member : slot ∈ delta.slots) : bitOf slot.1 < compactDedupInit (dedupPages nrPages) :=
    bitOf_lt (fresh.small slot member) (inside slot member)
  obtain ⟨first, second⟩ := compactRecords_merge fresh within
  rw [File.slots]
  simp only [snapCompactDeltaIntoBase, List.flatMap_append, first]
  cases base with
  | none => simp [baseSlots]
  | some f => simp only [second f old, baseSlots, Option.map_some, Option.getD_some]

theorem lookup_eq_none {slots : List (Pos × Entry)} {pos : Pos} :
    slots.lookup pos = none ↔ pos ∉ slots.map Prod.fst := by
  rw [List.lookup_eq_none_iff, List.mem_map]
  constructor
  · rintro missing ⟨x, member, rfl⟩
    simpa using missing x member
  · intro away x member
    have other : pos ≠ x.1 := fun same => away ⟨x, member, same.symm⟩
    simpa using other

theorem lookup_filter {slots : List (Pos × Entry)} (once : (slots.map Prod.fst).Nodup) (p : Pos × Entry → Bool) (pos : Pos) :
    (slots.filter p).lookup pos = (slots.lookup pos).filter fun e => p (pos, e) := by
  induction slots with
  | nil => rfl
  | cons slot rest ih =>
    obtain ⟨q, e⟩ := slot
    rw [List.map_cons, List.nodup_cons] at once
    have later := ih once.2
    by_cases here : pos = q
    · subst here
      rw [lookup_eq_none.2 once.1] at later
      cases kept : p (pos, e) <;> simp [kept, later, Option.filter]
    · have other : (pos == q) = false := by simpa using here
      cases kept : p (q, e) <;> simp [kept, later, List.lookup_cons, other]

theorem Entry.filter_live (e : Option Entry) : e.filter (!·.deleted) = e.bind Entry.live := by
  cases e with
  | none => rfl
  | some e => cases dead : e.deleted <;> simp [Entry.live, dead, Option.filter]

theorem lookup_snapCompactDeltaIntoBase (fresh : Recorded delta.slots) (old : Recorded (baseSlots base))
    (inside : ∀ slot ∈ delta.slots, slot.1.1 < dedupPages nrPages) (pos : Pos) :
    (snapCompactDeltaIntoBase sessionId nrPages delta base).slots.lookup pos =
      ((delta.slots ++ baseSlots base).lookup pos).bind Entry.live := by
  rw [slots_snapCompactDeltaIntoBase fresh old inside, List.lookup_append, List.lookup_append, lookup_filter fresh.once,
    lookup_filter old.once]
  cases recorded : delta.slots.lookup pos with
  | none =>
    simp only [lookup_eq_none.1 recorded, not_false_eq_true, decide_true, Bool.true_and]
    exact Entry.filter_live _
  | some e =>
    have here : pos ∈ delta.slots.map Prod.fst := by
      by_contra away
      rw [lookup_eq_none.2 away] at recorded
      cases recorded
    have none : (baseSlots base |>.lookup pos).filter (fun _ => false) = none := by
      cases (baseSlots base).lookup pos <;> rfl
    simp only [here, not_true_eq_false, decide_false, Bool.false_and, none, Option.or_none, Option.some_or]
    exact Entry.filter_live _

theorem recorded_merge {slots old : List (Pos × Entry)} (fresh : Recorded slots) (earlier : Recorded old) :
    Recorded (slots.filter (!·.2.deleted) ++ old.filter fun slot => slot.1 ∉ slots.map Prod.fst && !slot.2.deleted) := by
  constructor
  · rw [List.map_append, List.nodup_append]
    refine ⟨fresh.once.sublist (List.filter_sublist.map _), earlier.once.sublist (List.filter_sublist.map _), ?_⟩
    intro p first q second same
    obtain ⟨x, member, rfl⟩ := List.mem_map.1 first
    obtain ⟨y, member', equal⟩ := List.mem_map.1 second
    simp only [List.mem_filter, Bool.and_eq_true, decide_eq_true_eq] at member member'
    exact member'.2.1 (equal.trans same.symm ▸ List.mem_map_of_mem member.1)
  · intro slot member
    rw [List.mem_append, List.mem_filter, List.mem_filter] at member
    obtain member | member := member
    · exact fresh.small slot member.1
    · exact earlier.small slot member.1

theorem recorded_snapCompactDeltaIntoBase (fresh : Recorded delta.slots) (old : Recorded (baseSlots base))
    (inside : ∀ slot ∈ delta.slots, slot.1.1 < dedupPages nrPages) :
    Recorded (snapCompactDeltaIntoBase sessionId nrPages delta base).slots := by
  rw [slots_snapCompactDeltaIntoBase fresh old inside]
  exact recorded_merge fresh old

end Base

section Runs

theorem Entry.live_eq_some {d e : Entry} : d.live = some e ↔ d = e ∧ e.deleted = false := by
  unfold Entry.live
  split <;> grind -ring -linarith

def compactAll (sessionId : Nat) (runs : List (Nat × File)) : Option File :=
  runs.foldl (fun base run => some (snapCompactDeltaIntoBase sessionId run.1 run.2 base)) none

variable {sessionId : Nat} {runs : List (Nat × File)}
  (wf : ∀ run ∈ runs, Recorded run.2.slots ∧ ∀ slot ∈ run.2.slots, slot.1.1 < dedupPages run.1)

include wf

theorem compactAll_spec : Recorded (baseSlots (compactAll sessionId runs)) ∧ ∀ pos,
    (baseSlots (compactAll sessionId runs)).lookup pos =
      ((fileSlots (runs.map Prod.snd).reverse).lookup pos).bind Entry.live := by
  induction runs using List.reverseRecOn with
  | nil => exact ⟨⟨List.nodup_nil, by rintro _ ⟨⟩⟩, fun _ => rfl⟩
  | append_singleton runs run ih =>
    obtain ⟨old, found⟩ := ih fun r there => wf r (List.mem_append_left _ there)
    obtain ⟨fresh, inside⟩ := wf run (by simp)
    have last : baseSlots (compactAll sessionId (runs ++ [run])) =
        (snapCompactDeltaIntoBase sessionId run.1 run.2 (compactAll sessionId runs)).slots := by
      rw [compactAll, List.foldl_append]
      rfl
    rw [last]
    refine ⟨recorded_snapCompactDeltaIntoBase fresh old inside, fun pos => ?_⟩
    rw [lookup_snapCompactDeltaIntoBase fresh old inside, List.lookup_append, found, List.map_append, List.reverse_append]
    simp only [List.map_cons, List.map_nil, List.reverse_singleton, List.singleton_append, fileSlots, List.flatMap_cons,
      List.lookup_append]
    cases run.2.slots.lookup pos with
    | some e => rfl
    | none =>
      ext e
      simp only [Option.none_or, Option.bind_eq_some_iff, Entry.live_eq_some]
      grind -ring -linarith

theorem restore_compacted (now : Nat) (e : Entry) : e ∈ snapEngineRestore now (compactAll sessionId runs) [] ↔ ∃ pos,
    (fileSlots (runs.map Prod.snd).reverse).lookup pos = some e ∧ e.deleted = false ∧ e.expired now = false := by
  rw [mem_snapEngineRestore]
  refine exists_congr fun pos => ?_
  have all : taken (compactAll sessionId runs) [] pos = (baseSlots (compactAll sessionId runs)).lookup pos := by
    simp [taken, readOrder, descending, fileSlots]
  rw [all, (compactAll_spec wf).2 pos]
  simp only [Option.bind_eq_some_iff, Entry.live_eq_some]
  grind -ring -linarith

omit wf

theorem restore_compacted_pair : ∃ e, e.key = [98] ∧
    e ∈ snapEngineRestore 0 (compactAll 7 [(1, baseA), (1, deltaB)]) [] := by
  refine ⟨_, rfl, (restore_compacted ?_ 0 ⟨62, [98], [50], 0, false⟩).2 ⟨(0, 62), by decide⟩⟩
  simp only [List.forall_mem_cons]
  exact ⟨⟨⟨by decide, by decide⟩, by decide⟩, ⟨⟨by decide, by decide⟩, by decide⟩, by simp⟩

end Runs

end FreakV.Snapshot
