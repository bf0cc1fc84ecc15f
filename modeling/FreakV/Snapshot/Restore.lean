import FreakV.Snapshot.Files

namespace FreakV.Snapshot

variable {now : Nat} {base : Option File} {listing : List File}

def baseSlots (base : Option File) : List (Pos × Entry) := (base.map File.slots).getD []

def fileSlots (files : List File) : List (Pos × Entry) := files.flatMap File.slots

section Spec

def Entry.live (e : Entry) : Option Entry := if e.deleted then none else some e

def applySlot (m : Pos → Option Entry) (slot : Pos × Entry) : Pos → Option Entry :=
  Function.update m slot.1 slot.2.live

def applied (base : Option File) (listing : List File) : Pos → Option Entry :=
  (fileSlots (descending listing).reverse).foldl applySlot ((baseSlots base).foldl applySlot fun _ => none)

def newest (base : Option File) (listing : List File) (pos : Pos) : Option Entry :=
  (fileSlots (descending listing) ++ baseSlots base).lookup pos

structure WellFormed (base : Option File) (listing : List File) : Prop where
  baseOnce : ((baseSlots base).map Prod.fst).Nodup
  deltaOnce : ∀ f ∈ listing, (f.slots.map Prod.fst).Nodup
  later : ∀ b ∈ base, ∀ f ∈ listing, b.sessionId = f.sessionId ∧ b.epoch < f.epoch
  epochs : listing.Pairwise fun f g => f.epoch ≠ g.epoch
  keys : ∀ p q d e, applied base listing p = some d → applied base listing q = some e → d.key = e.key → p = q

theorem foldl_applySlot {slots : List (Pos × Entry)} (once : (slots.map Prod.fst).Nodup) (m : Pos → Option Entry)
    (pos : Pos) : slots.foldl applySlot m pos =
      match slots.lookup pos with
      | some e => e.live
      | none => m pos := by
  induction slots generalizing m with
  | nil => rfl
  | cons slot rest ih =>
    rw [List.map_cons, List.nodup_cons] at once
    obtain ⟨p, e⟩ := slot
    rw [List.foldl_cons, ih once.2, List.lookup_cons]
    by_cases here : pos = p
    · subst here
      have gone : rest.lookup pos = none := by
        rw [List.lookup_eq_none_iff]
        intro other member
        simp only [bne_iff_ne, ne_eq]
        rintro rfl
        exact once.1 (List.mem_map.2 ⟨other, member, rfl⟩)
      simp [gone, applySlot]
    · have other : (pos == p) = false := by simpa using here
      simp only [other, applySlot, Function.update_of_ne here]

theorem applied_eq (wf : WellFormed base listing) (pos : Pos) :
    applied base listing pos = (newest base listing pos).bind Entry.live := by
  have once : ∀ f ∈ descending listing, (f.slots.map Prod.fst).Nodup := fun f member =>
    wf.deltaOnce f (List.mem_mergeSort.1 member)
  rw [applied, newest]
  generalize descending listing = files at once
  -- from the oldest file to the newest, each file decides the slots it records
  induction files with
  | nil =>
    rw [List.reverse_nil, fileSlots, List.flatMap_nil, List.foldl_nil, List.nil_append, foldl_applySlot wf.baseOnce]
    cases (baseSlots base).lookup pos <;> rfl
  | cons f older ih =>
    have rest := ih fun g member => once g (List.mem_cons_of_mem _ member)
    rw [List.reverse_cons, fileSlots, List.flatMap_append, List.flatMap_singleton, List.foldl_append,
      foldl_applySlot (once f List.mem_cons_self), fileSlots, List.flatMap_cons, List.append_assoc, List.lookup_append]
    cases f.slots.lookup pos with
    | none => exact rest
    | some e => rfl

end Spec

section Reading

def readOrder (base : Option File) (listing : List File) : List (Pos × Entry) :=
  baseSlots base ++ fileSlots (descending (listing.take maxEpochFiles))

theorem foldl_restoreFile (st : Restoring) (files : List File) :
    files.foldl (restoreFile now) st = (fileSlots files).foldl (restoreEntry now) st := by
  induction files generalizing st with
  | nil => rfl
  | cons f rest ih => rw [List.foldl_cons, ih, fileSlots, fileSlots, List.flatMap_cons, List.foldl_append, restoreFile]

theorem foldl_restoreEntry (now : Nat) (st : Restoring) (slots : List (Pos × Entry)) :
    (slots.foldl (restoreEntry now) st).restored =
      st.restored ++ ((firsts st.seen slots).map Prod.snd).filter fun e => !e.deleted && !e.expired now := by
  induction slots generalizing st with
  | nil => simp [firsts]
  | cons slot rest ih =>
    rw [List.foldl_cons, ih, firsts, restoreEntry]
    split
    · rfl
    · cases deleted : slot.2.deleted with
      | true => simp [deleted]
      | false => cases expired : slot.2.expired now <;> simp [deleted, expired]

theorem snapEngineRestore_eq (now : Nat) (base : Option File) (listing : List File) :
    snapEngineRestore now base listing =
      ((firsts [] (readOrder base listing)).map Prod.snd).filter fun e => !e.deleted && !e.expired now := by
  have all := foldl_restoreEntry now {} (readOrder base listing)
  rw [readOrder, List.foldl_append, ← foldl_restoreFile] at all
  cases base <;> exact all

theorem mem_firsts {seen : List Pos} {slots : List (Pos × Entry)} {pos : Pos} {e : Entry} :
    (pos, e) ∈ firsts seen slots ↔ pos ∉ seen ∧ slots.lookup pos = some e := by
  induction slots generalizing seen with
  | nil => simp [firsts]
  | cons slot rest ih =>
    obtain ⟨p, d⟩ := slot
    rw [firsts, List.lookup_cons]
    by_cases here : pos = p
    · subst here
      split
      next old => simp [ih, old]
      next fresh => simp [ih, fresh, eq_comm]
    · have other : (pos == p) = false := by simpa using here
      split
      · simp [ih, other]
      · simp [ih, other, here]

theorem nodup_firsts (seen : List Pos) (slots : List (Pos × Entry)) : ((firsts seen slots).map Prod.fst).Nodup := by
  induction slots generalizing seen with
  | nil => simp [firsts]
  | cons slot rest ih =>
    rw [firsts]
    split
    · exact ih seen
    · rw [List.map_cons, List.nodup_cons]
      refine ⟨fun member => ?_, ih _⟩
      obtain ⟨⟨p, e⟩, found, rfl⟩ := List.mem_map.1 member
      exact (mem_firsts.1 found).1 List.mem_cons_self

end Reading

section Recovery

theorem foldl_set {entries : List Entry} (distinct : (entries.map Entry.key).Nodup) (m : KeyMap) (key : Bytes)
    (r : Bytes × Nat) : entries.foldl KeyMap.set m key = some r ↔
      (∃ e ∈ entries, e.key = key ∧ (e.value, e.expireMs) = r) ∨ key ∉ entries.map Entry.key ∧ m key = some r := by
  induction entries generalizing m with
  | nil => simp
  | cons e rest ih =>
    rw [List.map_cons, List.nodup_cons] at distinct
    rw [List.foldl_cons, ih distinct.2]
    by_cases here : e.key = key
    · subst here
      simp [KeyMap.set, distinct.1, or_comm]
    · have other : m.set e key = m key := Function.update_of_ne (Ne.symm here) _ _
      simp [other, here, Ne.symm here]

theorem ofList_eq {entries : List Entry} (distinct : (entries.map Entry.key).Nodup) (key : Bytes) (r : Bytes × Nat) :
    KeyMap.ofList entries key = some r ↔ ∃ e ∈ entries, e.key = key ∧ (e.value, e.expireMs) = r := by
  simp [KeyMap.ofList, foldl_set distinct]

def taken (base : Option File) (listing : List File) (pos : Pos) : Option Entry := (readOrder base listing).lookup pos

theorem mem_snapEngineRestore {e : Entry} : e ∈ snapEngineRestore now base listing ↔
    ∃ pos, taken base listing pos = some e ∧ e.deleted = false ∧ e.expired now = false := by
  rw [snapEngineRestore_eq]
  simp only [List.mem_filter, List.mem_map, Prod.exists, exists_eq_right, mem_firsts, List.not_mem_nil,
    not_false_eq_true, true_and, Bool.and_eq_true, Bool.not_eq_true', exists_and_right]
  rfl

structure Recovers (now : Nat) (base : Option File) (listing : List File) : Prop where
  contents : ∀ key value expire, KeyMap.ofList (snapEngineRestore now base listing) key = some (value, expire) ↔
    ∃ pos e, applied base listing pos = some e ∧ e.key = key ∧ e.value = value ∧ e.expireMs = expire ∧
      e.expired now = false
  newest : ∀ pos, taken base listing pos = newest base listing pos

def Agrees (base : Option File) (listing : List File) : Prop :=
  ∀ pos, match (baseSlots base).lookup pos with
    | some e => ∀ d ∈ (fileSlots (descending listing)).lookup pos, d = e
    | none => (fileSlots (descending (listing.take maxEpochFiles))).lookup pos =
        (fileSlots (descending listing)).lookup pos

theorem taken_eq_newest_iff (base : Option File) (listing : List File) :
    (∀ pos, taken base listing pos = newest base listing pos) ↔ Agrees base listing := by
  refine forall_congr' fun pos => ?_
  rw [taken, readOrder, newest, List.lookup_append, List.lookup_append]
  cases (baseSlots base).lookup pos with
  | none => simp
  | some e =>
    cases (fileSlots (descending listing)).lookup pos with
    | none => simp
    | some d => simp [eq_comm]

theorem applied_of_taken (wf : WellFormed base listing) {pos : Pos} {e : Entry}
    (same : taken base listing pos = newest base listing pos) (took : taken base listing pos = some e)
    (live : e.deleted = false) : applied base listing pos = some e := by
  rw [applied_eq wf, ← same, took, Option.bind_some, Entry.live, live]
  rfl

theorem keys_distinct (wf : WellFormed base listing) (same : ∀ pos, taken base listing pos = newest base listing pos) :
    ((snapEngineRestore now base listing).map Entry.key).Nodup := by
  have places := nodup_firsts [] (readOrder base listing)
  rw [List.Nodup, List.pairwise_map] at places
  rw [snapEngineRestore_eq, List.filter_map, List.map_map, List.Nodup, List.pairwise_map]
  refine (places.filter _).imp_of_mem ?_
  rintro ⟨p, d⟩ ⟨q, e⟩ first second apart equal
  simp only [List.mem_filter, Function.comp, Bool.and_eq_true, Bool.not_eq_true'] at first second
  refine apart (wf.keys p q d e ?_ ?_ equal)
  · exact applied_of_taken wf (same p) (mem_firsts.1 first.1).2 first.2.1
  · exact applied_of_taken wf (same q) (mem_firsts.1 second.1).2 second.2.1

theorem Recovers.of_same (now : Nat) (wf : WellFormed base listing)
    (same : ∀ pos, taken base listing pos = Snapshot.newest base listing pos) : Recovers now base listing := by
  refine ⟨fun key value expire => ?_, same⟩
  rw [ofList_eq (keys_distinct wf same)]
  constructor
  · rintro ⟨e, member, rfl, payload⟩
    obtain ⟨pos, took, live, kept⟩ := mem_snapEngineRestore.1 member
    rw [Prod.mk.injEq] at payload
    exact ⟨pos, e, applied_of_taken wf (same pos) took live, rfl, payload.1, payload.2, kept⟩
  · rintro ⟨pos, e, found, rfl, rfl, rfl, kept⟩
    rw [applied_eq wf, ← same, Option.bind_eq_some_iff] at found
    obtain ⟨d, took, live⟩ := found
    have alive : d.deleted = false := by
      cases deleted : d.deleted with
      | false => rfl
      | true => simp [Entry.live, deleted] at live
    rw [Entry.live, alive] at live
    cases live
    exact ⟨e, mem_snapEngineRestore.2 ⟨pos, took, alive, kept⟩, rfl, rfl⟩

theorem restore_recovers_iff (now : Nat) (wf : WellFormed base listing) : Recovers now base listing ↔ Agrees base listing := by
  rw [← taken_eq_newest_iff]
  exact ⟨Recovers.newest, Recovers.of_same now wf⟩

theorem Agrees.of_apart (few : listing.length ≤ maxEpochFiles)
    (apart : ∀ slot ∈ baseSlots base, (fileSlots (descending listing)).lookup slot.1 = none) : Agrees base listing := by
  intro pos
  rw [List.take_of_length_le few]
  cases found : (baseSlots base).lookup pos with
  | none => rfl
  | some e =>
    obtain ⟨before, after, split, -⟩ := List.lookup_eq_some_iff.1 found
    have gone := apart (pos, e) (by simp [split])
    simp [gone]

def baseA : File :=
  { sessionId := 7, epoch := 1
    records := [{ lpageIdx := 0, entries := [{ slotIndex := 63, key := [97], value := [49], expireMs := 0, deleted := false }] }] }

def deltaB : File :=
  { sessionId := 7, epoch := 2
    records := [{ lpageIdx := 0, entries := [{ slotIndex := 62, key := [98], value := [50], expireMs := 0, deleted := false }] }] }

def deltaDelA : File :=
  { sessionId := 7, epoch := 2
    records := [{ lpageIdx := 0, entries := [{ slotIndex := 63, key := [], value := [], expireMs := 0, deleted := true }] }] }

theorem wellFormed_pair {f g : File} (once : (f.slots.map Prod.fst).Nodup) (once' : (g.slots.map Prod.fst).Nodup)
    (later : f.sessionId = g.sessionId ∧ f.epoch < g.epoch)
    (keys : ∀ p q d e, applied (some f) [g] p = some d → applied (some f) [g] q = some e → d.key = e.key → p = q) :
    WellFormed (some f) [g] :=
  ⟨once, by simpa using once', by simpa using later, by simp, keys⟩

theorem restore_recovers_set : Recovers 0 (some baseA) [deltaB] := by
  have slots (pos : Pos) (e : Entry) : applied (some baseA) [deltaB] pos = some e →
      pos = (0, 62) ∧ e.key = [98] ∨ pos = (0, 63) ∧ e.key = [97] := by
    simp only [applied, descending, List.mergeSort_singleton, List.reverse_singleton, fileSlots, List.flatMap_singleton,
      deltaB, baseA, baseSlots, Option.map_some, Option.getD_some, File.slots, PageRecord.slots, List.map_cons,
      List.map_nil, List.foldl_cons, List.foldl_nil, applySlot, Entry.live, Function.update_apply]
    grind -ring -linarith
  refine (restore_recovers_iff 0 (wellFormed_pair (by decide) (by decide) (by decide) ?_)).2 ?_
  · intro p q d e first second equal
    rcases slots p d first with ⟨rfl, key⟩ | ⟨rfl, key⟩ <;> rcases slots q e second with ⟨rfl, key'⟩ | ⟨rfl, key'⟩ <;>
      simp_all
  · refine Agrees.of_apart (by decide) ?_
    simp only [descending, List.mergeSort_singleton]
    decide

theorem restore_keeps_deleted : WellFormed (some baseA) [deltaDelA] ∧
    (∀ pos, applied (some baseA) [deltaDelA] pos = none) ∧
    KeyMap.ofList (snapEngineRestore 0 (some baseA) [deltaDelA]) [97] = some ([49], 0) := by
  have removed (pos : Pos) : applied (some baseA) [deltaDelA] pos = none := by
    simp only [applied, descending, List.mergeSort_singleton, List.reverse_singleton, fileSlots, List.flatMap_singleton,
      deltaDelA, baseA, baseSlots, Option.map_some, Option.getD_some, File.slots, PageRecord.slots, List.map_cons,
      List.map_nil, List.foldl_cons, List.foldl_nil, applySlot, Entry.live, Function.update_apply]
    grind -ring -linarith
  refine ⟨wellFormed_pair (by decide) (by decide) (by decide) ?_, removed, ?_⟩
  · intro p q d e found
    rw [removed] at found
    cases found
  · simp [snapEngineRestore_eq, readOrder, descending, fileSlots, baseSlots, deltaDelA, baseA, File.slots,
      PageRecord.slots, firsts, Entry.expired, KeyMap.ofList, KeyMap.set, maxEpochFiles]

end Recovery

end FreakV.Snapshot
