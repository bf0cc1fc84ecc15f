import FreakV.Snapshot.Marks
import FreakV.Snapshot.Compact
import Mathlib.Data.List.Sort

namespace FreakV.Snapshot

section Trail

def PageWriter.ahead (p : PageWriter) : List (Pos × Nat) := p.slots.map fun x => ((p.lpage, x.1), x.2)

namespace Shard

variable (s : Shard)

def counted (lpage : Nat) : List (Pos × Nat) := ((s.dirtySlots lpage).getD []).map fun x => ((lpage, x.1), x.2)

def laterPages (w : Writer) : List Nat := (List.range w.nrPages).filter fun l => w.word * 64 ≤ l && s.snapDirtyBits l

def trail (w : Writer) : List (Pos × Nat) :=
  w.page.toList.flatMap PageWriter.ahead ++ (w.pages.filter (· < w.nrPages) ++ s.laterPages w).flatMap s.counted

end Shard

def along (obj : Nat → KvObj) : List (Pos × Nat) → List (Pos × Entry)
  | [] => []
  | (pos, ptr) :: rest => (pos, (obj ptr).entry pos.2) :: along (Function.update obj ptr (obj ptr).visited) rest

def visitAll (obj : Nat → KvObj) : List (Pos × Nat) → Nat → KvObj
  | [] => obj
  | (_, ptr) :: rest => visitAll (Function.update obj ptr (obj ptr).visited) rest

end Trail

namespace Shard

inductive Writes : Shard → Shard → List PageRecord → Prop
  | last {s t : Shard} {records : List PageRecord} (done : s.snapSerializeEpoch = some (t, some records)) :
      Writes s t records
  | step {s s' t : Shard} {records : List PageRecord} (moves : s.snapSerializeEpoch = some (s', none))
      (rest : Writes s' t records) : Writes s t records

theorem Writes.unique {s t t' : Shard} {records records' : List PageRecord} (first : Writes s t records)
    (second : Writes s t' records') : t = t' ∧ records = records' := by
  induction first with
  | last done =>
    cases second with
    | last done' => simp_all
    | step moves _ => simp_all
  | step moves rest ih =>
    cases second with
    | last done => simp_all
    | step moves' rest' =>
      rw [moves, Option.some.injEq, Prod.mk.injEq] at moves'
      exact ih (moves'.1 ▸ rest')

structure Onward (s t : Shard) : Prop where
  slots : t.cursor.slots ++ along t.obj (t.trail t.cursor) = s.cursor.slots ++ along s.obj (s.trail s.cursor)
  obj : visitAll t.obj (t.trail t.cursor) = visitAll s.obj (s.trail s.cursor)
  pages : t.pages = s.pages
  nrPages : t.nrPages = s.nrPages
  dirtyBits : t.dirtyBits = s.dirtyBits
  slotBits : t.slotBits = s.slotBits
  busy : t.isSnapshotting = s.isSnapshotting

end Shard

structure Writer.Ordered (w : Writer) : Prop where
  ascending : w.pages.Pairwise (· < ·)
  taken : ∀ l ∈ w.pages, l < w.word * 64
  page : ∀ p ∈ w.page, p.lpage < w.word * 64 ∧ p.lpage ∉ w.pages

namespace Shard

section Steps

variable {s t : Shard} {w : Writer}

theorem counted_congr {l : Nat} (pages : t.pages l = s.pages l) (bits : t.snapSlotBits l = s.snapSlotBits l) :
    t.counted l = s.counted l := by
  rw [counted, counted, dirtySlots, dirtySlots, pages, bits]

theorem take_word (bits : Nat → Bool) (n word : Nat) :
    (((List.range 64).map (word * 64 + ·)).filter bits).filter (· < n) ++
      (List.range n).filter (fun l => (word + 1) * 64 ≤ l && (if l / 64 = word then false else bits l)) =
    (List.range n).filter fun l => word * 64 ≤ l && bits l := by
  have ascending : ((List.range 64).map (word * 64 + ·)).Pairwise (· < ·) := by
    rw [List.pairwise_map]
    exact List.pairwise_lt_range.imp (by omega)
  refine List.Pairwise.eq_of_mem_iff (r := (· < ·)) ?_ (List.pairwise_lt_range.filter _) fun l => ?_
  · rw [List.pairwise_append]
    refine ⟨(ascending.filter _).filter _, List.pairwise_lt_range.filter _, fun l first l' second => ?_⟩
    simp only [List.mem_filter, List.mem_map, List.mem_range, Bool.and_eq_true, decide_eq_true_eq] at first second
    obtain ⟨⟨⟨k, below, rfl⟩, -⟩, -⟩ := first
    omega
  · simp only [List.mem_append, List.mem_filter, List.mem_map, List.mem_range, Bool.and_eq_true, decide_eq_true_eq]
    constructor
    · rintro (⟨⟨⟨k, below, rfl⟩, dirty⟩, inside⟩ | ⟨inside, beyond, dirty⟩)
      · exact ⟨inside, by omega, dirty⟩
      · rw [if_neg (by omega)] at dirty
        exact ⟨inside, by omega, dirty⟩
    · rintro ⟨inside, reached, dirty⟩
      by_cases here : l < (word + 1) * 64
      · exact .inl ⟨⟨⟨l - word * 64, by omega, by omega⟩, dirty⟩, inside⟩
      · rw [if_neg (by omega)]
        exact .inr ⟨inside, by omega, dirty⟩

theorem Onward.of_trail (trail : t.trail t.cursor = s.trail s.cursor) (slots : t.cursor.slots = s.cursor.slots)
    (obj : t.obj = s.obj) (pages : t.pages = s.pages) (nrPages : t.nrPages = s.nrPages)
    (dirtyBits : t.dirtyBits = s.dirtyBits) (slotBits : t.slotBits = s.slotBits)
    (busy : t.isSnapshotting = s.isSnapshotting) : Onward s t :=
  ⟨by rw [trail, slots, obj], by rw [trail, obj], pages, nrPages, dirtyBits, slotBits, busy⟩

theorem trail_takeWord (page : w.page = none) (pages : w.pages = []) :
    (s.takeWord w).trail
      { w with word := w.word + 1, pages := ((List.range 64).map (w.word * 64 + ·)).filter s.snapDirtyBits } = s.trail w := by
  have later := take_word s.snapDirtyBits w.nrPages w.word
  simp only [trail, laterPages, page, pages]
  rw [List.filter_nil, List.nil_append, ← later]
  rfl

theorem ordered_takeWord (page : w.page = none) (bits : Nat → Bool) :
    Writer.Ordered { w with word := w.word + 1, pages := ((List.range 64).map (w.word * 64 + ·)).filter bits } := by
  refine ⟨List.Pairwise.filter _ ?_, fun l member => ?_, fun p found => ?_⟩
  · rw [List.pairwise_map]
    exact List.pairwise_lt_range.imp (by omega)
  · obtain ⟨k, below, rfl⟩ := List.mem_map.1 (List.mem_filter.1 member).1
    have small := List.mem_range.1 below
    simp only
    omega
  · rw [page] at found
    cases found

section Page

variable {lpage : Nat} {rest : List Nat}

theorem trail_beyond (ordered : w.Ordered) (pages : w.pages = lpage :: rest) (beyond : w.nrPages ≤ lpage) :
    s.trail { w with pages := [] } = s.trail w := by
  have ascending := ordered.ascending
  rw [pages, List.pairwise_cons] at ascending
  have none : w.pages.filter (· < w.nrPages) = [] := by
    rw [pages, List.filter_eq_nil_iff]
    intro l member
    have above : lpage ≤ l := by
      obtain rfl | later := List.mem_cons.1 member
      · exact Nat.le_refl _
      · exact Nat.le_of_lt (ascending.1 l later)
    simp only [decide_eq_true_eq]
    omega
  simp only [trail, laterPages, none, List.filter_nil]

theorem trail_start (page : w.page = none) (pages : w.pages = lpage :: rest) (inside : ¬w.nrPages ≤ lpage) :
    s.trail { w with pages := rest, page := (s.dirtySlots lpage).map fun slots => { lpage := lpage, slots := slots } } =
      s.trail w := by
  have kept : w.pages.filter (· < w.nrPages) = lpage :: rest.filter (· < w.nrPages) := by
    rw [pages, List.filter_cons_of_pos (by simpa using inside)]
  have first : (((s.dirtySlots lpage).map fun slots => ({ lpage := lpage, slots := slots } : PageWriter)).toList.flatMap
      PageWriter.ahead) = s.counted lpage := by
    cases found : s.dirtySlots lpage <;> simp [counted, found, PageWriter.ahead]
  simp only [trail, laterPages, kept, page, first, List.cons_append, List.flatMap_cons, Option.toList_none, List.flatMap_nil,
    List.nil_append]

theorem ordered_startPage (s : Shard) (ordered : w.Ordered) (page : w.page = none) (pages : w.pages = lpage :: rest) :
    (s.startPage w lpage rest).cursor.Ordered := by
  have ascending := ordered.ascending
  have taken := ordered.taken
  rw [pages] at ascending taken
  rw [List.pairwise_cons] at ascending
  rw [Shard.startPage]
  split
  · exact ⟨List.Pairwise.nil, fun _ member => (List.not_mem_nil member).elim, fun p found => by rw [page] at found; cases found⟩
  · refine ⟨ascending.2, fun l member => taken l (List.mem_cons_of_mem _ member), fun p found => ?_⟩
    obtain ⟨slots, -, rfl⟩ := Option.mem_map.1 found
    exact ⟨taken lpage List.mem_cons_self, fun member => Nat.lt_irrefl _ (ascending.1 lpage member)⟩

end Page

theorem startPage_onward {lpage : Nat} {rest : List Nat} (ordered : w.Ordered) (page : w.page = none)
    (pages : w.pages = lpage :: rest) (here : s.cursor = w) : Onward s (s.startPage w lpage rest) := by
  rw [startPage]
  split
  next beyond =>
    refine .of_trail ?_ ?_ rfl rfl rfl rfl rfl rfl
    · rw [here]
      exact trail_beyond ordered pages beyond
    · rw [here]
      rfl
  next inside =>
    refine .of_trail ?_ ?_ rfl rfl rfl rfl rfl rfl
    · rw [here]
      exact trail_start page pages inside
    · rw [here]
      cases s.dirtySlots lpage <;> simp [Shard.cursor, Writer.slots, page, PageRecord.slots]

section Slot

variable {p : PageWriter}

theorem trail_page (s : Shard) (page : w.page = some p) : s.trail w = p.ahead ++ s.trail { w with page := none } := by
  simp [trail, page, laterPages]

theorem writeSlot_onward (page : w.page = some p) (here : s.cursor = w) {slot ptr : Nat} {rest : List (Nat × Nat)}
    (slots : p.slots = (slot, ptr) :: rest) : Onward s (s.writeSlot w p slot ptr rest) := by
  let p' : PageWriter := { p with slots := rest, entries := p.entries ++ [(s.obj ptr).entry slot] }
  have before : s.trail s.cursor = ((p.lpage, slot), ptr) :: s.trail { w with page := some p' } := by
    have after : s.trail { w with page := some p' } = p'.ahead ++ s.trail { w with page := none } := trail_page s rfl
    rw [here, trail_page s page, after, PageWriter.ahead, slots]
    rfl
  refine ⟨?_, ?_, rfl, rfl, rfl, rfl, rfl⟩
  · rw [before, slots_writeSlot s page, here, along, List.append_assoc]
    rfl
  · rw [before, visitAll]
    rfl

theorem finishPage_onward (page : w.page = some p) (here : s.cursor = w) (ordered : w.Ordered) (slots : p.slots = []) :
    Onward s (s.finishPage w p) := by
  obtain ⟨early, away⟩ := ordered.page p page
  refine .of_trail ?_ ?_ rfl rfl rfl rfl rfl rfl
  · rw [here, trail_page s page, PageWriter.ahead, slots, List.map_nil, List.nil_append]
    -- the bits that are cleared are those of a page that is not ahead
    refine List.flatMap_congr fun l member => counted_congr rfl ?_
    have other : l ≠ p.lpage := by
      rintro rfl
      obtain member | member := List.mem_append.1 member
      · exact away (List.mem_filter.1 member).1
      · have late := (List.mem_filter.1 member).2
        rw [Bool.and_eq_true, decide_eq_true_eq] at late
        exact absurd late.1 (Nat.not_le.2 early)
    funext k
    exact if_neg other
  · rw [here, slots_finishPage s page]

end Slot

theorem takeWord_onward (here : s.cursor = w) (page : w.page = none) (pages : w.pages = []) : Onward s (s.takeWord w) := by
  refine .of_trail ?_ ?_ rfl rfl rfl rfl rfl rfl
  · rw [here]
    exact trail_takeWord page pages
  · rw [here]
    rfl

end Steps

section Run

variable {s t u : Shard}

structure Outcome (s t : Shard) (records : List PageRecord) : Prop where
  slots : records.flatMap PageRecord.slots = s.cursor.slots ++ along s.obj (s.trail s.cursor)
  obj : t.obj = visitAll s.obj (s.trail s.cursor)
  pages : t.pages = s.pages
  nrPages : t.nrPages = s.nrPages
  dirtyBits : t.dirtyBits = s.dirtyBits
  slotBits : t.slotBits = s.slotBits
  idle : t.isSnapshotting = false
  writer : t.writer = none

theorem Outcome.before {records : List PageRecord} (outcome : Outcome t u records) (onward : Onward s t) : Outcome s u records :=
  ⟨outcome.slots.trans onward.slots, outcome.obj.trans onward.obj, outcome.pages.trans onward.pages,
    outcome.nrPages.trans onward.nrPages, outcome.dirtyBits.trans onward.dirtyBits,
    outcome.slotBits.trans onward.slotBits, outcome.idle, outcome.writer⟩

theorem Onward.ends {s' : Shard} (onward : Onward s s') (moves : s.snapSerializeEpoch = some (s', none))
    (rest : ∃ t records, Writes s' t records ∧ Outcome s' t records) : ∃ t records, Writes s t records ∧ Outcome s t records := by
  obtain ⟨t, records, writes, outcome⟩ := rest
  exact ⟨t, records, .step moves writes, outcome.before onward⟩

theorem writes (s : Shard) (busy : s.isSnapshotting = true) (ordered : s.cursor.Ordered) :
    ∃ t records, Writes s t records ∧ Outcome s t records := by
  cases here : s.writer with
  | none =>
    have moves := serializes_iff.2 ⟨busy, .start here⟩
    have cursor : s.cursor = { nrPages := s.nrPages } := by simp [Shard.cursor, here]
    have onward : Onward s { s with writer := some { nrPages := s.nrPages } } := by
      refine .of_trail ?_ ?_ rfl rfl rfl rfl rfl rfl
      · rw [cursor]
        rfl
      · rw [cursor]
        rfl
    exact onward.ends moves (writes { s with writer := some { nrPages := s.nrPages } } busy (cursor ▸ ordered))
  | some w =>
    have cursor : s.cursor = w := by simp [Shard.cursor, here]
    rw [cursor] at ordered
    cases page : w.page with
    | some p =>
      have place := ordered.page p page
      cases slots : p.slots with
      | cons visit rest =>
        obtain ⟨slot, ptr⟩ := visit
        have moves := serializes_iff.2 ⟨busy, .writeSlot here page slots⟩
        refine (writeSlot_onward page cursor slots).ends moves (writes (s.writeSlot w p slot ptr rest) busy ?_)
        refine ⟨ordered.ascending, ordered.taken, ?_⟩
        rintro _ ⟨⟩
        exact place
      | nil =>
        have moves := serializes_iff.2 ⟨busy, .finishPage here page slots⟩
        refine (finishPage_onward page cursor ordered slots).ends moves (writes (s.finishPage w p) busy ?_)
        exact ⟨ordered.ascending, ordered.taken, by rintro _ ⟨⟩⟩
    | none =>
      cases pages : w.pages with
      | cons lpage rest =>
        have moves := serializes_iff.2 ⟨busy, .startPage here page pages⟩
        have still : (s.startPage w lpage rest).isSnapshotting = true := by
          rw [startPage]
          split <;> exact busy
        exact (startPage_onward ordered page pages cursor).ends moves
          (writes (s.startPage w lpage rest) still (ordered_startPage s ordered page pages))
      | nil =>
        by_cases more : w.word < (w.nrPages + 63) / 64
        · have moves := serializes_iff.2 ⟨busy, .takeWord here page pages more⟩
          exact (takeWord_onward cursor page pages).ends moves
            (writes (s.takeWord w) busy (ordered_takeWord page s.snapDirtyBits))
        · refine ⟨{ s with isSnapshotting := false, writer := none }, w.records, .last ?_, ?_⟩
          · exact serializes_iff.2 ⟨busy, .finish here page pages more⟩
          · have empty : s.trail s.cursor = [] := by
              have past : s.laterPages w = [] := by
                rw [laterPages, List.filter_eq_nil_iff]
                intro l inside
                have below := List.mem_range.1 inside
                simp only [Bool.and_eq_true, decide_eq_true_eq, not_and]
                omega
              simp [trail, cursor, page, pages, past]
            refine ⟨?_, ?_, rfl, rfl, rfl, rfl, rfl, rfl⟩
            · rw [empty, cursor]
              simp [Writer.slots, page, along]
            · rw [empty]
              rfl
termination_by ((s.cursor.nrPages + 63) / 64 - s.cursor.word, s.cursor.pages.length,
  s.cursor.page.elim 0 fun p => p.slots.length + 1, if s.writer = none then 1 else 0)
decreasing_by
  · simp [Shard.cursor, here, Prod.lex_def]
  · simp [Shard.cursor, takeWord, here, Prod.lex_def]
    omega
  · by_cases beyond : w.nrPages ≤ lpage <;> simp [Shard.cursor, startPage, beyond, here, pages, Prod.lex_def]
  · simp [Shard.cursor, finishPage, here, page, Prod.lex_def]
  · simp [Shard.cursor, writeSlot, here, page, slots, Prod.lex_def]

end Run

end Shard

section Positions

variable {s : Shard} {w : Writer}

theorem map_fst_along (obj : Nat → KvObj) (visits : List (Pos × Nat)) :
    (along obj visits).map Prod.fst = visits.map Prod.fst := by
  induction visits generalizing obj with
  | nil => rfl
  | cons visit rest ih => rw [along, List.map_cons, List.map_cons, ih]

structure Writer.Sound (w : Writer) : Prop extends w.Ordered where
  inside : ∀ p ∈ w.page, p.lpage < w.nrPages
  once : ∀ p ∈ w.page, (p.slots.map Prod.fst).Nodup ∧ ∀ x ∈ p.slots, x.1 < snapModifiedSize * 8
  written : Recorded w.slots
  behind : ∀ slot ∈ w.slots, slot.1.1 < w.nrPages ∧ slot.1.1 < w.word * 64 ∧ slot.1.1 ∉ w.pages ∧
    ∀ p ∈ w.page, slot.1.1 = p.lpage → slot.1.2 ∉ p.slots.map Prod.fst

theorem Writer.Sound.fresh (n : Nat) : Writer.Sound { nrPages := n } where
  ascending := List.Pairwise.nil
  taken := by simp
  page := by simp
  inside := by simp
  once := by simp
  written := ⟨by simp [Writer.slots], by simp [Writer.slots]⟩
  behind := by simp [Writer.slots]

theorem Shard.dirtySlots_once {l : Nat} {slots : List (Nat × Nat)} (dirty : s.dirtySlots l = some slots) :
    (slots.map Prod.fst).Nodup ∧ ∀ x ∈ slots, x.1 < snapModifiedSize * 8 := by
  rw [dirtySlots] at dirty
  split at dirty
  next objSize firstOff count geometry =>
    split at dirty
    · cases dirty
    · cases dirty
      constructor
      · simp only [List.map_map]
        refine (List.nodup_range.filter _).map ?_
        exact fun _ _ same => same
      · intro x member
        obtain ⟨k, found, rfl⟩ := List.mem_map.1 member
        have below := List.mem_range.1 (List.mem_filter.1 found).1
        simp only
        omega
  · cases dirty

theorem Shard.counted_once (s : Shard) (l : Nat) :
    ((s.counted l).map Prod.fst).Nodup ∧ ∀ x ∈ s.counted l, x.1.1 = l ∧ x.1.2 < snapModifiedSize * 8 := by
  rw [counted]
  cases dirty : s.dirtySlots l with
  | none => simp
  | some slots =>
    obtain ⟨once, small⟩ := dirtySlots_once dirty
    rw [Option.getD_some, List.map_map]
    constructor
    · rw [List.Nodup, List.pairwise_map] at once ⊢
      exact once.imp fun apart same => apart (Prod.mk.inj same).2
    · intro x member
      obtain ⟨y, slot, rfl⟩ := List.mem_map.1 member
      exact ⟨rfl, small y slot⟩

def Shard.pagesAhead (s : Shard) (w : Writer) : List Nat := w.pages.filter (· < w.nrPages) ++ s.laterPages w

theorem Shard.mem_pagesAhead {l : Nat} :
    l ∈ s.pagesAhead w ↔ l < w.nrPages ∧ (l ∈ w.pages ∨ w.word * 64 ≤ l ∧ s.snapDirtyBits l = true) := by
  simp only [pagesAhead, laterPages, List.mem_append, List.mem_filter, List.mem_range, decide_eq_true_eq, Bool.and_eq_true]
  tauto

theorem Shard.pagesAhead_once (s : Shard) (ordered : w.Ordered) : (s.pagesAhead w).Nodup := by
  rw [pagesAhead, List.nodup_append]
  refine ⟨(ordered.ascending.filter _).nodup, List.nodup_range.filter _, ?_⟩
  rintro l first _ second rfl
  have early := ordered.taken l (List.mem_filter.1 first).1
  have late := (List.mem_filter.1 second).2
  simp only [Bool.and_eq_true, decide_eq_true_eq] at late
  omega

theorem Shard.counted_pages_once (s : Shard) {pages : List Nat} (distinct : pages.Nodup) :
    ((pages.flatMap s.counted).map Prod.fst).Nodup := by
  rw [List.map_flatMap, List.nodup_flatMap]
  refine ⟨fun l _ => (s.counted_once l).1, distinct.imp fun {l l'} apart => ?_⟩
  rintro pos first second
  obtain ⟨x, member, rfl⟩ := List.mem_map.1 first
  obtain ⟨y, member', same⟩ := List.mem_map.1 second
  have page := ((s.counted_once l).2 x member).1
  have page' := ((s.counted_once l').2 y member').1
  rw [same, page] at page'
  exact apart page'

section Sound

variable (s) (sound : w.Sound)

include sound

theorem Shard.trail_place {x : Pos × Nat} (member : x ∈ s.trail w) : x.1.2 < snapModifiedSize * 8 ∧
    ((∃ p ∈ w.page, x.1.1 = p.lpage ∧ x.1.2 ∈ p.slots.map Prod.fst) ∨ x.1.1 ∈ s.pagesAhead w) := by
  obtain page | later := List.mem_append.1 member
  · obtain ⟨p, found, ahead⟩ := List.mem_flatMap.1 page
    obtain ⟨y, slot, rfl⟩ := List.mem_map.1 ahead
    have here := Option.mem_toList.1 found
    exact ⟨(sound.once p here).2 y slot, .inl ⟨p, here, rfl, List.mem_map_of_mem slot⟩⟩
  · obtain ⟨l, taken, counted⟩ := List.mem_flatMap.1 later
    obtain ⟨page, small⟩ := (s.counted_once l).2 x counted
    exact ⟨small, .inr (page ▸ taken)⟩

theorem Shard.trail_once : ((s.trail w).map Prod.fst).Nodup := by
  rw [trail, List.map_append, List.nodup_append]
  refine ⟨?_, s.counted_pages_once (s.pagesAhead_once sound.toOrdered), ?_⟩
  · cases page : w.page with
    | none => simp
    | some p =>
      have distinct := (sound.once p page).1
      simp only [Option.toList_some, List.flatMap_singleton, PageWriter.ahead, List.map_map]
      rw [List.Nodup, List.pairwise_map] at distinct ⊢
      exact distinct.imp fun apart same => apart (Prod.mk.inj same).2
  · intro pos first pos' second same
    obtain ⟨x, member, rfl⟩ := List.mem_map.1 first
    obtain ⟨y, member', rfl⟩ := List.mem_map.1 second
    obtain ⟨p, found, ahead⟩ := List.mem_flatMap.1 member
    obtain ⟨z, slot, rfl⟩ := List.mem_map.1 ahead
    obtain ⟨l, taken, counted⟩ := List.mem_flatMap.1 member'
    have page := ((s.counted_once l).2 y counted).1
    rw [← same] at page
    obtain ⟨early, away⟩ := sound.page p (Option.mem_toList.1 found)
    have ahead := Shard.mem_pagesAhead.1 taken
    simp only at page
    rw [← page] at ahead
    obtain ⟨-, taken | ⟨late, -⟩⟩ := ahead
    · exact away taken
    · omega

theorem Shard.file_recorded (obj : Nat → KvObj) : Recorded (w.slots ++ along obj (s.trail w)) ∧
    ∀ slot ∈ w.slots ++ along obj (s.trail w), slot.1.1 < w.nrPages := by
  have back {slot : Pos × Entry} (member : slot ∈ along obj (s.trail w)) : ∃ x ∈ s.trail w, x.1 = slot.1 := by
    have fst := List.mem_map_of_mem (f := Prod.fst) member
    rw [map_fst_along] at fst
    exact List.mem_map.1 fst
  refine ⟨⟨?_, ?_⟩, ?_⟩
  · rw [List.map_append, map_fst_along, List.nodup_append]
    refine ⟨sound.written.once, s.trail_once sound, ?_⟩
    intro pos first pos' second same
    obtain ⟨slot, member, rfl⟩ := List.mem_map.1 first
    obtain ⟨x, ahead, rfl⟩ := List.mem_map.1 second
    obtain ⟨-, early, away, apart⟩ := sound.behind slot member
    rw [same] at early away apart
    obtain ⟨-, ⟨p, here, page, left⟩ | later⟩ := s.trail_place sound ahead
    · exact apart p here page left
    · obtain ⟨-, taken | ⟨late, -⟩⟩ := Shard.mem_pagesAhead.1 later
      · exact away taken
      · omega
  · intro slot member
    obtain member | member := List.mem_append.1 member
    · exact sound.written.small slot member
    · obtain ⟨x, ahead, same⟩ := back member
      exact same ▸ (s.trail_place sound ahead).1
  · intro slot member
    obtain member | member := List.mem_append.1 member
    · exact (sound.behind slot member).1
    · obtain ⟨x, ahead, same⟩ := back member
      obtain ⟨-, ⟨p, here, page, -⟩ | later⟩ := s.trail_place sound ahead
      · rw [← same, page]
        exact sound.inside p here
      · exact same ▸ (Shard.mem_pagesAhead.1 later).1

end Sound

end Positions

namespace Shard

variable {s : Shard}

structure Steady (s : Shard) : Prop where
  writer : s.cursor.Sound
  inside : s.cursor.nrPages ≤ s.nrPages
  few : s.nrPages ≤ 2 ^ 20
  idle : s.isSnapshotting = false → s.writer = none

end Shard

end FreakV.Snapshot
