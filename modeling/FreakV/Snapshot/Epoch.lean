import FreakV.Snapshot.Marking

namespace FreakV.Snapshot

open Snapshot.Shard

variable {s s' last : Shard} {marked left : List Mark} {m : Mark} {t : Traced}

section Serialize

variable {w : Writer} {p : PageWriter} {slot ptr lpage : Nat}

theorem Shard.cursor_eq (writer : s.writer = some w) : s.cursor = w := by rw [Shard.cursor, writer, Option.getD_some]

structure WriterOnly (s s' : Shard) : Prop where
  pages : s'.pages = s.pages
  nrPages : s'.nrPages = s.nrPages
  obj : s'.obj = s.obj
  used : s'.used = s.used
  dirtyBits : s'.dirtyBits = s.dirtyBits
  slotBits : s'.slotBits = s.slotBits
  table : s'.table = s.table

theorem WriterOnly.steady (only : WriterOnly s s') (used : s.used ptr = true) : Steady s s' ptr :=
  ⟨only.used ▸ used, congrFun only.pages _, congrFun only.obj _⟩

theorem WriterOnly.flags (only : WriterOnly t.shard s') (tracks : Tracks t) :
    Layout s' ∧ Active s' t.marked ∧ Flags s' t.last t.marked t.left := by
  have recent := fun m member => only.steady (tracks.active.pinned m member).used
  have old := fun m member => only.steady (tracks.ahead.pinned m member).used
  refine ⟨tracks.layout.congr only.pages only.nrPages only.used fun ptr => ?_, ?_, ?_⟩
  · rw [sizeAt, sizeAt, only.obj]
  · exact tracks.active.frame only.dirtyBits only.slotBits
      fun m member => (tracks.active.pinned m member).steady (recent m member)
  · exact tracks.flags.frame only.table (fun m member => (recent m member).obj) (fun m member => (old m member).obj)
      fun key ptr found => only.steady (tracks.flags.table key ptr found).used

theorem Tracks.write (tracks : Tracks t) (s' : Shard) (only : WriterOnly t.shard s') (on : s'.isSnapshotting = true)
    (ahead : (∀ m ∈ t.left, Pinned s' m) → (∀ m ∈ t.left, s'.InPage m.ptr) → Ahead s' t.left)
    (slots : s'.cursor.slots = t.done.map (Traced.owed t.last)) : Tracks { t with shard := s' } := by
  obtain ⟨layout, active, flags⟩ := only.flags tracks
  have old := fun m member => only.steady (tracks.ahead.pinned m member).used
  refine ⟨layout, active, ahead ?_ ?_, flags, tracks.split, tracks.once, fun off => ?_, fun _ => slots⟩
  · exact fun m member => (tracks.ahead.pinned m member).steady (old m member)
  · exact fun m member => InPage.steady (tracks.ahead.fits m member) (old m member).page
  · rw [on] at off
    cases off

theorem Tracks.start (tracks : Tracks t) (writer : t.shard.writer = none) (on : t.shard.isSnapshotting = true) :
    Tracks { t with shard := { t.shard with writer := some { nrPages := t.shard.nrPages } } } := by
  have cursor : t.shard.cursor = { nrPages := t.shard.nrPages } := by rw [Shard.cursor, writer, Option.getD_none]
  have ahead := tracks.ahead
  refine tracks.write { t.shard with writer := some { nrPages := t.shard.nrPages } }
    ⟨rfl, rfl, rfl, rfl, rfl, rfl, rfl⟩ on (fun pinned fits => ?_) (cursor ▸ tracks.busy on)
  exact ⟨ahead.nodup, pinned, fits, cursor ▸ ahead.below, cursor ▸ ahead.dirty, cursor ▸ ahead.slots,
    cursor ▸ ahead.reach, cursor ▸ ahead.pages, cursor ▸ ahead.page⟩

theorem Tracks.takeWord (tracks : Tracks t) (writer : t.shard.writer = some w) (on : t.shard.isSnapshotting = true)
    (page : w.page = none) (pages : w.pages = []) : Tracks { t with shard := t.shard.takeWord w } := by
  have cursor := cursor_eq writer
  have ahead := tracks.ahead
  have dirty := cursor ▸ ahead.dirty
  refine tracks.write (t.shard.takeWord w) ⟨rfl, rfl, rfl, rfl, rfl, rfl, rfl⟩ on (fun pinned fits => ?_)
    (cursor ▸ tracks.busy on)
  refine ⟨ahead.nodup, pinned, fits, cursor ▸ ahead.below, fun l => ?_, ?_, fun m member => ?_, ⟨?_, fun l member => ?_⟩, ?_⟩
  · have bit := dirty l
    simp only [Shard.takeWord, Shard.cursor, Option.getD_some]
    split
    next here =>
      simp only [Bool.false_eq_true, false_iff, not_and]
      omega
    next other =>
      rw [bit]
      exact and_congr_left fun _ => by omega
  · exact cursor ▸ ahead.slots
  · have before : w.word ≤ m.pos.1 / 64 := by
      have reach := ahead.reach m member
      rw [cursor, pages, page] at reach
      simpa using reach
    simp only [Shard.takeWord, Shard.cursor, Option.getD_some, page, List.mem_filter, List.mem_map, List.mem_range]
    rcases Nat.lt_or_ge w.word (m.pos.1 / 64) with later | now
    · exact .inl later
    · refine .inr (.inl ⟨⟨m.pos.1 % 64, Nat.mod_lt _ (by decide), ?_⟩, (dirty _).2 ⟨before, m, member, rfl⟩⟩)
      omega
  · exact (List.Nodup.map (fun a b same => by simpa using same) List.nodup_range).filter _
  · simp only [Shard.takeWord, Shard.cursor, Option.getD_some, List.mem_filter, List.mem_map, List.mem_range] at member ⊢
    obtain ⟨⟨i, below, rfl⟩, set⟩ := member
    exact ⟨by omega, ((dirty _).1 set).2⟩
  · simp [Shard.takeWord, Shard.cursor, page]

theorem Tracks.dirtySlots (tracks : Tracks t) (member : m ∈ t.left) (away : ∀ p ∈ t.shard.cursor.page, p.lpage ≠ m.pos.1) :
    ∃ slots, t.shard.dirtySlots m.pos.1 = some slots ∧ slots.Nodup ∧
      ∀ x, x ∈ slots ↔ ⟨x.2, (m.pos.1, x.1)⟩ ∈ t.left := by
  -- every mark on the page has its slot counted, at one geometry
  have counted {m' : Mark} (member' : m' ∈ t.left) : ∃ size off slots,
      slotsInPage (t.shard.pages m'.pos.1) = some (size, off, slots) ∧ m'.pos.2 < slots ∧
        m'.pos.2 < snapModifiedSize * 8 ∧ m'.pos.1 * lpageSize + (off + m'.pos.2 * size) = m'.ptr := by
    have pinned := tracks.ahead.pinned m' member'
    have located := tracks.layout.located _ pinned.used
    obtain ⟨size, off, slots, geometry, below, addr⟩ := located.slot_counted (tracks.ahead.fits m' member')
    rw [pinned.pos]
    exact ⟨size, off, slots, geometry, below, located.slot_small, addr⟩
  obtain ⟨size, off, count, geometry, below, -, -⟩ := counted member
  unfold Shard.dirtySlots
  simp only [geometry]
  rw [if_neg (by omega)]
  refine ⟨_, rfl, List.Nodup.map (fun a b same => (Prod.mk.inj same).1) (List.nodup_range.filter _), fun x => ?_⟩
  obtain ⟨k, ptr⟩ := x
  simp only [List.mem_map, List.mem_filter, List.mem_range, Prod.mk.injEq]
  constructor
  · rintro ⟨k', ⟨-, set⟩, rfl, rfl⟩
    obtain ⟨m', member', same⟩ := (tracks.ahead.slots _ _ away).1 set
    obtain ⟨size', off', count', geometry', -, -, addr⟩ := counted member'
    obtain ⟨q, l, j⟩ := m'
    cases same
    rw [geometry, Option.some.injEq, Prod.mk.injEq, Prod.mk.injEq] at geometry'
    obtain ⟨rfl, rfl, rfl⟩ := geometry'
    simp only at addr
    rw [addr]
    exact member'
  · intro member'
    obtain ⟨size', off', count', geometry', less, small, addr⟩ := counted member'
    simp only at geometry' less small addr
    rw [geometry, Option.some.injEq, Prod.mk.injEq, Prod.mk.injEq] at geometry'
    obtain ⟨rfl, rfl, rfl⟩ := geometry'
    exact ⟨k, ⟨lt_min less small, (tracks.ahead.slots _ _ away).2 ⟨_, member', rfl⟩⟩, rfl, addr⟩

theorem Tracks.startPage {rest : List Nat} (tracks : Tracks t) (writer : t.shard.writer = some w)
    (on : t.shard.isSnapshotting = true) (page : w.page = none) (pages : w.pages = lpage :: rest) :
    Tracks { t with shard := t.shard.startPage w lpage rest } := by
  have cursor := cursor_eq writer
  have ahead := tracks.ahead
  have listed := ahead.pages
  rw [cursor, pages, List.nodup_cons] at listed
  obtain ⟨⟨fresh, once⟩, taken⟩ := listed
  obtain ⟨word, m, member, here⟩ := taken lpage List.mem_cons_self
  have below : lpage < w.nrPages := by
    have less := ahead.below m member
    rwa [cursor, here] at less
  obtain ⟨slots, found, distinct, marks⟩ := tracks.dirtySlots member (by simp [cursor, page])
  rw [here] at found marks
  have shape : t.shard.startPage w lpage rest =
      { t.shard with writer := some { w with pages := rest, page := some { lpage := lpage, slots := slots } } } := by
    rw [Shard.startPage, if_neg (Nat.not_le_of_lt below), found, Option.map_some]
  rw [shape]
  refine tracks.write
    { t.shard with writer := some { w with pages := rest, page := some { lpage := lpage, slots := slots } } }
    ⟨rfl, rfl, rfl, rfl, rfl, rfl, rfl⟩ on (fun pinned fits => ?_) ?_
  · refine ⟨ahead.nodup, pinned, fits, cursor ▸ ahead.below, cursor ▸ ahead.dirty, fun l k _ => ?_, fun m' member' => ?_,
      ⟨once, fun l later => taken l (List.mem_cons_of_mem _ later)⟩, fun p current => ?_⟩
    · exact ahead.slots l k (by simp [cursor, page])
    · have reach := ahead.reach m' member'
      rw [cursor, pages, page] at reach
      simp only [List.mem_cons, Option.mem_def, reduceCtorEq, false_and, exists_false, or_false] at reach
      rcases reach with later | same | other
      · exact .inl later
      · refine .inr (.inr ⟨_, rfl, same.symm, (marks _).2 ?_⟩)
        rw [← same]
        exact member'
      · exact .inr (.inl other)
    · cases current
      exact ⟨word, fresh, distinct, fun x member' => (marks x).1 member'⟩
  · have before := tracks.busy on
    rw [cursor] at before
    simpa [Shard.cursor, Writer.slots, page, PageRecord.slots] using before

theorem Tracks.finishPage (tracks : Tracks t) (writer : t.shard.writer = some w) (on : t.shard.isSnapshotting = true)
    (page : w.page = some p) (slots : p.slots = []) : Tracks { t with shard := t.shard.finishPage w p } := by
  have cursor := cursor_eq writer
  have ahead := tracks.ahead
  obtain ⟨word, fresh, -, -⟩ := ahead.page p (by simp [cursor, page])
  rw [cursor] at word fresh
  have reach : ∀ m ∈ t.left, w.word ≤ m.pos.1 / 64 ∨ m.pos.1 ∈ w.pages := by
    intro m member
    have before := ahead.reach m member
    rw [cursor, page] at before
    simpa [slots] using before
  have away : ∀ m ∈ t.left, m.pos.1 ≠ p.lpage := by
    intro m member same
    rcases reach m member with later | listed
    · rw [same] at later
      omega
    · exact fresh (same ▸ listed)
  refine tracks.write (t.shard.finishPage w p) ⟨rfl, rfl, rfl, rfl, rfl, rfl, rfl⟩ on (fun pinned fits => ?_) ?_
  · refine ⟨ahead.nodup, pinned, fits, cursor ▸ ahead.below, cursor ▸ ahead.dirty, fun l k _ => ?_, fun m member => ?_,
      cursor ▸ ahead.pages, by simp [Shard.finishPage, Shard.cursor]⟩
    · simp only [Shard.finishPage]
      split
      next here =>
        simp only [Bool.false_eq_true, false_iff, not_exists, not_and]
        intro m member same
        exact away m member (by rw [same, here])
      next other => exact ahead.slots l k (by simpa [cursor, page] using Ne.symm other)
    · exact (reach m member).imp_right .inl
  · have before := tracks.busy on
    rw [cursor] at before
    rw [slots_finishPage t.shard page, before]

theorem Tracks.finish (tracks : Tracks t) (writer : t.shard.writer = some w) (on : t.shard.isSnapshotting = true)
    (page : w.page = none) (pages : w.pages = []) (last : (w.nrPages + 63) / 64 ≤ w.word) :
    Tracks { t with shard := { t.shard with isSnapshotting := false, writer := none }, file := w.records } := by
  have cursor := cursor_eq writer
  have ahead := tracks.ahead
  have all : t.left = [] := by
    rw [List.eq_nil_iff_forall_not_mem]
    intro m member
    have reach := ahead.reach m member
    have below := ahead.below m member
    rw [cursor, pages, page] at reach
    rw [cursor] at below
    have word : w.word ≤ m.pos.1 / 64 := by simpa using reach
    omega
  have only : WriterOnly t.shard { t.shard with isSnapshotting := false, writer := none } :=
    ⟨rfl, rfl, rfl, rfl, rfl, rfl, rfl⟩
  obtain ⟨layout, active, flags⟩ := only.flags tracks
  refine ⟨layout, active, ?_, flags, tracks.split, tracks.once, fun _ => ⟨rfl, all, ?_⟩, by simp⟩
  · have dirty := ahead.dirty
    have slots := ahead.slots
    rw [all] at dirty slots ⊢
    refine ⟨List.nodup_nil, by simp, by simp, by simp, fun l => ?_, fun l k _ => ?_, by simp, by simp [Shard.cursor],
      by simp [Shard.cursor]⟩
    · simpa using dirty l
    · exact slots l k (by simp [cursor, page])
  · have before := tracks.busy on
    rw [cursor] at before
    simpa [Writer.slots, page] using before

theorem Kept.entry {before after : KvObj} (kept : Kept before after) (slot : Nat) : after.entry slot = before.entry slot := by
  unfold KvObj.entry
  rw [kept.key, kept.value, kept.expireMs]
  rcases kept.flag with ⟨fresh, now | now⟩ | ⟨safe, now⟩
  · simp [fresh, now]
  · simp [fresh, now]
  · simp [safe, now]

theorem KvObj.visited_lengths (o : KvObj) : o.visited.keyLen = o.keyLen ∧ o.visited.valLen = o.valLen ∧
    o.visited.key = o.key := by
  unfold KvObj.visited
  split <;> exact ⟨rfl, rfl, rfl⟩

theorem writeSlot_obj (s : Shard) (rest : List (Nat × Nat)) (q : Nat) : (s.writeSlot w p slot ptr rest).obj q =
    if q = ptr then (s.obj ptr).visited else s.obj q := Function.update_apply ..

structure Turn (t : Traced) (w : Writer) (p : PageWriter) (slot ptr : Nat) (rest : List (Nat × Nat)) : Prop where
  tracks : Tracks t
  writer : t.shard.writer = some w
  page : w.page = some p
  slots : p.slots = (slot, ptr) :: rest

namespace Turn

variable {rest : List (Nat × Nat)} (turn : Turn t w p slot ptr rest)

include turn

theorem listed : ∀ x ∈ (slot, ptr) :: rest, ⟨x.2, (p.lpage, x.1)⟩ ∈ t.left := by
  obtain ⟨-, -, -, listed⟩ := turn.tracks.ahead.page p (by simp [cursor_eq turn.writer, turn.page])
  rwa [turn.slots] at listed

theorem member : ⟨ptr, (p.lpage, slot)⟩ ∈ t.left := turn.listed (slot, ptr) List.mem_cons_self

theorem pinned : Pinned t.shard ⟨ptr, (p.lpage, slot)⟩ := turn.tracks.ahead.pinned _ turn.member

theorem only (pinned : Pinned t.shard m) (here : m.ptr = ptr) : m = ⟨ptr, (p.lpage, slot)⟩ := by
  rw [pinned.eq_mk, here]
  exact turn.pinned.eq_mk.symm

theorem others (still : m ∈ t.left.erase ⟨ptr, (p.lpage, slot)⟩) : m ∈ t.left ∧ m.ptr ≠ ptr := by
  rw [turn.tracks.ahead.nodup.mem_erase_iff] at still
  exact ⟨still.2, fun here => still.1 (turn.only (turn.tracks.ahead.pinned m still.2) here)⟩

theorem stays (before : m ∈ t.left) (other : m.pos ≠ (p.lpage, slot)) : m ∈ t.left.erase ⟨ptr, (p.lpage, slot)⟩ := by
  rw [turn.tracks.ahead.nodup.mem_erase_iff]
  exact ⟨fun same => other (by rw [same]), before⟩

omit turn in
theorem steady {q : Nat} (used : t.shard.used q = true) (other : q ≠ ptr) :
    Steady t.shard (t.shard.writeSlot w p slot ptr rest) q := ⟨used, rfl, by rw [writeSlot_obj, if_neg other]⟩

theorem pending (marked : m ∈ t.marked) (here : m.ptr = ptr) : (t.shard.obj ptr).snapFlag = .deadPending :=
  turn.tracks.flags.both _ turn.member (turn.only (turn.tracks.active.pinned m marked) here ▸ marked)

theorem layout : Layout (t.shard.writeSlot w p slot ptr rest) := by
  refine turn.tracks.layout.congr rfl rfl rfl fun q => ?_
  rw [sizeAt, sizeAt, writeSlot_obj]
  split
  next here => rw [here, (KvObj.visited_lengths _).1, (KvObj.visited_lengths _).2.1]
  · rfl

theorem active : Active (t.shard.writeSlot w p slot ptr rest) t.marked := by
  refine turn.tracks.active.frame rfl rfl fun m marked => ?_
  have pinned := turn.tracks.active.pinned m marked
  by_cases here : m.ptr = ptr
  · refine ⟨pinned.used, ?_, pinned.pos⟩
    rw [writeSlot_obj, if_pos here, KvObj.visited, turn.pending marked here]
    exact here ▸ pinned.held
  · exact pinned.steady (steady pinned.used here)

theorem page_rest (distinct : ((slot, ptr) :: rest).Nodup) :
    ∀ x ∈ rest, ⟨x.2, (p.lpage, x.1)⟩ ∈ t.left.erase ⟨ptr, (p.lpage, slot)⟩ := by
  intro x later
  have before := turn.listed x (List.mem_cons_of_mem _ later)
  refine turn.stays before fun same => ?_
  have twin := turn.tracks.mark_inj before turn.pinned.used (same.trans turn.pinned.pos)
  have index : x.1 = slot := (Prod.mk.inj same).2
  have address : x.2 = ptr := (Mark.mk.inj twin).1
  refine (List.nodup_cons.1 distinct).1 ?_
  rw [← index, ← address]
  exact later

theorem ahead : Ahead (t.shard.writeSlot w p slot ptr rest) (t.left.erase ⟨ptr, (p.lpage, slot)⟩) := by
  have cursor := cursor_eq turn.writer
  have ahead := turn.tracks.ahead
  have page := turn.page
  obtain ⟨word, fresh, distinct, -⟩ := ahead.page p (by simp [cursor, page])
  rw [cursor] at word fresh
  rw [turn.slots] at distinct
  refine ⟨ahead.nodup.erase _, fun m left => ?_, fun m left => ?_, fun m left => ?_, fun l => ?_, fun l k away => ?_,
    fun m left => ?_, ⟨cursor ▸ ahead.pages.1, fun l later => ?_⟩, fun p' current => ?_⟩
  · obtain ⟨before, other⟩ := turn.others left
    exact (ahead.pinned m before).steady (steady (ahead.pinned m before).used other)
  · exact InPage.steady (ahead.fits m (turn.others left).1) rfl
  · exact cursor ▸ ahead.below m (turn.others left).1
  · have before := ahead.dirty l
    rw [cursor] at before
    refine before.trans (and_congr_right fun later => ⟨?_, ?_⟩)
    · rintro ⟨m, left, rfl⟩
      refine ⟨m, turn.stays left fun same => ?_, rfl⟩
      rw [same] at later
      exact absurd word (Nat.not_lt_of_le later)
    · rintro ⟨m, left, here⟩
      exact ⟨m, (turn.others left).1, here⟩
  · have other : p.lpage ≠ l :=
      away { p with slots := rest, entries := p.entries ++ [(t.shard.obj ptr).entry slot] } rfl
    refine (ahead.slots l k (by simpa [cursor, page] using other)).trans ⟨?_, ?_⟩
    · rintro ⟨m, left, same⟩
      refine ⟨m, turn.stays left fun same' => other ?_, same⟩
      rw [same'] at same
      exact (Prod.mk.inj same).1
    · rintro ⟨m, left, here⟩
      exact ⟨m, (turn.others left).1, here⟩
  · obtain ⟨before, other⟩ := turn.others left
    have reach := ahead.reach m before
    rw [cursor, page] at reach
    simp only [Option.mem_def, Option.some.injEq, exists_eq_left', turn.slots, List.mem_cons, Prod.mk.injEq] at reach
    rcases reach with later | listed | ⟨here, ⟨-, same⟩ | later⟩
    · exact .inl later
    · exact .inr (.inl listed)
    · exact absurd same other
    · exact .inr (.inr ⟨_, rfl, here, later⟩)
  · obtain ⟨less, m, before, here⟩ := ahead.pages.2 l (by rw [cursor]; exact later)
    rw [cursor] at less
    refine ⟨less, m, turn.stays before fun same => ?_, here⟩
    rw [same] at here
    rw [show p.lpage = l from here] at fresh
    exact fresh later
  · cases current
    exact ⟨word, fresh, (List.nodup_cons.1 distinct).2, turn.page_rest distinct⟩

theorem flags : Flags (t.shard.writeSlot w p slot ptr rest) t.last t.marked (t.left.erase ⟨ptr, (p.lpage, slot)⟩) := by
  have flags := turn.tracks.flags
  refine ⟨fun m marked => ?_, fun m left marked => ?_, fun m left => ?_, fun key q found => ?_⟩
  · rw [writeSlot_obj]
    split
    next here => simp [KvObj.visited, turn.pending marked here]
    next other =>
      obtain ⟨fresh, pending⟩ := flags.recent m marked
      refine ⟨fresh, fun flag => ?_⟩
      rw [turn.tracks.ahead.nodup.mem_erase_iff]
      refine ⟨?_, pending flag⟩
      rintro rfl
      exact other rfl
  · obtain ⟨before, other⟩ := turn.others left
    rw [writeSlot_obj, if_neg other]
    exact flags.both m before marked
  · obtain ⟨before, other⟩ := turn.others left
    rw [writeSlot_obj, if_neg other]
    exact flags.kept m before
  · have live := flags.table key q found
    by_cases here : q = ptr
    · subst here
      refine ⟨live.used, ?_, ?_, ?_⟩ <;> rw [writeSlot_obj, if_pos rfl]
      · rcases live.flag with flag | flag <;> simpa [KvObj.visited, flag] using live.held
      · rcases live.flag with flag | flag <;> simp [KvObj.visited, flag]
      · rw [(KvObj.visited_lengths _).2.2, live.key]
    · exact live.steady (steady live.used here)

theorem written (on : t.shard.isSnapshotting = true) : (t.shard.writeSlot w p slot ptr rest).cursor.slots =
    (t.done ++ [(⟨ptr, (p.lpage, slot)⟩ : Mark)]).map (Traced.owed t.last) := by
  have kept := turn.tracks.flags.kept _ turn.member
  have before := turn.tracks.busy on
  rw [cursor_eq turn.writer] at before
  rw [slots_writeSlot t.shard turn.page, before, kept.entry slot, List.map_append]
  rfl

end Turn

theorem Tracks.writeSlot {rest : List (Nat × Nat)} (tracks : Tracks t) (writer : t.shard.writer = some w)
    (on : t.shard.isSnapshotting = true) (page : w.page = some p) (slots : p.slots = (slot, ptr) :: rest) :
    Tracks { t with
      shard := t.shard.writeSlot w p slot ptr rest
      left := t.left.erase ⟨ptr, (p.lpage, slot)⟩
      done := t.done ++ [⟨ptr, (p.lpage, slot)⟩] } := by
  have turn : Turn t w p slot ptr rest := ⟨tracks, writer, page, slots⟩
  refine ⟨turn.layout, turn.active, turn.ahead, turn.flags, ?_, tracks.once, fun off => ?_, fun _ => turn.written on⟩
  · refine tracks.split.trans ?_
    rw [List.append_assoc]
    exact (List.perm_cons_erase turn.member).append_left _
  · exact absurd (on.symm.trans off) (by decide)

theorem Tracks.serialize {file : Option (List PageRecord)} (tracks : Tracks t)
    (done : t.shard.snapSerializeEpoch = some (s', file)) :
    Tracks (match t.shard.nextVisit with
      | some m => { t with shard := s', file := file.getD t.file, left := t.left.erase m, done := t.done ++ [m] }
      | none => { t with shard := s', file := file.getD t.file }) := by
  obtain ⟨on, does⟩ := serializes_iff.1 done
  cases does with
  | start writer =>
    have next : t.shard.nextVisit = none := by simp [nextVisit, writer]
    rw [next]
    exact tracks.start writer on
  | @writeSlot w p slot ptr rest writer page slots =>
    have next : t.shard.nextVisit = some ⟨ptr, (p.lpage, slot)⟩ := by simp [nextVisit, writer, page, slots]
    rw [next]
    exact tracks.writeSlot writer on page slots
  | finishPage writer page slots =>
    have next : t.shard.nextVisit = none := by simp [nextVisit, writer, page, slots]
    rw [next]
    exact tracks.finishPage writer on page slots
  | startPage writer page pages =>
    have next : t.shard.nextVisit = none := by simp [nextVisit, writer, page]
    rw [next]
    exact tracks.startPage writer on page pages
  | takeWord writer page pages more =>
    have next : t.shard.nextVisit = none := by simp [nextVisit, writer, page]
    rw [next]
    exact tracks.takeWord writer on page pages
  | finish writer page pages last =>
    have next : t.shard.nextVisit = none := by simp [nextVisit, writer, page]
    rw [next]
    exact tracks.finish writer on page pages (by omega)

end Serialize

section Runs

theorem Layout.empty : Layout Shard.empty := by
  refine ⟨fun l span found => ?_, fun ptr used => ?_, fun head n head' n' used => ?_, fun _ _ => rfl, by decide⟩
  · cases found
  · cases used
  · cases used

theorem Tracks.initial : Tracks {} := by
  refine ⟨Layout.empty, ⟨List.nodup_nil, by simp, ?_, ?_⟩, ⟨List.nodup_nil, by simp, by simp, by simp, ?_, ?_, by simp, ?_, ?_⟩,
    ⟨by simp, by simp, by simp, ?_⟩, .refl _, List.nodup_nil, fun _ => ⟨rfl, rfl, rfl⟩, ?_⟩ <;>
    simp [Shard.empty, Shard.cursor]

theorem Tracks.step {t' : Traced} {op : Op} (tracks : Tracks t) (fits : t.Fits op) (moved : t.step op = some t') :
    Tracks t' := by
  simp only [Traced.step, Option.map_eq_some_iff, Prod.exists] at moved
  obtain ⟨s', file, done, rfl⟩ := moved
  cases Shard.stepped done with
  | grow more => exact tracks.heapStep (.grow tracks.layout fits)
  | newSpan made => exact tracks.heapStep (.newSpan tracks.layout made)
  | reclaimSpan made => exact tracks.heapStep (.reclaimSpan tracks.layout made)
  | set made => exact tracks.set fits made
  | del key => exact tracks.del fits
  | free made => exact tracks.heapStep (.free tracks.layout made)
  | tick made => exact tracks.tick fits made
  | serialize made => exact tracks.serialize made

theorem epoch_complete (run : Transition.Reaches Traced.step Traced.Fits {} t) (idle : t.shard.isSnapshotting = false) :
    (t.file.flatMap PageRecord.slots).Perm (t.frozen.map (Traced.owed t.last)) ∧ (t.frozen.map Mark.pos).Nodup := by
  have tracks := run.invariant Tracks.initial Tracks.step
  obtain ⟨-, all, file⟩ := tracks.idle idle
  have split := tracks.split
  rw [all, List.append_nil] at split
  rw [file]
  exact ⟨split.symm.map _, tracks.once⟩

def epochOps (span : SpanInfo) (key value : Bytes) (i steps : Nat) : List Op :=
  [.newSpan span, .set key value 0 (.slot span i), .tick] ++ List.replicate steps .serialize

theorem epoch_complete_set : ∃ t, Transition.follow Traced.step (fun t op => decide (t.Fits op))
      (epochOps ⟨64, 0⟩ [97] [49] 63 13) {} = some t ∧ t.shard.isSnapshotting = false ∧
    t.frozen = [⟨4032, (0, 63)⟩] ∧
    (t.file.flatMap PageRecord.slots).Perm (t.frozen.map (Traced.owed t.last)) ∧ (t.frozen.map Mark.pos).Nodup := by
  have run : (Transition.follow Traced.step (fun t op => decide (t.Fits op)) (epochOps ⟨64, 0⟩ [97] [49] 63 13) {}).map
      (fun t => (t.shard.isSnapshotting, t.frozen)) = some (false, [⟨4032, (0, 63)⟩]) := by decide +kernel
  obtain ⟨t, followed, ends⟩ := Option.map_eq_some_iff.1 run
  rw [Prod.mk.injEq] at ends
  exact ⟨t, followed, ends.1, ends.2,
    epoch_complete (Transition.follow_reaches (fun _ _ => of_decide_eq_true) followed) ends.1⟩

theorem epoch_skips_object : ∃ t, Transition.follow Traced.step (fun _ _ => true)
      (epochOps ⟨5120, 0⟩ [107] (List.replicate 4096 118) 63 11) {} = some t ∧ t.shard.isSnapshotting = false ∧
    t.frozen = [⟨322560, (78, 0)⟩] ∧ t.file = [] ∧
    ¬(t.file.flatMap PageRecord.slots).Perm (t.frozen.map (Traced.owed t.last)) := by
  have run : (Transition.follow Traced.step (fun _ _ => true) (epochOps ⟨5120, 0⟩ [107] (List.replicate 4096 118) 63 11)
      {}).map (fun t => (t.shard.isSnapshotting, t.frozen, t.file)) = some (false, [⟨322560, (78, 0)⟩], []) := by
    decide +kernel
  obtain ⟨t, followed, ends⟩ := Option.map_eq_some_iff.1 run
  simp only [Prod.mk.injEq] at ends
  exact ⟨t, followed, ends.1, ends.2.1, ends.2.2, by simp [ends.2.1, ends.2.2]⟩

end Runs

end FreakV.Snapshot
