import FreakV.Snapshot.Marks
import Mathlib.Data.List.Nodup

namespace FreakV.Snapshot

open Snapshot.Shard

variable {s s' last : Shard} {marked left : List Mark} {m : Mark} {t : Traced}

section Frames

structure Steady (s s' : Shard) (ptr : Nat) : Prop where
  used : s'.used ptr = true
  page : s'.pages (ptr / lpageSize) = s.pages (ptr / lpageSize)
  obj : s'.obj ptr = s.obj ptr

theorem Pinned.steady (pinned : Pinned s m) (steady : Steady s s' m.ptr) : Pinned s' m :=
  ⟨steady.used, steady.obj ▸ pinned.held, pinned.pos.trans (pos_congr steady.page).symm⟩

theorem Pinned.eq_mk (pinned : Pinned s m) : m = ⟨m.ptr, s.pos m.ptr⟩ := by
  obtain ⟨ptr, pos⟩ := m
  exact congrArg (Mark.mk ptr) pinned.pos

theorem InPage.steady {ptr : Nat} (fits : s.InPage ptr) (page : s'.pages (ptr / lpageSize) = s.pages (ptr / lpageSize)) :
    s'.InPage ptr := fun span found => fits span (page ▸ found)

theorem Active.frame (active : Active s marked) (dirty : s'.dirtyBits = s.dirtyBits) (slots : s'.slotBits = s.slotBits)
    (pinned : ∀ m ∈ marked, Pinned s' m) : Active s' marked :=
  ⟨active.nodup, pinned, dirty ▸ active.dirty, slots ▸ active.slots⟩

theorem Ahead.frame (ahead : Ahead s left) (writer : s'.writer = s.writer) (more : s.nrPages ≤ s'.nrPages)
    (dirty : s'.snapDirtyBits = s.snapDirtyBits) (slots : s'.snapSlotBits = s.snapSlotBits)
    (pinned : ∀ m ∈ left, Pinned s' m) (fits : ∀ m ∈ left, s'.InPage m.ptr) : Ahead s' left := by
  have word : s'.cursor.word = s.cursor.word := by cases found : s.writer <;> simp [cursor, writer, found]
  have pages : s'.cursor.pages = s.cursor.pages := by cases found : s.writer <;> simp [cursor, writer, found]
  have page : s'.cursor.page = s.cursor.page := by cases found : s.writer <;> simp [cursor, writer, found]
  have count : s.cursor.nrPages ≤ s'.cursor.nrPages := by cases found : s.writer <;> simp [cursor, writer, found, more]
  refine ⟨ahead.nodup, pinned, fits, fun m member => lt_of_lt_of_le (ahead.below m member) count, ?_, ?_, ?_, ?_, ?_⟩
  · rw [dirty, word]
    exact ahead.dirty
  · rw [slots, page]
    exact ahead.slots
  · rw [word, pages, page]
    exact ahead.reach
  · rw [pages, word]
    exact ahead.pages
  · rw [page, word, pages]
    exact ahead.page

theorem cursor_slots (writer : s'.writer = s.writer) : s'.cursor.slots = s.cursor.slots := by
  cases found : s.writer <;> simp [cursor, writer, found, Writer.slots]

theorem Live.steady {key : Bytes} {ptr : Nat} (live : Live s key ptr) (steady : Steady s s' ptr) : Live s' key ptr := by
  refine ⟨steady.used, ?_, ?_, ?_⟩ <;> rw [steady.obj]
  · exact live.held
  · exact live.flag
  · exact live.key

theorem Flags.frame (flags : Flags s last marked left) (table : s'.table = s.table)
    (recent : ∀ m ∈ marked, s'.obj m.ptr = s.obj m.ptr) (old : ∀ m ∈ left, s'.obj m.ptr = s.obj m.ptr)
    (live : ∀ key ptr, s.table key = some ptr → Steady s s' ptr) : Flags s' last marked left := by
  refine ⟨fun m member => ?_, fun m member again => ?_, fun m member => ?_, fun key ptr found => ?_⟩
  · rw [recent m member]
    exact flags.recent m member
  · rw [old m member]
    exact flags.both m member again
  · rw [old m member]
    exact flags.kept m member
  · rw [table] at found
    exact (flags.table key ptr found).steady (live key ptr found)

structure HeapOnly (s s' : Shard) : Prop where
  dirtyBits : s'.dirtyBits = s.dirtyBits
  slotBits : s'.slotBits = s.slotBits
  snapDirtyBits : s'.snapDirtyBits = s.snapDirtyBits
  snapSlotBits : s'.snapSlotBits = s.snapSlotBits
  isSnapshotting : s'.isSnapshotting = s.isSnapshotting
  writer : s'.writer = s.writer
  table : s'.table = s.table
  nrPages : s.nrPages ≤ s'.nrPages

theorem Tracks.heap (tracks : Tracks t) (only : HeapOnly t.shard s') (layout : Layout s')
    (steady : ∀ ptr, t.shard.used ptr = true → 1 ≤ (t.shard.obj ptr).refcount → Steady t.shard s' ptr) :
    Tracks { t with shard := s' } := by
  have recent : ∀ m ∈ t.marked, Steady t.shard s' m.ptr := fun m member =>
    steady _ (tracks.active.pinned m member).used (tracks.active.pinned m member).held
  have old : ∀ m ∈ t.left, Steady t.shard s' m.ptr := fun m member =>
    steady _ (tracks.ahead.pinned m member).used (tracks.ahead.pinned m member).held
  refine ⟨layout, ?_, ?_, ?_, tracks.split, tracks.once, fun idle => ?_, fun busy => ?_⟩
  · exact tracks.active.frame only.dirtyBits only.slotBits
      fun m member => (tracks.active.pinned m member).steady (recent m member)
  · exact tracks.ahead.frame only.writer only.nrPages only.snapDirtyBits only.snapSlotBits
      (fun m member => (tracks.ahead.pinned m member).steady (old m member))
      fun m member => InPage.steady (tracks.ahead.fits m member) (old m member).page
  · refine tracks.flags.frame only.table (fun m member => (recent m member).obj) (fun m member => (old m member).obj) ?_
    intro key ptr found
    have live := tracks.flags.table key ptr found
    exact steady ptr live.used (le_trans (by decide) live.held)
  · obtain ⟨writer, rest⟩ := tracks.idle (only.isSnapshotting ▸ idle)
    exact ⟨only.writer.trans writer, rest⟩
  · exact (cursor_slots only.writer).trans (tracks.busy (only.isSnapshotting ▸ busy))

theorem Steady.of_keeps {ptr : Nat} (layout : Layout s) (keeps : Keeps s s') (used : s.used ptr = true)
    (still : s'.used ptr = true) (obj : s'.obj ptr = s.obj ptr) : Steady s s' ptr :=
  ⟨still, keeps.pages _ (layout.located ptr used).page_taken, obj⟩

theorem Steady.of_back {ptr : Nat} (layout : Layout s') (back : Keeps s' s) (still : s'.used ptr = true)
    (obj : s'.obj ptr = s.obj ptr) : Steady s s' ptr :=
  ⟨still, (back.pages _ (layout.located ptr still).page_taken).symm, obj⟩

structure HeapStep (s s' : Shard) : Prop where
  only : HeapOnly s s'
  layout : Layout s'
  obj : s'.obj = s.obj
  fewer : ∀ ptr, s'.used ptr = true → s.used ptr = true
  steady : ∀ ptr, s.used ptr = true → 1 ≤ (s.obj ptr).refcount → Steady s s' ptr

theorem HeapStep.grow (layout : Layout s) {more : Nat} (few : s.nrPages + more ≤ 2 ^ 20) :
    HeapStep s { s with nrPages := s.nrPages + more } :=
  ⟨⟨rfl, rfl, rfl, rfl, rfl, rfl, rfl, Nat.le_add_right _ _⟩, layout.grow few, rfl, fun _ used => used,
    fun _ used _ => ⟨used, rfl, rfl⟩⟩

theorem HeapStep.newSpan {span : SpanInfo} (layout : Layout s) (done : s.poolSpanInit span = some s') : HeapStep s s' := by
  obtain ⟨layout', keeps⟩ := layout.poolSpanInit done
  unfold poolSpanInit at done
  simp only at done
  split at done
  · cases done
    exact ⟨⟨rfl, rfl, rfl, rfl, rfl, rfl, rfl, Nat.le_refl _⟩, layout', rfl, fun _ used => used,
      fun ptr used _ => .of_keeps layout keeps used used rfl⟩
  · cases done

theorem HeapStep.reclaimSpan {span : SpanInfo} (layout : Layout s) (done : s.poolSpanReclaim span = some s') :
    HeapStep s s' := by
  obtain ⟨layout', back⟩ := layout.poolSpanReclaim done
  unfold poolSpanReclaim at done
  split at done
  · cases done
    exact ⟨⟨rfl, rfl, rfl, rfl, rfl, rfl, rfl, Nat.le_refl _⟩, layout', rfl, fun _ used => used,
      fun ptr used _ => .of_back layout' back used rfl⟩
  · cases done

theorem HeapStep.free {ptr : Nat} (layout : Layout s) (done : s.memFree ptr = some s') : HeapStep s s' := by
  obtain ⟨layout', back⟩ := layout.memFree done
  unfold memFree at done
  split at done
  next legal =>
    have still {q : Nat} (used : s.used q = true) (held : 1 ≤ (s.obj q).refcount) :
        Function.update s.used ptr false q = true := by
      have other : q ≠ ptr := by
        rintro rfl
        omega
      rwa [Function.update_of_ne other]
    have fewer (q : Nat) (used : Function.update s.used ptr false q = true) : s.used q = true := by
      rw [Function.update_apply] at used
      split at used
      · cases used
      · exact used
    simp only at done
    split at done <;> cases done
    · exact ⟨⟨rfl, rfl, rfl, rfl, rfl, rfl, rfl, Nat.le_refl _⟩, layout', rfl, fewer,
        fun q used held => .of_back layout' back (still used held) rfl⟩
    · exact ⟨⟨rfl, rfl, rfl, rfl, rfl, rfl, rfl, Nat.le_refl _⟩, layout', rfl, fewer,
        fun q used held => .of_back layout' back (still used held) rfl⟩
  · cases done

theorem Tracks.heapStep (tracks : Tracks t) (moved : HeapStep t.shard s') : Tracks { t with shard := s' } :=
  tracks.heap moved.only moved.layout moved.steady

end Frames

section Commands

variable {ptr objSize : Nat} {o : KvObj}

def Shard.touch (s : Shard) (ptr objSize : Nat) (o : KvObj) : Shard := (s.snapObjMark ptr objSize).putObj ptr o

theorem Shard.Located.touch_eq (located : Located s ptr objSize) (small : (s.pos ptr).2 < snapModifiedSize * 8) (o : KvObj) :
    s.touch ptr objSize o = { s with
      dirtyBits := Function.update s.dirtyBits (s.pos ptr).1 true
      slotBits := fun l k => if l = (s.pos ptr).1 ∧ k = (s.pos ptr).2 then true else s.slotBits l k
      obj := Function.update s.obj ptr o } := by
  rw [Shard.touch, located.snapObjMark, setSlotBit, if_pos small]
  rfl

theorem Active.insert (active : Active s marked) (pinned : ∀ m' ∈ List.insert m marked, Pinned s' m')
    (dirty : s'.dirtyBits = Function.update s.dirtyBits m.pos.1 true)
    (slots : s'.slotBits = fun l k => if l = m.pos.1 ∧ k = m.pos.2 then true else s.slotBits l k) :
    Active s' (List.insert m marked) := by
  refine ⟨List.Nodup.insert active.nodup, pinned, fun l => ?_, fun l k => ?_⟩
  · rw [dirty, Function.update_apply]
    split
    next here => simp [here]
    next elsewhere => simp [active.dirty, eq_comm, elsewhere]
  · rw [slots]
    simp only
    split
    next here => simp [here.1, here.2]
    next elsewhere =>
      have other : m.pos ≠ (l, k) := fun same => elsewhere (by simp [same])
      simp [active.slots, other]

theorem Tracks.touch (tracks : Tracks t) (used : t.shard.used ptr = true) (located : Located t.shard ptr objSize)
    (lengths : o.keyLen = (t.shard.obj ptr).keyLen ∧ o.valLen = (t.shard.obj ptr).valLen) (held : 1 ≤ o.refcount)
    (recent : o.snapFlag ≠ .liveVisited ∧ (o.snapFlag = .deadPending → ⟨ptr, t.shard.pos ptr⟩ ∈ t.left))
    (old : ⟨ptr, t.shard.pos ptr⟩ ∈ t.left → o.snapFlag = .deadPending ∧ Kept (t.last.obj ptr) o)
    (live : ∀ key, t.shard.table key = some ptr → 2 ≤ o.refcount ∧ o.snapFlag = .liveFresh ∧ o.key = key) :
    Tracks { t with
      shard := t.shard.touch ptr objSize o
      marked := List.insert ⟨ptr, t.shard.pos ptr⟩ t.marked } := by
  have shape := located.touch_eq (tracks.layout.located ptr used).slot_small o
  generalize t.shard.touch ptr objSize o = s' at shape ⊢
  have rewritten (q : Nat) : s'.obj q = if q = ptr then o else t.shard.obj q := by
    rw [shape]
    exact Function.update_apply ..
  have pages : s'.pages = t.shard.pages := by rw [shape]
  have still : s'.used = t.shard.used := by rw [shape]
  have pin {m : Mark} (pinned : Pinned t.shard m) : Pinned s' m := by
    refine ⟨still ▸ pinned.used, ?_, pinned.pos.trans (pos_congr (congrFun pages _)).symm⟩
    rw [rewritten]
    split
    · exact held
    · exact pinned.held
  refine ⟨?_, ?_, ?_, ?_, tracks.split, tracks.once, fun idle => ?_, fun busy => ?_⟩
  · refine tracks.layout.congr pages (by rw [shape]) still fun q => ?_
    rw [sizeAt, sizeAt, rewritten]
    split
    next here => rw [here, lengths.1, lengths.2]
    · rfl
  · refine tracks.active.insert (fun m member => ?_) (by rw [shape]) (by rw [shape])
    rcases List.mem_insert_iff.1 member with rfl | before
    · exact ⟨still ▸ used, by rwa [rewritten, if_pos rfl], (pos_congr (congrFun pages _)).symm⟩
    · exact pin (tracks.active.pinned m before)
  · exact tracks.ahead.frame (by rw [shape]) (by rw [shape]) (by rw [shape]) (by rw [shape])
      (fun m member => pin (tracks.ahead.pinned m member))
      fun m member => InPage.steady (tracks.ahead.fits m member) (congrFun pages _)
  · refine ⟨fun m member => ?_, fun m member again => ?_, fun m member => ?_, fun key q found => ?_⟩
    · rw [rewritten]
      rcases List.mem_insert_iff.1 member with rfl | before
      · rwa [if_pos rfl]
      · split
        next here =>
          rw [(tracks.active.pinned m before).eq_mk, here]
          exact recent
        · exact tracks.flags.recent m before
    · have place := (tracks.ahead.pinned m member).eq_mk
      rw [rewritten]
      split
      next here =>
        rw [place, here] at member
        exact (old member).1
      next elsewhere =>
        refine tracks.flags.both m member ((List.mem_insert_iff.1 again).resolve_left ?_)
        rintro rfl
        exact elsewhere rfl
    · have place := (tracks.ahead.pinned m member).eq_mk
      rw [rewritten]
      split
      next here =>
        rw [place, here] at member
        rw [here]
        exact (old member).2
      · exact tracks.flags.kept m member
    · have table : t.shard.table key = some q := by rwa [shape] at found
      have before := tracks.flags.table key q table
      by_cases here : q = ptr
      · subst here
        obtain ⟨refs, flag, name⟩ := live key table
        exact ⟨still ▸ before.used, by rwa [rewritten, if_pos rfl], by rw [rewritten, if_pos rfl]; exact .inl flag,
          by rw [rewritten, if_pos rfl]; exact name⟩
      · exact before.steady ⟨still ▸ before.used, congrFun pages _, by rw [rewritten, if_neg here]⟩
  · rw [shape] at idle ⊢
    exact tracks.idle idle
  · refine (cursor_slots (by rw [shape])).trans (tracks.busy ?_)
    rwa [shape] at busy

theorem Tracks.link (tracks : Tracks t) (key : Bytes) (new : Option Nat) (fresh : ∀ ptr ∈ new, Live t.shard key ptr) :
    Tracks { t with shard := t.shard.link key new } := by
  have pin {m : Mark} (pinned : Pinned t.shard m) : Pinned (t.shard.link key new) m :=
    ⟨pinned.used, pinned.held, pinned.pos⟩
  refine ⟨tracks.layout.congr rfl rfl rfl fun _ => rfl, ?_, ?_, ?_, tracks.split, tracks.once, tracks.idle, tracks.busy⟩
  · exact tracks.active.frame rfl rfl fun m member => pin (tracks.active.pinned m member)
  · exact tracks.ahead.frame rfl (Nat.le_refl _) rfl rfl (fun m member => pin (tracks.ahead.pinned m member))
      tracks.ahead.fits
  · refine ⟨tracks.flags.recent, tracks.flags.both, tracks.flags.kept, fun key' ptr found => ?_⟩
    have live : Live t.shard key' ptr := by
      simp only [Shard.link, Function.update_apply] at found
      split at found
      next same => exact same ▸ fresh ptr found
      · exact tracks.flags.table key' ptr found
    exact ⟨live.used, live.held, live.flag, live.key⟩

theorem Tracks.mark_inj (tracks : Tracks t) {m : Mark} (member : m ∈ t.left) (used : t.shard.used ptr = true)
    (same : m.pos = t.shard.pos ptr) : m = ⟨ptr, t.shard.pos ptr⟩ := by
  have pinned := tracks.ahead.pinned m member
  have here : m.ptr = ptr :=
    (tracks.layout.located _ pinned.used).pos_inj (tracks.layout.located _ used) (pinned.pos.symm.trans same)
  rw [pinned.eq_mk, here]

theorem Tracks.willVisit_iff (tracks : Tracks t) (used : t.shard.used ptr = true) (apart : ¬t.InFlight ptr) :
    t.shard.snapWillVisit ptr (t.shard.sizeAt ptr) = true ↔ ⟨ptr, t.shard.pos ptr⟩ ∈ t.left := by
  have located := tracks.layout.located ptr used
  unfold snapWillVisit
  simp only [tracks.layout.lpage_eq used, located.slot_eq, Option.any_some, located.slot_small, located.inside, decide_true, Bool.and_true,
    Bool.true_and, Bool.and_eq_true]
  rw [← pos_fst]
  -- on a page that has not been taken the bits are the marks
  have bits (dirty : t.shard.snapDirtyBits (t.shard.pos ptr).1 = true) :
      t.shard.snapSlotBits (t.shard.pos ptr).1 (t.shard.pos ptr).2 = true ↔ ⟨ptr, t.shard.pos ptr⟩ ∈ t.left := by
    have word := ((tracks.ahead.dirty _).1 dirty).1
    rw [tracks.ahead.slots]
    · constructor
      · rintro ⟨m, member, same⟩
        exact tracks.mark_inj member used same ▸ member
      · exact fun member => ⟨_, member, rfl⟩
    · intro p current same
      have taken := (tracks.ahead.page p current).1
      rw [same] at taken
      omega
  constructor
  · rintro ⟨⟨-, dirty⟩, slot⟩
    exact (bits dirty).1 slot
  · intro member
    have snapshotting : t.shard.isSnapshotting = true := by
      by_contra off
      rw [(tracks.idle (by simpa using off)).2.1] at member
      cases member
    have dirty : t.shard.snapDirtyBits (t.shard.pos ptr).1 = true := by
      by_contra off
      rw [pos_fst] at off
      exact apart ⟨List.mem_map.2 ⟨_, member, rfl⟩, by simpa using off⟩
    exact ⟨⟨snapshotting, dirty⟩, (bits dirty).2 member⟩

theorem shardObjDestroy_eq (located : Located s ptr (s.sizeAt ptr)) : s.shardObjDestroy ptr =
    s.touch ptr (s.sizeAt ptr) { s.obj ptr with
      snapFlag := if s.snapWillVisit ptr (s.sizeAt ptr) ∧ (s.obj ptr).snapFlag = .liveFresh then .deadPending else .deadSafe
      refcount := (s.obj ptr).refcount - 1 } := by
  unfold shardObjDestroy Shard.touch
  simp only
  rw [← sizeAt, located.snapObjMark, setSlotBit, if_pos located.slot_small]
  rfl

theorem Tracks.destroy (tracks : Tracks t) {key : Bytes} (live : Live t.shard key ptr)
    (gone : ∀ key, t.shard.table key ≠ some ptr) (apart : ¬t.InFlight ptr) :
    Tracks { t with
      shard := t.shard.shardObjDestroy ptr
      marked := List.insert ⟨ptr, t.shard.pos ptr⟩ t.marked } := by
  have located := tracks.layout.located ptr live.used
  have visit := tracks.willVisit_iff live.used apart
  rw [shardObjDestroy_eq located]
  have held := live.held
  refine tracks.touch live.used located ⟨rfl, rfl⟩ (by simp only; omega) ?_ ?_ fun key found => absurd found (gone key)
  · simp only
    split
    next will => exact ⟨by decide, fun _ => visit.1 will.1⟩
    · exact ⟨by decide, by simp⟩
  · intro member
    have kept := tracks.flags.kept _ member
    have fresh : (t.shard.obj ptr).snapFlag = .liveFresh := by
      rcases kept.flag with ⟨-, flag | flag⟩ | ⟨-, flag⟩ <;> rcases live.flag with flag' | flag' <;> simp_all
    have before : (t.last.obj ptr).snapFlag = .liveFresh := by
      rcases kept.flag with ⟨flag, -⟩ | ⟨-, flag⟩
      · exact flag
      · simp [fresh] at flag
    simp only [visit.2 member, fresh, and_self, if_true]
    exact ⟨trivial, kept.key, kept.value, kept.expireMs, .inl ⟨before, .inr rfl⟩⟩

structure Placed (s s' : Shard) (ptr objSize : Nat) (o : KvObj) : Prop where
  layout : Layout s'
  keeps : Keeps s s'
  only : HeapOnly s s'
  free : s.used ptr = false
  used : s'.used = Function.update s.used ptr true
  obj : s'.obj = Function.update s.obj ptr o
  located : Located s' ptr objSize

theorem totalSize_make {key value : Bytes} (expireMs : Nat) (small : totalSize key.length value.length ≤ smallAllocMax) :
    totalSize (KvObj.make key value expireMs).keyLen (KvObj.make key value expireMs).valLen =
      totalSize key.length value.length := by
  have bound : smallAllocMax = 65536 := rfl
  rw [totalSize] at small
  simp only [KvObj.make]
  rw [Nat.mod_eq_of_lt (by omega), Nat.mod_eq_of_lt (by omega)]

theorem Placed.of_memMalloc {key value : Bytes} {place : Place} (expireMs : Nat) (layout : Layout s)
    (done : s.memMalloc (totalSize key.length value.length) place = some s') :
    Placed s (s'.putObj place.addr (KvObj.make key value expireMs)) place.addr
      (markSize (totalSize key.length value.length)) (KvObj.make key value expireMs) := by
  cases place with
  | slot span i =>
    simp only [memMalloc] at done
    split at done
    next legal =>
      obtain ⟨small, found, page, idx, free⟩ := legal
      cases done
      have size := markSize_of_class small found
      have keeps := withObj_keeps s (spanAddr span i) (KvObj.make key value expireMs)
      have place := keeps.spanAt (layout.spans _ _ page).1
      exact ⟨layout.withObj_slot page idx (by rw [totalSize_make expireMs small, size]), keeps,
        ⟨rfl, rfl, rfl, rfl, rfl, rfl, rfl, Nat.le_refl _⟩, free, rfl, rfl, .slot place idx rfl size⟩
    · cases done
  | pages head =>
    simp only [memMalloc] at done
    split at done
    next legal =>
      obtain ⟨large, free⟩ := legal
      cases done
      have positive : 0 < (totalSize key.length value.length + lpageSize - 1) / lpageSize :=
        Nat.div_pos (by rw [totalSize]; omega) (by decide)
      have unused : s.used (head * lpageSize) = false := by
        by_contra used
        have taken := (layout.located _ (by simpa using used)).page_taken
        rw [Nat.mul_div_cancel _ (by decide)] at taken
        exact taken (free 0 positive).1
      exact ⟨layout.withLarge _ positive free, free.withLarge_keeps _, ⟨rfl, rfl, rfl, rfl, rfl, rfl, rfl, Nat.le_refl _⟩,
        unused, rfl, rfl, .pages (free.withLarge_place positive _) rfl⟩
    · cases done

theorem Tracks.place (tracks : Tracks t) (placed : Placed t.shard s' ptr objSize o) :
    Tracks { t with shard := s' } := by
  refine tracks.heap placed.only placed.layout fun q used _ => ?_
  have other : q ≠ ptr := by
    rintro rfl
    rw [placed.free] at used
    cases used
  refine .of_keeps tracks.layout placed.keeps used ?_ ?_
  · rwa [placed.used, Function.update_of_ne other]
  · rw [placed.obj, Function.update_of_ne other]

theorem Shard.Located.touch_self (located : Located s ptr objSize) (small : (s.pos ptr).2 < snapModifiedSize * 8) :
    s.touch ptr objSize (s.obj ptr) = s.snapObjMark ptr objSize := by
  rw [located.touch_eq small, located.snapObjMark, setSlotBit, if_pos small, Function.update_eq_self]
  rfl

theorem Tracks.create (tracks : Tracks t) {key value : Bytes} {expireMs : Nat}
    (placed : Placed t.shard s' ptr objSize (KvObj.make key value expireMs)) :
    Tracks { t with
      shard := (s'.snapObjMark ptr objSize).link (KvObj.make key value expireMs).key (some ptr)
      marked := List.insert ⟨ptr, s'.pos ptr⟩ t.marked } := by
  have here : s'.obj ptr = KvObj.make key value expireMs := by rw [placed.obj, Function.update_self]
  have used : s'.used ptr = true := by rw [placed.used, Function.update_self]
  have unmarked : ∀ m ∈ t.left, m.ptr ≠ ptr := by
    intro m member same
    have before := (tracks.ahead.pinned m member).used
    rw [same, placed.free] at before
    cases before
  have unlisted : ∀ key, s'.table key ≠ some ptr := by
    intro key found
    rw [placed.only.table] at found
    have before := (tracks.flags.table key ptr found).used
    rw [placed.free] at before
    cases before
  have touched := (tracks.place placed).touch (o := s'.obj ptr) used placed.located ⟨rfl, rfl⟩
    (by simp [here, KvObj.make]) (by simp [here, KvObj.make]) (fun member => absurd rfl (unmarked _ member))
    fun key found => absurd found (unlisted key)
  simp only [placed.located.touch_self (placed.layout.located ptr used).slot_small] at touched
  refine touched.link _ _ fun q new => ?_
  cases new
  refine ⟨by simpa using used, ?_, ?_, ?_⟩ <;> simp [here, KvObj.make]

theorem Tracks.unlinked (tracks : Tracks t) {key : Bytes} (found : t.shard.table key = some ptr) {new : Option Nat}
    (other : new ≠ some ptr) (key' : Bytes) : Function.update t.shard.table key new key' ≠ some ptr := by
  rw [Function.update_apply]
  split
  · exact other
  next elsewhere =>
    intro found'
    exact elsewhere ((tracks.flags.table key' ptr found').key.symm.trans (tracks.flags.table key ptr found).key)

theorem Tracks.mark_eq (tracks : Tracks t) (used : t.shard.used ptr = true) :
    t.shard.mark ptr (t.shard.sizeAt ptr) = ⟨ptr, t.shard.pos ptr⟩ := by
  rw [mark, (tracks.layout.located ptr used).markPos]

theorem Tracks.del (tracks : Tracks t) {key : Bytes} (fits : t.Fits (.del key)) :
    Tracks { t with shard := t.shard.shardKeyDelete key, marked := t.shard.marks (.del key) ∪ t.marked } := by
  cases found : t.shard.table key with
  | none =>
    simp only [shardKeyDelete, marks, found, Option.toList_none, List.map_nil, List.nil_union]
    exact tracks
  | some ptr =>
    have live := tracks.flags.table key ptr found
    simp only [shardKeyDelete, marks, found, Option.toList_some, List.map_cons, List.map_nil, List.cons_union,
      List.nil_union, tracks.mark_eq live.used]
    have still : Live (t.shard.link key none) key ptr := ⟨live.used, live.held, live.flag, live.key⟩
    exact (tracks.link key none (by simp)).destroy still (tracks.unlinked found (by simp)) (fits ptr found)

theorem Tracks.replace (tracks : Tracks t) {key value : Bytes} {expireMs : Nat}
    (placed : Placed t.shard s' ptr objSize (KvObj.make key value expireMs)) {old : Nat}
    (found : t.shard.table (KvObj.make key value expireMs).key = some old) (apart : ¬t.InFlight old) :
    Tracks { t with
      shard := ((s'.snapObjMark ptr objSize).link (KvObj.make key value expireMs).key (some ptr)).shardObjDestroy old
      marked := List.insert ⟨old, s'.pos old⟩ (List.insert ⟨ptr, s'.pos ptr⟩ t.marked) } := by
  have live := tracks.flags.table _ _ found
  have other : old ≠ ptr := by
    rintro rfl
    have used := live.used
    rw [placed.free] at used
    cases used
  have object : s'.obj old = t.shard.obj old := by rw [placed.obj, Function.update_of_ne other]
  have still : Live ((s'.snapObjMark ptr objSize).link (KvObj.make key value expireMs).key (some ptr))
      (KvObj.make key value expireMs).key old := by
    refine ⟨?_, ?_, ?_, ?_⟩ <;> simp only [Shard.link, snapObjMark_used, snapObjMark_obj, object]
    · rw [placed.used, Function.update_of_ne other]
      exact live.used
    · exact live.held
    · exact live.flag
    · exact live.key
  have pos : ((s'.snapObjMark ptr objSize).link (KvObj.make key value expireMs).key (some ptr)).pos old = s'.pos old :=
    pos_congr (congrFun (snapObjMark_pages s' ptr objSize) _)
  rw [← pos]
  refine (tracks.create placed).destroy still ?_ ?_
  · simp only [Shard.link, snapObjMark_table, placed.only.table]
    exact tracks.unlinked found (by simpa using Ne.symm other)
  · simp only [Traced.InFlight, Shard.link, snapObjMark_snapDirtyBits, placed.only.snapDirtyBits]
    exact apart

theorem Placed.mark_old {s₁ : Shard} (placed : Placed s (s₁.putObj ptr o) ptr objSize o) {old : Nat}
    (used : s.used old = true) : s₁.mark old (s₁.sizeAt old) = ⟨old, s₁.pos old⟩ := by
  have other : old ≠ ptr := by
    rintro rfl
    rw [placed.free] at used
    cases used
  have size : (s₁.putObj ptr o).sizeAt old = s₁.sizeAt old := by
    simp only [sizeAt, putObj, Function.update_of_ne other]
  have located := placed.layout.located old (by rwa [placed.used, Function.update_of_ne other])
  rw [size] at located
  exact congrArg (Mark.mk _) located.markPos

theorem Tracks.marks_set (tracks : Tracks t) {key value : Bytes} (expireMs : Nat) {place : Place} {s₁ : Shard}
    (got : t.shard.memMalloc (totalSize key.length value.length) place = some s₁) :
    t.shard.marks (.set key value expireMs place) =
      ((t.shard.table (KvObj.make key value expireMs).key).toList.map fun old => ⟨old, s₁.pos old⟩) ++
        [⟨place.addr, s₁.pos place.addr⟩] := by
  have placed := Placed.of_memMalloc expireMs tracks.layout got
  have table : s₁.table = t.shard.table := placed.only.table
  have new : s₁.mark place.addr (markSize (totalSize key.length value.length)) = ⟨place.addr, s₁.pos place.addr⟩ :=
    congrArg (Mark.mk _) placed.located.markPos
  simp only [marks, got, new, table, List.append_cancel_right_eq]
  refine List.map_congr_left fun old found => ?_
  exact placed.mark_old (tracks.flags.table _ _ (Option.mem_toList.1 found)).used

theorem Tracks.set (tracks : Tracks t) {key value : Bytes} {expireMs : Nat} {place : Place}
    (fits : t.Fits (.set key value expireMs place)) (done : t.shard.shardKeySet key value expireMs place = some s') :
    Tracks { t with shard := s', marked := t.shard.marks (.set key value expireMs place) ∪ t.marked } := by
  unfold shardKeySet at done
  simp only [Option.map_eq_some_iff] at done
  obtain ⟨s₁, got, rfl⟩ := done
  have placed := Placed.of_memMalloc expireMs tracks.layout got
  have table : (s₁.putObj place.addr (KvObj.make key value expireMs)).table = t.shard.table := placed.only.table
  rw [tracks.marks_set expireMs got]
  simp only [snapObjMark_table, table]
  cases found : t.shard.table (KvObj.make key value expireMs).key with
  | none =>
    simp only [Option.toList_none, List.map_nil, List.nil_append, List.cons_union, List.nil_union]
    exact tracks.create placed
  | some old =>
    simp only [Option.toList_some, List.map_cons, List.map_nil, List.cons_append, List.nil_append, List.cons_union,
      List.nil_union]
    exact tracks.replace placed found (fits old found)

end Commands

section Tick

theorem Tracks.pos_once (tracks : Tracks t) : (t.marked.map Mark.pos).Nodup := by
  refine List.Nodup.map_on (fun m member m' member' same => ?_) tracks.active.nodup
  have pinned := tracks.active.pinned m member
  have pinned' := tracks.active.pinned m' member'
  have here := (tracks.layout.located _ pinned.used).pos_inj (tracks.layout.located _ pinned'.used)
    (pinned.pos.symm.trans (same.trans pinned'.pos))
  rw [pinned.eq_mk, pinned'.eq_mk, here]

theorem Tracks.tick (tracks : Tracks t) (fits : t.Fits .tick) (done : t.shard.snapEngineTick = some s') :
    Tracks { t with
      shard := s', marked := [], frozen := t.marked, left := t.marked, done := [], last := t.shard } := by
  unfold snapEngineTick at done
  split at done
  · cases done
  next off =>
    cases done
    obtain ⟨writer, none, -⟩ := tracks.idle (by simpa using off)
    have ahead := none ▸ tracks.ahead
    have cursor : t.shard.cursor = { nrPages := t.shard.nrPages } := by rw [Shard.cursor, writer, Option.getD_none]
    have cleared (l : Nat) : t.shard.snapDirtyBits l ≠ true := fun set => by simpa using (ahead.dirty l).1 set
    have cleared' (l k : Nat) : t.shard.snapSlotBits l k ≠ true := fun set => by
      simpa using (ahead.slots l k (by simp [cursor])).1 set
    refine ⟨tracks.layout.congr rfl rfl rfl fun _ => rfl, ?_, ?_, ?_, by simp, tracks.pos_once, by simp, ?_⟩
    · exact ⟨List.nodup_nil, by simp, by simpa using cleared, by simpa using cleared'⟩
    · have start : Shard.cursor { t.shard with
          isSnapshotting := true
          currentEpoch := t.shard.currentEpoch + 1
          dirtyBits := t.shard.snapDirtyBits
          slotBits := t.shard.snapSlotBits
          snapDirtyBits := t.shard.dirtyBits
          snapSlotBits := t.shard.slotBits } = { nrPages := t.shard.nrPages } := cursor
      refine ⟨tracks.active.nodup, fun m member => ?_, fits, fun m member => ?_, ?_, ?_, ?_, ?_, ?_⟩
      · have pinned := tracks.active.pinned m member
        exact ⟨pinned.used, pinned.held, pinned.pos⟩
      · have pinned := tracks.active.pinned m member
        rw [start, pinned.pos, pos_fst]
        exact (tracks.layout.located _ pinned.used).inside
      · intro l
        simpa [start] using tracks.active.dirty l
      · intro l k _
        exact tracks.active.slots l k
      · intro m _
        exact .inl (by simp [start])
      · simp [start]
      · simp [start]
    · refine ⟨by simp, by simp, fun m member => ⟨rfl, rfl, rfl, ?_⟩, fun key ptr found => ?_⟩
      · obtain ⟨fresh, pending⟩ := tracks.flags.recent m member
        rw [none] at pending
        simp only
        cases flag : (t.shard.obj m.ptr).snapFlag with
        | liveFresh => simp
        | deadSafe => simp
        | deadPending => simpa using pending flag
        | liveVisited => exact absurd flag fresh
      · have live := tracks.flags.table key ptr found
        exact ⟨live.used, live.held, live.flag, live.key⟩
    · simp [Shard.cursor, writer, Writer.slots]

end Tick

end FreakV.Snapshot
