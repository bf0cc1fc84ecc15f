import FreakV.Snapshot.View

namespace FreakV.Snapshot

open Snapshot.Shard

inductive Side
  | frozen
  | active

variable {s r r' : Shard} {side : Side} {ptr objSize : Nat}

inductive Alike (s : Shard) : Side → Shard → Prop
  | frozen (idle : s.isSnapshotting = false) (dirty : Nat → Bool) (slots : Nat → Nat → Bool) :
      Alike s .frozen { s with snapDirtyBits := dirty, snapSlotBits := slots }
  | active (dirty : Nat → Bool) (slots : Nat → Nat → Bool) :
      Alike s .active { s with dirtyBits := dirty, slotBits := slots }

namespace Alike

theorem symm (alike : Alike s side r) : Alike r side s := by
  cases alike with
  | frozen idle dirty slots =>
    exact .frozen (s := { s with snapDirtyBits := dirty, snapSlotBits := slots }) idle s.snapDirtyBits s.snapSlotBits
  | active dirty slots => exact .active s.dirtyBits s.slotBits

theorem pages (alike : Alike s side r) : r.pages = s.pages := by cases alike <;> rfl

theorem used (alike : Alike s side r) : r.used = s.used := by cases alike <;> rfl

theorem obj (alike : Alike s side r) : r.obj = s.obj := by cases alike <;> rfl

theorem table (alike : Alike s side r) : r.table = s.table := by cases alike <;> rfl

theorem nrPages (alike : Alike s side r) : r.nrPages = s.nrPages := by cases alike <;> rfl

theorem currentEpoch (alike : Alike s side r) : r.currentEpoch = s.currentEpoch := by cases alike <;> rfl

theorem isSnapshotting (alike : Alike s side r) : r.isSnapshotting = s.isSnapshotting := by cases alike <;> rfl

theorem nextVisit (alike : Alike s side r) : r.nextVisit = s.nextVisit := by cases alike <;> rfl

theorem view (alike : Alike s side r) : r.view = s.view := by cases alike <;> rfl

theorem mark (alike : Alike s side r) : r.mark ptr objSize = s.mark ptr objSize := by cases alike <;> rfl

theorem sizeAt (alike : Alike s side r) : r.sizeAt ptr = s.sizeAt ptr := by cases alike <;> rfl

theorem snapDirtyBits (alike : Alike s side r) (busy : s.isSnapshotting = true) : r.snapDirtyBits = s.snapDirtyBits := by
  cases alike with
  | frozen idle => rw [idle] at busy; cases busy
  | active => rfl

theorem snapWillVisit (alike : Alike s side r) : r.snapWillVisit ptr objSize = s.snapWillVisit ptr objSize := by
  cases alike with
  | frozen idle => simp [Shard.snapWillVisit, idle]
  | active => rfl

theorem putObj (alike : Alike s side r) (o : KvObj) : Alike (s.putObj ptr o) side (r.putObj ptr o) := by
  cases alike with
  | frozen idle dirty slots => exact .frozen (s := s.putObj ptr o) idle dirty slots
  | active dirty slots => exact .active dirty slots

theorem link (alike : Alike s side r) (key : Bytes) (new : Option Nat) : Alike (s.link key new) side (r.link key new) := by
  cases alike with
  | frozen idle dirty slots => exact .frozen (s := s.link key new) idle dirty slots
  | active dirty slots => exact .active dirty slots

theorem setPages (alike : Alike s side r) (head n : Nat) (info : Nat → PageInfo) :
    Alike (s.setPages head n info) side (r.setPages head n info) := by
  cases alike with
  | frozen idle dirty slots => exact .frozen (s := s.setPages head n info) idle dirty slots
  | active dirty slots => exact .active dirty slots

theorem setUsed (alike : Alike s side r) (used : Nat → Bool) : Alike { s with used := used } side { r with used := used } := by
  cases alike with
  | frozen idle dirty slots => exact .frozen (s := { s with used := used }) idle dirty slots
  | active dirty slots => exact .active dirty slots

theorem setSlotBit_beside (t : Shard) (lpage k : Nat) (dirty : Nat → Bool) (slots : Nat → Nat → Bool) :
    ({ t with snapDirtyBits := dirty, snapSlotBits := slots } : Shard).setSlotBit lpage k =
      { t.setSlotBit lpage k with snapDirtyBits := dirty, snapSlotBits := slots } := by
  unfold setSlotBit
  split <;> rfl

theorem snapObjMark_beside (t : Shard) (dirty : Nat → Bool) (slots : Nat → Nat → Bool) :
    ({ t with snapDirtyBits := dirty, snapSlotBits := slots } : Shard).snapObjMark ptr objSize =
      { t.snapObjMark ptr objSize with snapDirtyBits := dirty, snapSlotBits := slots } := by
  unfold Shard.snapObjMark
  simp only
  split
  · rfl
  · split
    · exact setSlotBit_beside (t.setDirtyBit _) _ _ dirty slots
    · split
      · exact setSlotBit_beside (t.setDirtyBit _) _ _ dirty slots
      · rfl

theorem snapObjMark (alike : Alike s side r) : Alike (s.snapObjMark ptr objSize) side (r.snapObjMark ptr objSize) := by
  cases alike with
  | frozen idle dirty slots =>
    rw [snapObjMark_beside s dirty slots]
    refine .frozen ?_ dirty slots
    obtain ⟨_, _, eq⟩ := s.snapObjMark_frame ptr objSize
    rw [eq]
    exact idle
  | active dirty slots =>
    obtain ⟨dirty₁, slots₁, eq₁⟩ := s.snapObjMark_frame ptr objSize
    obtain ⟨dirty₂, slots₂, eq₂⟩ :=
      ({ s with dirtyBits := dirty, slotBits := slots } : Shard).snapObjMark_frame ptr objSize
    rw [eq₁, eq₂]
    exact .active dirty₂ slots₂

theorem shardObjDestroy (alike : Alike s side r) : Alike (s.shardObjDestroy ptr) side (r.shardObjDestroy ptr) := by
  unfold Shard.shardObjDestroy
  simp only [alike.obj, alike.snapObjMark.snapWillVisit]
  exact alike.snapObjMark.putObj _

variable {file : Option (List PageRecord)}

theorem grow (alike : Alike s side r) (more : Nat) :
    Alike { s with nrPages := s.nrPages + more } side { r with nrPages := r.nrPages + more } := by
  cases alike with
  | frozen idle dirty slots => exact .frozen (s := { s with nrPages := s.nrPages + more }) idle dirty slots
  | active dirty slots => exact .active dirty slots

theorem freePages (alike : Alike s side r) {head n : Nat} : r.FreePages head n ↔ s.FreePages head n := by
  rw [FreePages, FreePages, alike.pages, alike.nrPages]

theorem memMalloc (alike : Alike s side r) {size : Nat} {place : Place} (got : r.memMalloc size place = some r') :
    ∃ s', s.memMalloc size place = some s' ∧ Alike s' side r' := by
  cases place with
  | slot span i =>
    simp only [Shard.memMalloc, Option.ite_none_right_eq_some, Option.some.injEq] at got
    obtain ⟨legal, rfl⟩ := got
    rw [alike.pages, alike.used] at legal
    refine ⟨_, if_pos legal, ?_⟩
    rw [alike.used]
    exact alike.setUsed _
  | pages head =>
    simp only [Shard.memMalloc, Option.ite_none_right_eq_some, Option.some.injEq] at got
    obtain ⟨legal, rfl⟩ := got
    rw [alike.freePages] at legal
    refine ⟨_, if_pos legal, ?_⟩
    rw [alike.used]
    exact (alike.setPages ..).setUsed _

theorem poolSpanInit (alike : Alike s side r) {span : SpanInfo} (done : r.poolSpanInit span = some r') :
    ∃ s', s.poolSpanInit span = some s' ∧ Alike s' side r' := by
  simp only [Shard.poolSpanInit, Option.ite_none_right_eq_some, Option.some.injEq] at done
  obtain ⟨legal, rfl⟩ := done
  rw [alike.freePages] at legal
  exact ⟨_, if_pos legal, alike.setPages ..⟩

theorem poolSpanReclaim (alike : Alike s side r) {span : SpanInfo} (done : r.poolSpanReclaim span = some r') :
    ∃ s', s.poolSpanReclaim span = some s' ∧ Alike s' side r' := by
  simp only [Shard.poolSpanReclaim, Option.ite_none_right_eq_some, Option.some.injEq] at done
  obtain ⟨legal, rfl⟩ := done
  rw [alike.pages, alike.used] at legal
  exact ⟨_, if_pos legal, alike.setPages ..⟩

theorem memFree (alike : Alike s side r) (done : r.memFree ptr = some r') : ∃ s', s.memFree ptr = some s' ∧ Alike s' side r' := by
  simp only [Shard.memFree, Option.ite_none_right_eq_some, Option.some.injEq] at done
  obtain ⟨legal, rfl⟩ := done
  rw [alike.used, alike.obj] at legal
  refine ⟨_, if_pos legal, ?_⟩
  rw [alike.used, congrFun alike.pages (ptrLpageIdx ptr)]
  split
  · exact (alike.setUsed _).setPages ..
  · exact alike.setUsed _

theorem shardKeySet (alike : Alike s side r) {key value : Bytes} {expireMs : Nat} {place : Place}
    (done : r.shardKeySet key value expireMs place = some r') :
    ∃ s', s.shardKeySet key value expireMs place = some s' ∧ Alike s' side r' := by
  obtain ⟨r₁, got, rfl⟩ := Option.map_eq_some_iff.1 done
  obtain ⟨s₁, got', alike₁⟩ := alike.memMalloc got
  have marked : Alike
      ((s₁.putObj place.addr (KvObj.make key value expireMs)).snapObjMark place.addr
        (markSize (totalSize key.length value.length))) side
      ((r₁.putObj place.addr (KvObj.make key value expireMs)).snapObjMark place.addr
        (markSize (totalSize key.length value.length))) := (alike₁.putObj _).snapObjMark
  refine ⟨_, Option.map_eq_some_iff.2 ⟨s₁, got', rfl⟩, ?_⟩
  simp only [marked.table]
  split
  · exact (marked.link _ _).shardObjDestroy
  · exact marked.link _ _

theorem shardKeyDelete (alike : Alike s side r) (key : Bytes) : Alike (s.shardKeyDelete key) side (r.shardKeyDelete key) := by
  simp only [Shard.shardKeyDelete, alike.table]
  split
  · exact (alike.link key none).shardObjDestroy
  · exact alike

theorem serialize (alike : Alike s side r) (done : r.snapSerializeEpoch = some (r', file)) :
    ∃ s', s.snapSerializeEpoch = some (s', file) ∧ Alike s' side r' := by
  obtain ⟨busy, does⟩ := serializes_iff.1 done
  cases alike with
  | frozen idle => exact absurd (idle.symm.trans busy) (by decide)
  | active dirty slots =>
    -- The writer looks only at what the two shards share, so it makes the same step in both.
    cases does with
    | start writer => exact ⟨_, serializes_iff.2 ⟨busy, .start writer⟩, .active dirty slots⟩
    | writeSlot writer page visits => exact ⟨_, serializes_iff.2 ⟨busy, .writeSlot writer page visits⟩, .active dirty slots⟩
    | finishPage writer page visits => exact ⟨_, serializes_iff.2 ⟨busy, .finishPage writer page visits⟩, .active dirty slots⟩
    | startPage writer page pages =>
      refine ⟨_, serializes_iff.2 ⟨busy, .startPage writer page pages⟩, ?_⟩
      simp only [Shard.startPage]
      split <;> exact .active dirty slots
    | takeWord writer page pages more =>
      exact ⟨_, serializes_iff.2 ⟨busy, .takeWord writer page pages more⟩, .active dirty slots⟩
    | finish writer page pages last =>
      exact ⟨_, serializes_iff.2 ⟨busy, .finish writer page pages last⟩, .active dirty slots⟩

theorem step {op : Shard.Op} (alike : Alike s side r) (other : op ≠ .tick) (done : r.step op = some (r', file)) :
    ∃ s', s.step op = some (s', file) ∧ Alike s' side r' := by
  have lift {o : Option Shard} {o' : Option Shard} (made : o.map (·, none) = some (r', file))
      (same : ∀ {q : Shard}, o = some q → ∃ p, o' = some p ∧ Alike p side q) :
      ∃ s', o'.map (·, none) = some (s', file) ∧ Alike s' side r' := by
    obtain ⟨q, found, eq⟩ := Option.map_eq_some_iff.1 made
    obtain ⟨rfl, rfl⟩ := Prod.mk.inj eq
    obtain ⟨p, found', alike'⟩ := same found
    exact ⟨p, Option.map_eq_some_iff.2 ⟨p, found', rfl⟩, alike'⟩
  cases op with
  | grow more => cases done; exact ⟨_, rfl, alike.grow more⟩
  | newSpan span => exact lift done alike.poolSpanInit
  | reclaimSpan span => exact lift done alike.poolSpanReclaim
  | set key value expireMs place => exact lift done alike.shardKeySet
  | del key => cases done; exact ⟨_, rfl, alike.shardKeyDelete key⟩
  | free ptr => exact lift done alike.memFree
  | tick => exact absurd rfl other
  | serialize => exact alike.serialize done

theorem tick (alike : Alike s .frozen r) (done : r.snapEngineTick = some r') :
    ∃ s', s.snapEngineTick = some s' ∧ Alike s' .active r' := by
  cases alike with
  | frozen idle dirty slots =>
    simp only [snapEngineTick, idle, Bool.false_eq_true, if_false, Option.some.injEq] at done
    subst done
    exact ⟨_, if_neg (by simp [idle]), .active dirty slots⟩

theorem marks (alike : Alike s side r) (op : Shard.Op) : r.marks op = s.marks op := by
  cases op with
  | set key value expireMs place =>
    simp only [Shard.marks]
    cases got : s.memMalloc (totalSize key.length value.length) place with
    | none =>
      have none : r.memMalloc (totalSize key.length value.length) place = none := by
        refine Option.eq_none_iff_forall_not_mem.2 fun r₁ found => ?_
        obtain ⟨s₁, got', -⟩ := alike.memMalloc found
        rw [got] at got'
        cases got'
      rw [none]
    | some s₁ =>
      obtain ⟨r₁, got', alike₁⟩ := alike.symm.memMalloc got
      simp only [got', alike₁.table, alike₁.mark, alike₁.sizeAt]
  | del key => simp only [Shard.marks, alike.table, alike.mark, alike.sizeAt]
  | _ => rfl

end Alike

section Twin

variable {t r r' : Traced} {side : Side} {op : Shard.Op}

structure Twin (t : Traced) (side : Side) (r : Traced) : Prop where
  alike : Alike t.shard side r.shard
  marked : r.marked = t.marked
  frozen : r.frozen = t.frozen
  left : r.left = t.left
  done : r.done = t.done
  file : r.file = t.file

theorem Twin.fits (twin : Twin t side r) (rest : t.shard.isSnapshotting = false → t.left = []) (other : op ≠ .tick)
    (fits : r.Fits op) : t.Fits op := by
  have inFlight {ptr : Nat} (there : t.InFlight ptr) : r.InFlight ptr := by
    obtain ⟨left, taken⟩ := there
    cases busy : t.shard.isSnapshotting with
    | false =>
      rw [rest busy] at left
      cases left
    | true => exact ⟨twin.left ▸ left, twin.alike.snapDirtyBits busy ▸ taken⟩
  cases op with
  | tick => exact absurd rfl other
  | grow more =>
    rw [Traced.Fits, twin.alike.nrPages] at fits
    exact fits
  | set key value expireMs place =>
    intro ptr found there
    refine fits ptr ?_ (inFlight there)
    rw [twin.alike.table]
    exact found
  | del key =>
    intro ptr found there
    refine fits ptr ?_ (inFlight there)
    rw [twin.alike.table]
    exact found
  | _ => trivial

theorem Twin.step (twin : Twin t side r) (other : op ≠ .tick) (moved : r.step op = some r') :
    ∃ t', t.step op = some t' ∧ Twin t' side r' := by
  simp only [Traced.step, Option.map_eq_some_iff, Prod.exists] at moved
  obtain ⟨after, file, done, rfl⟩ := moved
  obtain ⟨s', done', alike⟩ := twin.alike.step other done
  simp only [Traced.step, done', Option.map_some, Option.some.injEq, exists_eq_left']
  have marked := twin.alike.marks op
  cases op with
  | tick => exact absurd rfl other
  | serialize =>
    simp only [twin.alike.nextVisit]
    cases t.shard.nextVisit <;> constructor <;> simp [alike, marked, twin.marked, twin.frozen, twin.left, twin.done, twin.file]
  | _ => constructor <;> simp [alike, marked, twin.marked, twin.frozen, twin.left, twin.done, twin.file]

theorem Twin.tick (twin : Twin t .frozen r) (moved : r.step .tick = some r') :
    ∃ t', t.step .tick = some t' ∧ Twin t' .active r' := by
  simp only [Traced.step, Shard.step, Option.map_map, Option.map_eq_some_iff] at moved
  obtain ⟨after, done, rfl⟩ := moved
  obtain ⟨s', done', alike⟩ := twin.alike.tick done
  simp only [Traced.step, Shard.step, done', Option.map_some, Option.some.injEq, exists_eq_left']
  exact ⟨alike, rfl, twin.marked, twin.marked, rfl, twin.file⟩

end Twin

end FreakV.Snapshot
