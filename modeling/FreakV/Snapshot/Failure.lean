import FreakV.Snapshot.Durable
import FreakV.Snapshot.Alike

namespace FreakV.Snapshot

open Snapshot.Shard

/-- Where the writing of a delta fails: at a call of the writer that is not for a slot (the first and the last one among
them), at the entry or the payload of a slot, or when the complete file is closed. -/
inductive Failure
  | put
  | entry
  | close
deriving DecidableEq

def KvObj.claimed (o : KvObj) : KvObj := { o.visited with refcount := o.refcount }

/-- `snap_serialize_epoch` fails. Nothing returns to the bitmaps, and a file that could not be closed is not removed. -/
def Shard.snapFail (s : Shard) : Failure → Option (Shard × Option (List PageRecord))
  | .put => if s.isSnapshotting then some ({ s with isSnapshotting := false, writer := none }, none) else none
  | .entry =>
    if s.isSnapshotting then
      s.nextVisit.map fun m =>
        ({ s with
            obj := Function.update s.obj m.ptr (s.obj m.ptr).claimed
            isSnapshotting := false
            writer := none }, none)
    else none
  | .close =>
    match s.snapSerializeEpoch with
    | some (s, some records) => some (s, some records)
    | _ => none

structure Aftermath where
  session : Session
  stray : List File := []
  dropped : List Mark := []

def Session.fail (s : Session) (f : Failure) : Option Aftermath :=
  (s.traced.shard.snapFail f).map fun (shard, file) =>
    { session := { s with traced := { shard := shard, marked := s.traced.marked, last := s.traced.last } }
      stray := file.toList.map fun records => { sessionId := 0, epoch := s.traced.shard.currentEpoch, records := records } }

instance (o : KvObj) : Decidable o.Alive := inferInstanceAs (Decidable (_ ∨ _))

namespace Aftermath

def shard (a : Aftermath) : Shard := a.session.traced.shard

def marked (a : Aftermath) : List Mark := a.session.traced.marked

def drops (before after : Shard) : List Mark :=
  before.nextVisit.toList.filter fun m => (after.obj m.ptr).refcount < (before.obj m.ptr).refcount

def step (a : Aftermath) (op : Session.Op) : Option Aftermath :=
  (a.session.step op).map fun s =>
    { a with
      session := s
      dropped := if op = .shard .serialize then a.dropped ++ drops a.shard s.traced.shard else a.dropped }

def Between (a : Aftermath) (op : Session.Op) : Prop := op ≠ .shard .tick ∧ a.session.Fits op

instance (a : Aftermath) (op : Session.Op) : Decidable (a.Between op) := inferInstanceAs (Decidable (_ ∧ _))

def restored (a : Aftermath) (now : Nat) : KeyMap := KeyMap.ofList (snapEngineRestore now a.session.base a.stray)

def contents (a : Aftermath) (now : Nat) : KeyMap := fun key =>
  (a.shard.view key).bind fun r => if Session.passed now r.2.2 then none else some r.2

structure LosesNothing (due : List Mark) (tick last : Aftermath) : Prop where
  entries : ∀ m ∈ due, m.pos ∈ last.session.traced.slots.map Prod.fst
  references : ∀ m, last.dropped.count m = if m ∈ tick.marked ∧ ¬(tick.shard.obj m.ptr).Alive then 1 else 0
  contents : ∀ now, last.restored now = tick.contents now

def Superseded (due : List Mark) (tick : Aftermath) : Prop := ∀ m ∈ due, ∃ m' ∈ tick.marked, m'.pos = m.pos

end Aftermath

section Fail

variable {s : Session} {o : Aftermath} {f : Failure} {t : Traced} {m : Mark}

theorem Shard.serialize_ends {s r : Shard} {records : List PageRecord} (ended : s.snapSerializeEpoch = some (r, some records)) :
    s.isSnapshotting = true ∧ r = { s with isSnapshotting := false, writer := none } := by
  obtain ⟨busy, does⟩ := serializes_iff.1 ended
  cases does
  exact ⟨busy, rfl⟩

theorem Shard.snapFail_shape {s r : Shard} {file : Option (List PageRecord)} (fails : s.snapFail f = some (r, file)) :
    s.isSnapshotting = true ∧ ∃ obj, r = { s with obj := obj, isSnapshotting := false, writer := none } ∧
      ∀ ptr, obj ptr = s.obj ptr ∨ obj ptr = (s.obj ptr).claimed ∧ ∃ m, s.nextVisit = some m ∧ m.ptr = ptr := by
  cases f with
  | put =>
    simp only [snapFail, Option.ite_none_right_eq_some, Option.some.injEq, Prod.mk.injEq] at fails
    exact ⟨fails.1, s.obj, fails.2.1.symm, fun _ => .inl rfl⟩
  | entry =>
    simp only [snapFail, Option.ite_none_right_eq_some, Option.map_eq_some_iff, Prod.mk.injEq] at fails
    obtain ⟨busy, m, next, rfl, -⟩ := fails
    refine ⟨busy, _, rfl, fun ptr => ?_⟩
    rw [Function.update_apply]
    split
    next here => exact .inr ⟨by rw [here], m, next, here.symm⟩
    · exact .inl rfl
  | close =>
    simp only [snapFail] at fails
    split at fails
    next ended =>
      cases fails
      obtain ⟨busy, rfl⟩ := serialize_ends ended
      exact ⟨busy, s.obj, rfl, fun _ => .inl rfl⟩
    · cases fails

theorem Tracks.nextVisit_mem (tracks : Tracks t) (next : t.shard.nextVisit = some m) : m ∈ t.left := by
  simp only [nextVisit, bind, Option.bind_eq_some_iff, pure, Option.some.injEq] at next
  obtain ⟨w, writer, p, page, ⟨slot, ptr⟩, head, rfl⟩ := next
  have cursor := cursor_eq writer
  exact (tracks.ahead.page p (by rw [cursor]; exact page)).2.2.2 (slot, ptr) (List.mem_of_mem_head? head)

theorem snapshot_memory_safe (run : Transition.Reaches Traced.step Traced.Fits {} t) :
    (∀ m, t.shard.nextVisit = some m → Pinned t.shard m ∧ Kept (t.last.obj m.ptr) (t.shard.obj m.ptr)) ∧
      ∀ key ptr, t.shard.table key = some ptr → Live t.shard key ptr := by
  have tracks := run.invariant Tracks.initial Tracks.step
  refine ⟨fun m next => ?_, tracks.flags.table⟩
  have waiting := tracks.nextVisit_mem next
  exact ⟨tracks.ahead.pinned m waiting, tracks.flags.kept m waiting⟩

theorem snapshot_memory_safe_set : ∃ t m, Transition.follow Traced.step (fun t op => decide (t.Fits op))
    (epochOps ⟨64, 0⟩ [97] [49] 63 3) {} = some t ∧ t.shard.nextVisit = some m ∧ Pinned t.shard m := by
  have checked : ((Transition.follow Traced.step (fun t op => decide (t.Fits op)) (epochOps ⟨64, 0⟩ [97] [49] 63 3)
      {}).bind fun t => t.shard.nextVisit) = some ⟨4032, (0, 63)⟩ := by decide +kernel
  obtain ⟨t, ran, next⟩ := Option.bind_eq_some_iff.1 checked
  have safe := snapshot_memory_safe (Transition.follow_reaches (fun _ _ => of_decide_eq_true) ran)
  exact ⟨t, _, ran, next, (safe.1 _ next).1⟩

structure Reflagged (before after : KvObj) : Prop where
  refcount : after.refcount = before.refcount
  keyLen : after.keyLen = before.keyLen
  valLen : after.valLen = before.valLen
  data : after.data = before.data
  expireMs : after.expireMs = before.expireMs
  alive : after.Alive ↔ before.Alive

theorem Reflagged.refl (o : KvObj) : Reflagged o o := ⟨rfl, rfl, rfl, rfl, rfl, Iff.rfl⟩

theorem KvObj.reflagged_claimed (o : KvObj) : Reflagged o o.claimed := by
  unfold KvObj.claimed KvObj.visited
  split <;> constructor <;> simp_all [KvObj.Alive]

theorem Reflagged.key {o o' : KvObj} (same : Reflagged o o') : o'.key = o.key := by
  rw [KvObj.key, KvObj.key, same.keyLen, same.data]

theorem Reflagged.value {o o' : KvObj} (same : Reflagged o o') : o'.value = o.value := by
  rw [KvObj.value, KvObj.value, same.keyLen, same.valLen, same.data]

def Traced.cleared (t : Traced) (obj : Nat → KvObj) : Traced :=
  { shard :=
      { t.shard with
        obj := obj
        isSnapshotting := false
        writer := none
        snapDirtyBits := fun _ => false
        snapSlotBits := fun _ _ => false }
    marked := t.marked
    last := t.last }

theorem History.cleared (history : History t) {obj : Nat → KvObj}
    (changed : ∀ ptr, obj ptr = t.shard.obj ptr ∨
      obj ptr = (t.shard.obj ptr).claimed ∧ ∃ m, t.shard.nextVisit = some m ∧ m.ptr = ptr)
    (settled : ∀ m ∈ t.marked, (obj m.ptr).snapFlag ≠ .deadPending) : History (t.cleared obj) := by
  have tracks := history.tracks
  have keeps (ptr : Nat) : Reflagged (t.shard.obj ptr) (obj ptr) := by
    obtain same | ⟨claimed, -⟩ := changed ptr
    · exact same ▸ .refl _
    · exact claimed ▸ KvObj.reflagged_claimed _
  have view : (t.cleared obj).shard.view = t.shard.view :=
    view_congr rfl fun _ ptr _ => ⟨pos_congr rfl, (keeps ptr).value, (keeps ptr).expireMs⟩
  have recent (m : Mark) (member : m ∈ t.marked) : (obj m.ptr).snapFlag ≠ .liveVisited := by
    obtain same | ⟨claimed, m', next, here⟩ := changed m.ptr
    · rw [same]
      exact (tracks.flags.recent m member).1
    next =>
      -- the object was to be visited, and has been destroyed since the tick
      have waiting := tracks.nextVisit_mem next
      have twin : m' = m := by
        rw [(tracks.ahead.pinned m' waiting).eq_mk, (tracks.active.pinned m member).eq_mk, here]
      have pending := tracks.flags.both m (twin ▸ waiting) member
      simp [claimed, KvObj.claimed, KvObj.visited, pending]
  have tracks' : Tracks (t.cleared obj) := by
    refine ⟨?_, ?_, ?_, ⟨fun m member => ⟨recent m member, fun pending => absurd pending (settled m member)⟩,
      List.forall_mem_nil _, List.forall_mem_nil _, fun key ptr found => ?_⟩, .refl _, List.nodup_nil,
      fun _ => ⟨rfl, rfl, rfl⟩, by rintro ⟨⟩⟩
    · refine tracks.layout.congr rfl rfl rfl fun ptr => ?_
      change markSize (totalSize (obj ptr).keyLen (obj ptr).valLen) = _
      rw [(keeps ptr).keyLen, (keeps ptr).valLen]
      rfl
    · refine tracks.active.frame rfl rfl fun m member => ?_
      have pinned := tracks.active.pinned m member
      exact ⟨pinned.used, (keeps m.ptr).refcount.symm ▸ pinned.held, pinned.pos⟩
    · constructor <;> simp [Traced.cleared, Shard.cursor]
    · have live := tracks.flags.table key ptr found
      exact ⟨live.used, (keeps ptr).refcount.symm ▸ live.held, (keeps ptr).alive.2 live.flag, (keeps ptr).key.trans live.key⟩
  refine ⟨tracks', ⟨fun ptr => ?_, fun ptr used alive => ?_⟩, ?_, history.sound, List.forall_mem_nil _, List.forall_mem_nil _,
    history.grown⟩
  · have short := history.tidy.short ptr
    exact ⟨(keeps ptr).keyLen ▸ short.1, (keeps ptr).valLen ▸ short.2⟩
  · exact history.tidy.listed ptr used ((keeps ptr).alive.1 alive)
  · rw [view]
    exact history.recent

end Fail

section Runs

variable {s : Session} {o b x x' : Aftermath} {t : Traced} {op : Session.Op}

theorem Session.step_cases {s s' : Session} (moved : s.step op = some s') :
    (∃ key expireMs, op = .expire key expireMs ∧ s'.traced = s.traced ∧ s'.base = s.base) ∨
    ∃ op' after file, op = .shard op' ∧ s.traced.shard.step op' = some (after, file) ∧
      s.traced.step op' = some s'.traced ∧ s'.base = s.merged after.nrPages file := by
  cases op with
  | expire key expireMs =>
    cases moved
    refine .inl ⟨key, expireMs, rfl, ?_⟩
    unfold Session.shardKeyExpire
    split
    · exact ⟨rfl, rfl⟩
    · split <;> exact ⟨rfl, rfl⟩
  | shard op =>
    obtain ⟨⟨after, file⟩, taken, rest⟩ := Option.bind_eq_some_iff.1 moved
    obtain ⟨traced, stepped, rfl⟩ := Option.map_eq_some_iff.1 rest
    exact .inr ⟨op, after, file, rfl, taken, stepped, rfl⟩

theorem Session.Kept.congr {s s' : Session} (kept : s.Kept) (traced : s'.traced = s.traced) (base : s'.base = s.base) :
    s'.Kept := ⟨traced ▸ kept.history, traced ▸ base ▸ kept.idle, traced ▸ base ▸ kept.busy⟩

structure Resting (s : Session) (o x : Aftermath) (t : Traced) : Prop where
  twin : Twin t .frozen x.session.traced
  history : History t
  last : t.last = s.traced.last
  idle : t.shard.isSnapshotting = false
  base : x.session.base = s.base
  stray : x.stray = o.stray
  dropped : x.dropped = []

theorem Resting.start {f : Failure} (history : History s.traced) (fails : s.fail f = some o)
    (settled : ∀ m ∈ s.traced.marked, (o.shard.obj m.ptr).snapFlag ≠ .deadPending) : ∃ t, Resting s o o t := by
  simp only [Session.fail, Option.map_eq_some_iff, Prod.exists] at fails
  obtain ⟨shard, file, failed, rfl⟩ := fails
  obtain ⟨-, obj, rfl, changed⟩ := snapFail_shape failed
  refine ⟨s.traced.cleared obj, ⟨?_, rfl, rfl, rfl, rfl, rfl⟩, history.cleared changed settled, rfl, rfl, rfl, rfl, rfl⟩
  exact .frozen rfl s.traced.shard.snapDirtyBits s.traced.shard.snapSlotBits

theorem Resting.step (resting : Resting s o x t) (within : x.Between op) (moved : x.step op = some x') :
    ∃ t', Resting s o x' t' := by
  simp only [Aftermath.step, Option.map_eq_some_iff] at moved
  obtain ⟨session, stepped, rfl⟩ := moved
  obtain ⟨key, expireMs, rfl, traced, base⟩ | ⟨op, after, file, rfl, taken, stepped', base⟩ := Session.step_cases stepped
  · refine ⟨t, ?_, resting.history, resting.last, resting.idle, base.trans resting.base, resting.stray, resting.dropped⟩
    exact traced ▸ resting.twin
  · obtain ⟨other, fits⟩ := within
    have other : op ≠ .tick := fun tick => other (by rw [tick])
    have off : x.session.traced.shard.isSnapshotting = false := resting.twin.alike.isSnapshotting.trans resting.idle
    have awake : op ≠ .serialize := by
      rintro rfl
      simp [Shard.step, snapSerializeEpoch, off] at taken
    obtain ⟨t', stepped, twin⟩ := resting.twin.step other stepped'
    have history := resting.history.step
      (resting.twin.fits (fun idle => (resting.history.tracks.idle idle).2.1) other fits) stepped
    obtain ⟨shard, -⟩ := Traced.step_shard stepped' taken
    cases phase_step taken with
    | starts tick => exact absurd tick other
    | ends _ _ busy =>
      rw [off] at busy
      cases busy
    | stays _ same =>
      refine ⟨t', twin, history, ?_, ?_, base.trans resting.base, resting.stray, ?_⟩
      · exact ((Traced.step_last stepped).2 other).1.trans resting.last
      · rw [← twin.alike.isSnapshotting, shard, same, off]
      · simp [awake, resting.dropped]

theorem Resting.run (rest : Transition.Reaches Aftermath.step Aftermath.Between o x) (start : ∃ t, Resting s o o t) :
    ∃ t, Resting s o x t := by
  induction rest with
  | refl => exact start
  | tail _ within moved ih =>
    obtain ⟨_, resting⟩ := ih
    exact resting.step within moved

theorem visit_obj {s s' : Shard} {file : Option (List PageRecord)} {m : Mark} (done : s.snapSerializeEpoch = some (s', file))
    (next : s.nextVisit = some m) : s'.obj m.ptr = (s.obj m.ptr).visited := by
  simp only [nextVisit, bind, Option.bind_eq_some_iff, pure, Option.some.injEq] at next
  obtain ⟨w, writer, p, page, ⟨slot, ptr⟩, head, rfl⟩ := next
  obtain ⟨rest, slots⟩ := List.head?_eq_some_iff.1 head
  simp only [snapSerializeEpoch, Option.ite_none_right_eq_some, writer, page, slots, Option.some.injEq, Prod.mk.injEq] at done
  obtain ⟨-, rfl, -⟩ := done
  exact Function.update_self ..

theorem Tracks.drops {s' : Shard} {file : Option (List PageRecord)} (tracks : Tracks t)
    (done : t.shard.snapSerializeEpoch = some (s', file)) :
    Aftermath.drops t.shard s' = t.shard.nextVisit.toList.filter fun m => (t.last.obj m.ptr).snapFlag = .deadSafe := by
  refine List.filter_congr fun m member => ?_
  have next := Option.mem_toList.1 member
  have waiting := tracks.nextVisit_mem next
  have held := (tracks.ahead.pinned m waiting).held
  rw [visit_obj done next, decide_eq_decide, KvObj.visited]
  obtain ⟨fresh, flag | flag⟩ | ⟨dead, flag⟩ := (tracks.flags.kept m waiting).flag
  · simp [fresh, flag]
  · simp [fresh, flag]
  · simp only [dead, flag, iff_true]
    omega

theorem Traced.step_done {t' : Traced} {op : Shard.Op} (moved : t.step op = some t') (other : op ≠ .tick) :
    t'.done = t.done ++ if op = .serialize then t.shard.nextVisit.toList else [] := by
  simp only [Traced.step, Option.map_eq_some_iff] at moved
  obtain ⟨_, -, rfl⟩ := moved
  cases op with
  | tick => exact absurd rfl other
  | serialize => cases t.shard.nextVisit <;> simp
  | _ => simp

structure Writing (due : List Mark) (b x : Aftermath) (t : Traced) : Prop where
  twin : Twin t .active x.session.traced
  history : History t
  view : t.last.view = b.shard.view
  obj : t.last.obj = b.shard.obj
  frozen : t.frozen = b.marked
  dropped : x.dropped = t.done.filter fun m => (t.last.obj m.ptr).snapFlag = .deadSafe
  kept : b.Superseded due → Session.Kept { x.session with traced := t }
  stray : x.stray = b.stray

theorem Writing.start (kept : s.Kept) (busy : s.traced.shard.isSnapshotting = true) (resting : Resting s o b t)
    (fits : b.session.Fits (.shard .tick)) (moved : b.step (.shard .tick) = some x) :
    ∃ t', Writing s.traced.frozen b x t' := by
  simp only [Aftermath.step, Option.map_eq_some_iff] at moved
  obtain ⟨session, stepped, rfl⟩ := moved
  obtain ⟨_, _, op, -⟩ | ⟨op, after, file, same, taken, stepped', base⟩ := Session.step_cases stepped
  · cases op
  · cases same
    obtain ⟨t', stepped, twin⟩ := resting.twin.tick stepped'
    have inPage : t.Fits .tick := by
      intro m member
      have fits := fits m (resting.twin.marked ▸ member)
      rwa [InPage, resting.twin.alike.pages] at fits
    have history := resting.history.step inPage stepped
    obtain ⟨last, frozen⟩ := (Traced.step_last stepped).1 rfl
    obtain ⟨done, on⟩ : t'.done = [] ∧ t'.shard.isSnapshotting = true := by
      simp only [Traced.step, Shard.step, snapEngineTick, resting.idle, Bool.false_eq_true, if_false, Option.map_some,
        Option.some.injEq] at stepped
      subst stepped
      exact ⟨rfl, rfl⟩
    have view : t'.last.view = b.shard.view := last ▸ resting.twin.alike.view.symm
    refine ⟨t', twin, history, view, last ▸ resting.twin.alike.obj.symm, frozen.trans resting.twin.marked.symm, ?_,
      fun superseded => ⟨history, fun off => ?_, fun _ => ?_⟩, rfl⟩
    · simp [done, resting.dropped]
    · rw [on] at off
      cases off
    · obtain ⟨before, covers, agree⟩ := kept.busy busy
      have same : session.base = s.base := by
        cases phase_step taken with
        | starts => exact base.trans resting.base
        | stays other => exact absurd rfl other
        | ends _ other => exact absurd rfl other
      refine ⟨before, same ▸ covers, fun slot apart => ?_⟩
      -- a slot of the failed epoch is one of this epoch, too
      have away : ∀ m ∈ t.marked, m.pos ≠ slot.1 := fun m member => apart m (frozen ▸ member)
      have early : ∀ m ∈ s.traced.frozen, m.pos ≠ slot.1 := by
        intro m member here
        obtain ⟨m', again, place⟩ := superseded m member
        exact away m' (resting.twin.marked ▸ again) (place.trans here)
      have recent := resting.history.recent slot away
      rw [resting.last] at recent
      change before.Holds slot ↔ t'.last.view.Holds slot
      rw [last]
      exact (agree slot early).trans recent

theorem Writing.step {due : List Mark} (writing : Writing due b x t) (within : x.Between op) (moved : x.step op = some x') :
    ∃ t', Writing due b x' t' := by
  simp only [Aftermath.step, Option.map_eq_some_iff] at moved
  obtain ⟨session, stepped, rfl⟩ := moved
  obtain ⟨key, expireMs, rfl, traced, base⟩ | ⟨op, after, file, rfl, taken, stepped', base⟩ := Session.step_cases stepped
  · refine ⟨t, traced ▸ writing.twin, writing.history, writing.view, writing.obj, writing.frozen, writing.dropped,
      fun superseded => ?_, writing.stray⟩
    exact (writing.kept superseded).congr rfl base
  · obtain ⟨other, fits⟩ := within
    have other : op ≠ .tick := fun tick => other (by rw [tick])
    obtain ⟨t', stepped'', twin⟩ := writing.twin.step other stepped'
    obtain ⟨clean, taken', alike⟩ := writing.twin.alike.step other taken
    have fits' := writing.twin.fits (fun idle => (writing.history.tracks.idle idle).2.1) other fits
    have history := writing.history.step fits' stepped''
    obtain ⟨last, frozen⟩ := (Traced.step_last stepped'').2 other
    refine ⟨t', twin, history, last ▸ writing.view, last ▸ writing.obj, frozen.trans writing.frozen, ?_, fun superseded => ?_,
      writing.stray⟩
    · rw [Traced.step_done stepped'' other, last, List.filter_append, ← writing.dropped]
      by_cases visits : op = .serialize
      · subst visits
        have shard : session.traced.shard = after := (Traced.step_shard stepped' taken).1
        have same : Aftermath.drops x.shard session.traced.shard = Aftermath.drops t.shard clean := by
          rw [Aftermath.drops, Aftermath.drops, Aftermath.shard, shard, writing.twin.alike.nextVisit, writing.twin.alike.obj, alike.obj]
        simp only [if_true]
        rw [same, writing.history.tracks.drops taken']
      · simp [visits]
    · have merged : ({ x.session with traced := t } : Session).merged clean.nrPages file = session.base := by
        rw [base, alike.nrPages]
        cases file with
        | none => rfl
        | some records => rw [Session.merged, Session.merged, writing.twin.alike.currentEpoch]
      obtain ⟨k, moved, traced, base'⟩ : ∃ k, ({ x.session with traced := t } : Session).shardStep op = some k ∧
          k.traced = t' ∧ k.base = ({ x.session with traced := t } : Session).merged clean.nrPages file := by
        simp [Session.shardStep, taken', stepped'']
      exact ((writing.kept superseded).shardStep fits' moved).congr traced.symm (merged.symm.trans base'.symm)

theorem Writing.run {due : List Mark} {c : Aftermath} (epoch : Transition.Reaches Aftermath.step Aftermath.Between c x)
    (start : ∃ t, Writing due b c t) : ∃ t, Writing due b x t := by
  induction epoch with
  | refl => exact start
  | tail _ within moved ih =>
    obtain ⟨_, writing⟩ := ih
    exact writing.step within moved

end Runs

section Restore

variable {now : Nat}

theorem restoreEntry_stale (slots : List (Pos × Entry)) (st : Restoring)
    (stale : ∀ slot ∈ slots, slot.2.deleted = true ∨ slot.1 ∈ st.seen) :
    (slots.foldl (restoreEntry now) st).restored = st.restored := by
  induction slots generalizing st with
  | nil => rfl
  | cons slot rest ih =>
    have later (st' : Restoring) (more : ∀ pos ∈ st.seen, pos ∈ st'.seen) :
        ∀ slot ∈ rest, slot.2.deleted = true ∨ slot.1 ∈ st'.seen :=
      fun slot' member => (stale slot' (List.mem_cons_of_mem _ member)).imp_right (more _)
    rw [List.foldl_cons, restoreEntry]
    split
    · exact ih st (later st fun _ => id)
    next fresh =>
      have dead : slot.2.deleted = true := (stale slot List.mem_cons_self).resolve_right fresh
      simp only [dead, if_true]
      exact ih _ (later _ fun pos member => List.mem_cons_of_mem _ member)

theorem mem_seen (slots : List (Pos × Entry)) (st : Restoring) (pos : Pos) :
    pos ∈ (slots.foldl (restoreEntry now) st).seen ↔ pos ∈ slots.map Prod.fst ∨ pos ∈ st.seen := by
  induction slots generalizing st with
  | nil => simp
  | cons slot rest ih =>
    have one : pos ∈ (restoreEntry now st slot).seen ↔ pos = slot.1 ∨ pos ∈ st.seen := by
      unfold restoreEntry
      split
      next old => exact ⟨.inr, fun found => found.elim (fun here => here ▸ old) id⟩
      · simp only
        split
        · exact List.mem_cons
        · split <;> exact List.mem_cons
    rw [List.foldl_cons, ih, one, List.map_cons, List.mem_cons, or_left_comm, or_assoc]

theorem snapEngineRestore_stray {base : Option File} {stray : List File} (few : stray.length ≤ 1)
    (stale : ∀ f ∈ stray, ∀ slot ∈ f.slots, slot.2.deleted = true ∨ slot.1 ∈ (baseSlots base).map Prod.fst) :
    snapEngineRestore now base stray = snapEngineRestore now base [] := by
  match stray, few with
  | [], _ => rfl
  | [f], _ =>
    simp only [snapEngineRestore, descending, List.mergeSort_singleton, List.take_succ_cons, List.take_nil,
      List.mergeSort_nil, List.foldl_cons, List.foldl_nil, maxEpochFiles]
    refine restoreEntry_stale f.slots _ fun slot member => (stale f List.mem_cons_self slot member).imp_right fun found => ?_
    cases base with
    | none => cases found
    | some g => exact (mem_seen g.slots {} slot.1).2 (.inl found)

end Restore

section Result

open Transition

variable {s : Session} {f : Failure} {o b c u : Aftermath} {t : Traced}

theorem Resting.dead_iff (resting : Resting s o b t) {m : Mark} (member : m ∈ b.marked) :
    ¬(b.shard.obj m.ptr).Alive ↔ (b.shard.obj m.ptr).snapFlag = .deadSafe := by
  obtain ⟨visited, pending⟩ := resting.history.tracks.flags.recent m (resting.twin.marked ▸ member)
  rw [← resting.twin.alike.obj, (resting.history.tracks.idle resting.idle).2.1] at pending
  rw [← resting.twin.alike.obj] at visited
  change (b.shard.obj m.ptr).snapFlag ≠ .liveVisited at visited
  change (b.shard.obj m.ptr).snapFlag = .deadPending → m ∈ [] at pending
  rw [KvObj.Alive]
  cases flag : (b.shard.obj m.ptr).snapFlag <;> simp_all

variable {due : List Mark}

theorem Writing.entries_iff (writing : Writing due b u t) (idle : u.shard.isSnapshotting = false) (pos : Pos) :
    pos ∈ u.session.traced.slots.map Prod.fst ↔ ∃ m ∈ b.marked, m.pos = pos := by
  have off : t.shard.isSnapshotting = false := writing.twin.alike.isSnapshotting.symm.trans idle
  rw [Traced.slots, writing.twin.file, ← Traced.slots, writing.history.tracks.mem_places off, writing.frozen]

theorem Writing.references (writing : Writing due b u t) (idle : u.shard.isSnapshotting = false)
    (dead : ∀ m ∈ b.marked, ¬(b.shard.obj m.ptr).Alive ↔ (b.shard.obj m.ptr).snapFlag = .deadSafe) (m : Mark) :
    u.dropped.count m = if m ∈ b.marked ∧ ¬(b.shard.obj m.ptr).Alive then 1 else 0 := by
  have off : t.shard.isSnapshotting = false := writing.twin.alike.isSnapshotting.symm.trans idle
  have perm := (writing.history.tracks.frozen_perm off).1
  have distinct : t.done.Nodup := perm.nodup_iff.1 (List.Nodup.of_map _ writing.history.tracks.once)
  rw [writing.dropped, writing.obj, (distinct.filter _).count]
  refine if_congr ?_ rfl rfl
  rw [List.mem_filter, ← perm.mem_iff, writing.frozen, decide_eq_true_eq]
  exact and_congr_right fun member => (dead m member).symm

theorem Writing.contents (writing : Writing due b u t) (idle : u.shard.isSnapshotting = false)
    (superseded : b.Superseded due) (few : b.stray.length ≤ 1)
    (closed : ∀ file ∈ b.stray, ∀ slot ∈ file.slots, slot.2.deleted = true ∨ ∃ key r, b.shard.view key = some (slot.1, r))
    (now : Nat) : u.restored now = b.contents now := by
  have off : t.shard.isSnapshotting = false := writing.twin.alike.isSnapshotting.symm.trans idle
  have covers : Covers u.session.base b.shard.view := writing.view ▸ (writing.kept superseded).idle off
  rw [Aftermath.restored, writing.stray, snapEngineRestore_stray few fun file member slot listed => ?_]
  · funext key
    rw [covers.restore now key]
    rfl
  · refine (closed file member slot listed).imp_right ?_
    rintro ⟨key, ⟨value, expireMs⟩, found⟩
    exact List.mem_map.2 ⟨_, (covers.slots (View.record slot.1 key value expireMs)).2 ⟨_, _, _, _, found, rfl⟩, rfl⟩

structure Attempt (s : Session) (f : Failure) (o b u : Aftermath) : Prop where
  run : Reaches Session.step Session.Fits {} s
  fails : s.fail f = some o
  rest : Reaches Aftermath.step Aftermath.Between o b
  fits : b.session.Fits (.shard .tick)
  epoch : ∃ c, b.step (.shard .tick) = some c ∧ Reaches Aftermath.step Aftermath.Between c u
  idle : u.shard.isSnapshotting = false

theorem failed_epoch_iff (attempt : Attempt s f o b u)
    (settled : ∀ m ∈ s.traced.marked, (o.shard.obj m.ptr).snapFlag ≠ .deadPending)
    (closed : ∀ file ∈ b.stray, ∀ slot ∈ file.slots, slot.2.deleted = true ∨ ∃ key r, b.shard.view key = some (slot.1, r)) :
    Aftermath.LosesNothing s.traced.frozen b u ↔ b.Superseded s.traced.frozen := by
  obtain ⟨run, fails, rest, fits, ⟨c, tick, epoch⟩, idle⟩ := attempt
  have kept : s.Kept := run.invariant Session.Kept.initial Session.Kept.step
  obtain ⟨_, resting⟩ := Resting.run rest (Resting.start kept.history fails settled)
  obtain ⟨busy, few⟩ : s.traced.shard.isSnapshotting = true ∧ o.stray.length ≤ 1 := by
    simp only [Session.fail, Option.map_eq_some_iff, Prod.exists] at fails
    obtain ⟨shard, file, failed, rfl⟩ := fails
    refine ⟨(snapFail_shape failed).1, ?_⟩
    cases file <;> simp
  obtain ⟨_, writing⟩ := Writing.run epoch (Writing.start kept busy resting fits tick)
  constructor
  · intro kept m member
    exact (writing.entries_iff idle m.pos).1 (kept.entries m member)
  · intro superseded
    refine ⟨fun m member => (writing.entries_iff idle m.pos).2 (superseded m member), ?_, ?_⟩
    · exact writing.references idle fun m member => resting.dead_iff member
    · exact writing.contents idle superseded (resting.stray ▸ few) closed

def attempted (before : List Session.Op) (f : Failure) (between after : List Session.Op) :
    Option (Session × Aftermath × Aftermath × Aftermath) :=
  let taken (ops : List Session.Op) (a : Aftermath) := follow Aftermath.step (fun a op => decide (a.Between op)) ops a
  (follow Session.step (fun s op => decide (s.Fits op)) before {}).bind fun s =>
    (s.fail f).bind fun o =>
      (taken between o).bind fun b =>
        (if b.session.Fits (.shard .tick) then b.step (.shard .tick) else none).bind fun c =>
          (taken after c).bind fun u => if u.shard.isSnapshotting then none else some (s, o, b, u)

theorem attempt_of_attempted {before between after : List Session.Op}
    (ran : attempted before f between after = some (s, o, b, u)) : Attempt s f o b u := by
  simp only [attempted, Option.bind_eq_some_iff, Option.ite_none_right_eq_some, Option.ite_none_left_eq_some,
    Option.some.injEq, Prod.mk.injEq] at ran
  obtain ⟨s, run, o, fails, b, rest, c, ⟨fits, tick⟩, u, epoch, idle, rfl, rfl, rfl, rfl⟩ := ran
  exact ⟨follow_reaches (fun _ _ => of_decide_eq_true) run, fails, follow_reaches (fun _ _ => of_decide_eq_true) rest, fits,
    ⟨c, tick, follow_reaches (fun _ _ => of_decide_eq_true) epoch⟩, by simpa using idle⟩

def setAndTick (steps : Nat) : List Session.Op :=
  [.shard (.newSpan ⟨64, 0⟩), .shard (.set [107] [118] 0 (.slot ⟨64, 0⟩ 63)), .shard .tick] ++
    List.replicate steps (.shard .serialize)

theorem failed_epoch_set_again : ∃ s o b u,
    attempted (setAndTick 3) .entry [.shard (.set [107] [119] 0 (.slot ⟨64, 0⟩ 62))] (List.replicate 14 (.shard .serialize)) =
      some (s, o, b, u) ∧ s.traced.frozen = [⟨4032, (0, 63)⟩] ∧ u.restored 0 [107] = some ([119], 0) ∧
    Aftermath.LosesNothing s.traced.frozen b u := by
  have ran : (attempted (setAndTick 3) .entry [.shard (.set [107] [119] 0 (.slot ⟨64, 0⟩ 62))]
      (List.replicate 14 (.shard .serialize))).map (fun (s, _, b, u) =>
        decide (s.traced.frozen = [⟨4032, (0, 63)⟩]) && decide (s.traced.marked = []) &&
          decide (b.marked.map Mark.pos = [(0, 63), (0, 62)]) && decide (b.stray = []) &&
          decide (u.restored 0 [107] = some ([119], 0))) = some true := by decide +kernel
  obtain ⟨⟨s, o, b, u⟩, followed, fields⟩ := Option.map_eq_some_iff.1 ran
  simp only [Bool.and_eq_true, decide_eq_true_eq] at fields
  obtain ⟨⟨⟨⟨frozen, marked⟩, again⟩, stray⟩, found⟩ := fields
  refine ⟨s, o, b, u, followed, frozen, found, ?_⟩
  refine (failed_epoch_iff (attempt_of_attempted followed) ?_ ?_).2 ?_
  · simp [marked]
  · simp [stray]
  · rw [frozen]
    intro m member
    obtain rfl := List.mem_singleton.1 member
    have there : ((0, 63) : Pos) ∈ b.marked.map Mark.pos := by simp [again]
    exact List.mem_map.1 there

theorem failed_epoch_loses_key : ∃ s o b u,
    attempted (setAndTick 0) .put [] (List.replicate 10 (.shard .serialize)) = some (s, o, b, u) ∧ Attempt s .put o b u ∧
    s.traced.frozen = [⟨4032, (0, 63)⟩] ∧ u.session.traced.file = [] ∧ b.contents 0 [107] = some ([118], 0) ∧
    u.restored 0 [107] = none ∧ ¬Aftermath.LosesNothing s.traced.frozen b u := by
  have ran : (attempted (setAndTick 0) .put [] (List.replicate 10 (.shard .serialize))).map (fun (s, _, b, u) =>
      decide (s.traced.frozen = [⟨4032, (0, 63)⟩]) && decide (u.session.traced.file = []) &&
        decide (b.contents 0 [107] = some ([118], 0)) && decide (u.restored 0 [107] = none)) = some true := by
    decide +kernel
  obtain ⟨⟨s, o, b, u⟩, followed, fields⟩ := Option.map_eq_some_iff.1 ran
  simp only [Bool.and_eq_true, decide_eq_true_eq] at fields
  obtain ⟨⟨⟨frozen, file⟩, contents⟩, restored⟩ := fields
  refine ⟨s, o, b, u, followed, attempt_of_attempted followed, frozen, file, contents, restored, fun kept => ?_⟩
  have same := congrFun (kept.contents 0) [107]
  rw [contents, restored] at same
  cases same

end Result

end FreakV.Snapshot
