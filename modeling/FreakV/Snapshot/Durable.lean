import FreakV.Snapshot.View
import FreakV.Snapshot.Compact

namespace FreakV.Snapshot

open Snapshot.Shard

/-- A shard with its base file and the expire times in the buckets of its table, now and at the last tick. Every delta
is merged into the base as soon as it is complete. -/
structure Session where
  traced : Traced := {}
  base : Option File := none
  expiry : Bytes → Nat := fun _ => 0
  frozenExpiry : Bytes → Nat := fun _ => 0

namespace Session

/-- SET with EX, PX or KEEPTTL is a `set` with the time that these give. EXPIRE, PEXPIRE, EXPIREAT, PEXPIREAT and PERSIST
are an `expire`, the last one with 0. -/
inductive Op
  | shard (op : Shard.Op)
  | expire (key : Bytes) (expireMs : Nat)
deriving DecidableEq

/-- `shard_key_expire`: the bucket gets the new time. The object is neither written to nor marked. -/
def shardKeyExpire (s : Session) (key : Bytes) (expireMs : Nat) : Session :=
  if s.traced.shard.table key = none then s
  else if expireMs = 0 ∧ s.expiry key = 0 then s
  else { s with expiry := Function.update s.expiry key expireMs }

def merged (s : Session) (nrPages : Nat) : Option (List PageRecord) → Option File
  | some records => some (snapCompactDeltaIntoBase 0 nrPages
      { sessionId := 0, epoch := s.traced.shard.currentEpoch, records := records } s.base)
  | none => s.base

def shardStep (s : Session) (op : Shard.Op) : Option Session :=
  (s.traced.shard.step op).bind fun (after, file) =>
    (s.traced.step op).map fun traced =>
      { traced := traced
        base := s.merged after.nrPages file
        expiry := match op with
          | .set key value expireMs _ => Function.update s.expiry (KvObj.make key value expireMs).key expireMs
          | _ => s.expiry
        frozenExpiry := if op = .tick then s.expiry else s.frozenExpiry }

def step (s : Session) : Op → Option Session
  | .shard op => s.shardStep op
  | .expire key expireMs => some (s.shardKeyExpire key expireMs)

def Fits (s : Session) : Op → Prop
  | .shard op => s.traced.Fits op
  | .expire _ _ => True

instance (s : Session) (op : Op) : Decidable (s.Fits op) := by
  cases op <;> unfold Fits <;> infer_instance

def restored (s : Session) (now : Nat) : KeyMap := KeyMap.ofList (snapEngineRestore now s.base [])

def passed (now expireMs : Nat) : Bool := expireMs ≠ 0 && expireMs < now

def expected (s : Session) (now : Nat) : KeyMap := fun key =>
  (s.traced.last.table key).bind fun ptr =>
    if passed now (s.frozenExpiry key) then none else some ((s.traced.last.obj ptr).value, s.frozenExpiry key)

def InStep (s : Session) (now : Nat) (key : Bytes) : Prop :=
  ∀ ptr ∈ s.traced.last.table key, (s.traced.last.obj ptr).expireMs = s.frozenExpiry key ∨
    passed now (s.traced.last.obj ptr).expireMs ∧ passed now (s.frozenExpiry key)

end Session

section Base

variable {base : Option File} {v : View}

theorem lookup_eq_some_of_once {slots : List (Pos × Entry)} (once : (slots.map Prod.fst).Nodup) {pos : Pos} {e : Entry} :
    slots.lookup pos = some e ↔ (pos, e) ∈ slots := by
  induction slots with
  | nil => simp
  | cons slot rest ih =>
    rw [List.map_cons, List.nodup_cons] at once
    rw [List.lookup_cons]
    by_cases here : pos = slot.1
    · have away : (pos, e) ∉ rest := fun there => once.1 (here ▸ List.mem_map_of_mem there)
      have same : (pos == slot.1) = true := by simpa using here
      simp only [same, Option.some.injEq, List.mem_cons, away, or_false]
      subst here
      constructor
      · rintro rfl; rfl
      · intro equal; exact (congrArg Prod.snd equal).symm
    · have other : (pos == slot.1) = false := by simpa using here
      have apart : (pos, e) ≠ slot := fun equal => here (congrArg Prod.fst equal)
      simp [other, apart, ih once.2]

structure Covers (base : Option File) (v : View) : Prop where
  recorded : Recorded (baseSlots base)
  slots : ∀ slot, slot ∈ baseSlots base ↔ v.Holds slot

theorem Covers.taken (covers : Covers base v) {pos : Pos} {e : Entry} : taken base [] pos = some e ↔ v.Holds (pos, e) := by
  rw [← covers.slots, ← lookup_eq_some_of_once covers.recorded.once, Snapshot.taken, readOrder]
  simp [fileSlots, descending]

theorem Covers.applied (covers : Covers base v) {pos : Pos} {e : Entry} (found : applied base [] pos = some e) :
    v.Holds (pos, e) := by
  have read : Snapshot.applied base [] pos = (baseSlots base).foldl applySlot (fun _ => none) pos := by
    simp [Snapshot.applied, fileSlots, descending]
  rw [read, foldl_applySlot covers.recorded.once] at found
  split at found
  next d there =>
    unfold Entry.live at found
    split at found
    · cases found
    · cases found
      exact (covers.slots _).1 ((lookup_eq_some_of_once covers.recorded.once).1 there)
  · cases found

theorem Covers.wellFormed (covers : Covers base v) : WellFormed base [] where
  baseOnce := covers.recorded.once
  deltaOnce := by simp
  later := by simp
  epochs := List.Pairwise.nil
  keys := by
    intro p q d e first second same
    obtain ⟨pos, key, value, expireMs, found, eq⟩ := covers.applied first
    obtain ⟨pos', key', value', expireMs', found', eq'⟩ := covers.applied second
    obtain ⟨rfl, rfl⟩ := Prod.mk.inj eq
    obtain ⟨rfl, rfl⟩ := Prod.mk.inj eq'
    simp only at same
    subst same
    rw [found] at found'
    exact (Prod.mk.inj (Option.some.inj found')).1

theorem Covers.restore (covers : Covers base v) (now : Nat) (key : Bytes) :
    KeyMap.ofList (snapEngineRestore now base []) key =
      (v key).bind fun r => if Session.passed now r.2.2 then none else some r.2 := by
  have same (pos : Pos) : Snapshot.taken base [] pos = newest base [] pos := by
    simp [Snapshot.taken, readOrder, newest, fileSlots, descending]
  have distinct : ((snapEngineRestore now base []).map Entry.key).Nodup := keys_distinct covers.wellFormed same
  have member (r : Bytes × Nat) : KeyMap.ofList (snapEngineRestore now base []) key = some r ↔
      ∃ pos, v key = some (pos, r) ∧ Session.passed now r.2 = false := by
    rw [ofList_eq distinct]
    constructor
    · rintro ⟨e, there, rfl, rfl⟩
      obtain ⟨pos, took, -, kept⟩ := mem_snapEngineRestore.1 there
      obtain ⟨pos', key', value, expireMs, found, eq⟩ := covers.taken.1 took
      obtain ⟨rfl, rfl⟩ := Prod.mk.inj eq
      exact ⟨pos, found, kept⟩
    · rintro ⟨pos, found, kept⟩
      refine ⟨(View.record pos key r.1 r.2).2, mem_snapEngineRestore.2 ⟨pos, covers.taken.2 ?_, rfl, kept⟩, rfl, rfl⟩
      exact ⟨pos, key, r.1, r.2, found, rfl⟩
  cases found : v key with
  | none =>
    refine Option.eq_none_iff_forall_not_mem.2 fun r there => ?_
    obtain ⟨pos, here, -⟩ := (member r).1 there
    rw [found] at here
    cases here
  | some x =>
    obtain ⟨pos, r⟩ := x
    rw [Option.bind_some]
    cases gone : Session.passed now r.2
    · exact (member r).2 ⟨pos, found, gone⟩
    · refine Option.eq_none_iff_forall_not_mem.2 fun r' there => ?_
      obtain ⟨pos', here, kept⟩ := (member r').1 there
      rw [found, Option.some.injEq, Prod.mk.injEq] at here
      rw [← here.2, gone] at kept
      cases kept

end Base

section Epochs

variable {t : Traced} {base : Option File} {before : View}

def Traced.slots (t : Traced) : List (Pos × Entry) := t.file.flatMap PageRecord.slots

theorem Tracks.frozen_perm (tracks : Tracks t) (idle : t.shard.isSnapshotting = false) :
    t.frozen.Perm t.done ∧ t.slots = t.done.map (Traced.owed t.last) := by
  obtain ⟨-, all, file⟩ := tracks.idle idle
  have split := tracks.split
  rw [all, List.append_nil] at split
  exact ⟨split, file⟩

theorem Tracks.mem_slots (tracks : Tracks t) (idle : t.shard.isSnapshotting = false) (slot : Pos × Entry) :
    slot ∈ t.slots ↔ ∃ m ∈ t.frozen, Traced.owed t.last m = slot := by
  obtain ⟨perm, slots⟩ := tracks.frozen_perm idle
  rw [slots, List.mem_map]
  simp only [perm.mem_iff]

theorem Tracks.mem_places (tracks : Tracks t) (idle : t.shard.isSnapshotting = false) (pos : Pos) :
    pos ∈ t.slots.map Prod.fst ↔ ∃ m ∈ t.frozen, m.pos = pos := by
  obtain ⟨perm, slots⟩ := tracks.frozen_perm idle
  rw [slots, List.map_map, List.mem_map]
  simp only [perm.mem_iff]
  rfl

theorem Tracks.mem_slots_mark (tracks : Tracks t) (idle : t.shard.isSnapshotting = false) {m : Mark} (member : m ∈ t.frozen)
    (e : Entry) : (m.pos, e) ∈ t.slots ↔ (Traced.owed t.last m).2 = e := by
  rw [tracks.mem_slots idle]
  constructor
  · rintro ⟨m', member', eq⟩
    have same : m' = m := List.inj_on_of_nodup_map tracks.once member' member (congrArg Prod.fst eq)
    rw [← same, eq]
  · rintro rfl
    exact ⟨m, member, rfl⟩

theorem History.recorded (history : History t) (idle : t.shard.isSnapshotting = false) :
    Recorded t.slots ∧ ∀ slot ∈ t.slots, slot.1.1 < t.last.nrPages := by
  obtain ⟨perm, slots⟩ := history.tracks.frozen_perm idle
  have places : t.slots.map Prod.fst = t.done.map Mark.pos := by
    rw [slots, List.map_map]
    rfl
  have bounds {slot : Pos × Entry} (there : slot ∈ t.slots) :
      slot.1.1 < t.last.nrPages ∧ slot.1.2 < snapModifiedSize * 8 := by
    obtain ⟨m, member, rfl⟩ := (history.tracks.mem_slots idle slot).1 there
    exact history.bounds m member
  refine ⟨⟨?_, fun slot there => (bounds there).2⟩, fun slot there => (bounds there).1⟩
  rw [places]
  exact (perm.map Mark.pos).nodup_iff.1 history.tracks.once

theorem History.merge (history : History t) (idle : t.shard.isSnapshotting = false) (covers : Covers base before)
    (agree : before.Agree t.last.view t.frozen) {nrPages : Nat} (enough : t.last.nrPages ≤ nrPages) (few : nrPages ≤ 2 ^ 20)
    (epoch : Nat) :
    Covers (some (snapCompactDeltaIntoBase 0 nrPages { sessionId := 0, epoch := epoch, records := t.file } base))
      t.last.view := by
  obtain ⟨fresh, inside⟩ := history.recorded idle
  have within (slot : Pos × Entry) (there : slot ∈ t.slots) : slot.1.1 < dedupPages nrPages :=
    lt_dedupPages (Nat.lt_of_lt_of_le (inside slot there) enough) few
  let delta : File := { sessionId := 0, epoch := epoch, records := t.file }
  have same : delta.slots = t.slots := rfl
  have slots : (snapCompactDeltaIntoBase 0 nrPages delta base).slots = t.slots.filter (!·.2.deleted) ++
      (baseSlots base).filter fun slot => slot.1 ∉ t.slots.map Prod.fst && !slot.2.deleted :=
    slots_snapCompactDeltaIntoBase (same ▸ fresh) covers.recorded within
  refine ⟨recorded_snapCompactDeltaIntoBase (same ▸ fresh) covers.recorded within, fun ⟨pos, e⟩ => ?_⟩
  change (pos, e) ∈ (snapCompactDeltaIntoBase 0 nrPages delta base).slots ↔ _
  simp only [slots, List.mem_append, List.mem_filter, Bool.and_eq_true, Bool.not_eq_true', decide_eq_true_eq]
  by_cases under : ∃ m ∈ t.frozen, m.pos = pos
  · have listed := (history.tracks.mem_places idle pos).2 under
    obtain ⟨m, member, rfl⟩ := under
    simp only [listed, not_true_eq_false, false_and, and_false, or_false]
    rw [history.tracks.mem_slots_mark idle member, history.frozen m member e]
  · have absent := mt (history.tracks.mem_places idle pos).1 under
    have missing : (pos, e) ∉ t.slots := fun there => absent (List.mem_map_of_mem there)
    have present (holds : before.Holds (pos, e)) : e.deleted = false := by
      obtain ⟨_, _, _, _, -, eq⟩ := holds
      rw [(Prod.mk.inj eq).2]
    simp only [missing, false_and, false_or, absent, not_false_eq_true, true_and]
    rw [covers.slots, ← agree (pos, e) fun m member here => under ⟨m, member, here⟩]
    exact ⟨And.left, fun holds => ⟨holds, present holds⟩⟩

end Epochs

section Phases

variable {s s' : Shard}

theorem shardObjDestroy_isSnapshotting (s : Shard) (ptr : Nat) : (s.shardObjDestroy ptr).isSnapshotting = s.isSnapshotting := by
  obtain ⟨_, _, eq⟩ := s.snapObjMark_frame ptr (s.sizeAt ptr)
  have marked : (s.snapObjMark ptr (s.sizeAt ptr)).isSnapshotting = s.isSnapshotting := by rw [eq]
  exact marked

theorem shardKeySet_isSnapshotting {key value : Bytes} {expireMs : Nat} {place : Place}
    (done : s.shardKeySet key value expireMs place = some s') : s'.isSnapshotting = s.isSnapshotting := by
  obtain ⟨placed, malloc, rfl⟩ := Option.map_eq_some_iff.1 done
  have same : placed.isSnapshotting = s.isSnapshotting := by
    cases place with
    | slot span i =>
      simp only [memMalloc, Option.ite_none_right_eq_some, Option.some.injEq] at malloc
      rw [← malloc.2]
    | pages head =>
      simp only [memMalloc, Option.ite_none_right_eq_some, Option.some.injEq] at malloc
      rw [← malloc.2]
      rfl
  obtain ⟨_, _, eq⟩ := (placed.putObj place.addr (KvObj.make key value expireMs)).snapObjMark_frame place.addr
    (markSize (totalSize key.length value.length))
  dsimp only
  rw [eq]
  split
  next old _ => exact (shardObjDestroy_isSnapshotting _ old).trans same
  · exact same

inductive Phase (s s' : Shard) (op : Shard.Op) : Option (List PageRecord) → Prop
  | starts (tick : op = .tick) (idle : s.isSnapshotting = false) (busy : s'.isSnapshotting = true) : Phase s s' op none
  | stays (other : op ≠ .tick) (same : s'.isSnapshotting = s.isSnapshotting) : Phase s s' op none
  | ends (records : List PageRecord) (other : op ≠ .tick) (busy : s.isSnapshotting = true)
      (idle : s'.isSnapshotting = false) : Phase s s' op (some records)

theorem phase_serialize {file : Option (List PageRecord)} (moved : s.snapSerializeEpoch = some (s', file)) :
    Phase s s' .serialize file := by
  obtain ⟨busy, does⟩ := serializes_iff.1 moved
  cases does with
  | startPage =>
    refine .stays nofun ?_
    unfold Shard.startPage
    split <;> rfl
  | finish => exact .ends _ nofun busy rfl
  | _ => exact .stays nofun rfl

theorem phase_step {op : Shard.Op} {file : Option (List PageRecord)} (moved : s.step op = some (s', file)) :
    Phase s s' op file := by
  cases Shard.stepped moved with
  | grow => exact .stays nofun rfl
  | newSpan made =>
    simp only [poolSpanInit, Option.ite_none_right_eq_some, Option.some.injEq] at made
    exact .stays nofun (by rw [← made.2]; rfl)
  | reclaimSpan made =>
    simp only [poolSpanReclaim, Option.ite_none_right_eq_some, Option.some.injEq] at made
    exact .stays nofun (by rw [← made.2]; rfl)
  | set made => exact .stays nofun (shardKeySet_isSnapshotting made)
  | del key =>
    refine .stays nofun ?_
    unfold shardKeyDelete
    split
    next ptr _ => exact shardObjDestroy_isSnapshotting (s.link key none) ptr
    · rfl
  | free made =>
    simp only [memFree, Option.ite_none_right_eq_some, Option.some.injEq] at made
    refine .stays nofun ?_
    rw [← made.2]
    split <;> rfl
  | tick made =>
    simp only [snapEngineTick, Option.ite_none_left_eq_some, Option.some.injEq, Bool.not_eq_true] at made
    exact .starts rfl made.1 (by rw [← made.2])
  | serialize made => exact phase_serialize made

end Phases

section TracedStep

variable {t t' : Traced} {op : Shard.Op} {s' : Shard} {file : Option (List PageRecord)}

theorem Traced.step_shard (moved : t.step op = some t') (taken : t.shard.step op = some (s', file)) :
    t'.shard = s' ∧ t'.file = file.getD t.file := by
  simp only [Traced.step, taken, Option.map_some, Option.some.injEq] at moved
  subst moved
  cases op with
  | serialize => cases t.shard.nextVisit <;> exact ⟨rfl, rfl⟩
  | _ => exact ⟨rfl, rfl⟩

theorem Traced.step_last (moved : t.step op = some t') :
    (op = .tick → t'.last = t.shard ∧ t'.frozen = t.marked) ∧ (op ≠ .tick → t'.last = t.last ∧ t'.frozen = t.frozen) := by
  simp only [Traced.step, Option.map_eq_some_iff] at moved
  obtain ⟨_, -, rfl⟩ := moved
  cases op with
  | tick => exact ⟨fun _ => ⟨rfl, rfl⟩, fun other => absurd rfl other⟩
  | serialize => cases t.shard.nextVisit <;> exact ⟨by rintro ⟨⟩, fun _ => ⟨rfl, rfl⟩⟩
  | _ => exact ⟨by rintro ⟨⟩, fun _ => ⟨rfl, rfl⟩⟩

end TracedStep

namespace Session

variable {s s' : Session}

structure Kept (s : Session) : Prop where
  history : History s.traced
  idle : s.traced.shard.isSnapshotting = false → Covers s.base s.traced.last.view
  busy : s.traced.shard.isSnapshotting = true → ∃ before, Covers s.base before ∧ before.Agree s.traced.last.view s.traced.frozen

theorem Kept.initial : Kept {} where
  history := .initial
  idle := fun _ => ⟨⟨by simp [baseSlots], by simp [baseSlots]⟩, fun slot => by simp [baseSlots, View.Holds, Shard.view, Shard.empty]⟩
  busy := by simp [Shard.empty]

theorem Kept.shardStep {op : Shard.Op} (kept : s.Kept) (fits : s.traced.Fits op) (moved : s.shardStep op = some s') : s'.Kept := by
  obtain ⟨⟨after, file⟩, taken, rest⟩ := Option.bind_eq_some_iff.1 moved
  obtain ⟨t', traced, rfl⟩ := Option.map_eq_some_iff.1 rest
  have history := kept.history.step fits traced
  obtain ⟨shard, written⟩ := Traced.step_shard traced taken
  obtain ⟨ticked, untouched⟩ := Traced.step_last traced
  cases phase_step taken with
  | starts tick idle busy =>
    obtain ⟨last, frozen⟩ := ticked tick
    refine ⟨history, fun off => ?_, fun _ => ⟨s.traced.last.view, kept.idle idle, ?_⟩⟩
    · rw [shard, busy] at off; cases off
    · change s.traced.last.view.Agree t'.last.view t'.frozen
      rw [last, frozen]
      exact kept.history.recent
  | stays other same =>
    obtain ⟨last, frozen⟩ := untouched other
    refine ⟨history, fun off => ?_, fun on => ?_⟩
    · change Covers s.base t'.last.view
      rw [last]
      exact kept.idle (same ▸ shard ▸ off)
    · obtain ⟨before, covers, agree⟩ := kept.busy (same ▸ shard ▸ on)
      refine ⟨before, covers, ?_⟩
      change before.Agree t'.last.view t'.frozen
      rw [last, frozen]
      exact agree
  | ends records other busy idle =>
    obtain ⟨last, frozen⟩ := untouched other
    obtain ⟨before, covers, agree⟩ := kept.busy busy
    have file : t'.file = records := written
    refine ⟨history, fun _ => ?_, fun on => ?_⟩
    · have merged := history.merge (shard ▸ idle) covers (last ▸ frozen ▸ agree) (shard ▸ history.grown)
        (shard ▸ history.tracks.layout.few) s.traced.shard.currentEpoch
      rw [file] at merged
      exact merged
    · change t'.shard.isSnapshotting = true at on
      rw [shard, idle] at on
      cases on

theorem Kept.step {op : Op} (kept : s.Kept) (fits : s.Fits op) (moved : s.step op = some s') : s'.Kept := by
  cases op with
  | shard op => exact kept.shardStep fits moved
  | expire key expireMs =>
    cases moved
    unfold shardKeyExpire
    split
    · exact kept
    · split
      · exact kept
      · exact ⟨kept.history, kept.idle, kept.busy⟩

open Transition in
theorem ttl_durable_iff {s : Session} (run : Reaches step Fits {} s) (idle : s.traced.shard.isSnapshotting = false)
    (now : Nat) (key : Bytes) : s.restored now key = s.expected now key ↔ s.InStep now key := by
  have kept : s.Kept := run.invariant Kept.initial Kept.step
  have read : s.restored now key = (s.traced.last.table key).bind fun ptr =>
      if passed now (s.traced.last.obj ptr).expireMs then none
      else some ((s.traced.last.obj ptr).value, (s.traced.last.obj ptr).expireMs) := by
    rw [restored, (kept.idle idle).restore now key, Shard.view, Option.bind_map]
    rfl
  rw [read, expected, InStep]
  cases s.traced.last.table key with
  | none => simp
  | some ptr =>
    simp only [Option.bind_some, Option.mem_def, Option.some.injEq, forall_eq']
    by_cases same : (s.traced.last.obj ptr).expireMs = s.frozenExpiry key
    · simp [same]
    · cases passed now (s.traced.last.obj ptr).expireMs <;> cases passed now (s.frozenExpiry key) <;> simp [same]

def ttlOps (expireMs : Nat) (more : List Op) : List Op :=
  [.shard (.newSpan ⟨64, 0⟩), .shard (.set [107] [118] expireMs (.slot ⟨64, 0⟩ 63))] ++ more ++
    .shard .tick :: List.replicate 13 (.shard .serialize)

def ttlRun (expireMs : Nat) (more : List Op) : Option Session :=
  Transition.follow step (fun s op => decide (s.Fits op)) (ttlOps expireMs more) {}

theorem ttlRun_reaches {expireMs : Nat} {more : List Op} {s : Session} (ran : ttlRun expireMs more = some s) :
    Transition.Reaches step Fits {} s := Transition.follow_reaches (fun _ _ => of_decide_eq_true) ran

theorem ttl_durable_set_ex : ∃ s, ttlRun 100 [] = some s ∧ s.traced.shard.isSnapshotting = false ∧
    s.restored 50 [107] = some ([118], 100) ∧ (s.restored 50 [107] = s.expected 50 [107] ↔ s.InStep 50 [107]) := by
  have ran : (ttlRun 100 []).map (fun s => (s.traced.shard.isSnapshotting, s.restored 50 [107])) =
      some (false, some ([118], 100)) := by decide +kernel
  obtain ⟨s, followed, fields⟩ := Option.map_eq_some_iff.1 ran
  obtain ⟨idle, found⟩ := Prod.mk.inj fields
  exact ⟨s, followed, idle, found, ttl_durable_iff (ttlRun_reaches followed) idle 50 [107]⟩

def ttlFindings (s : Session) : List (Option (Bytes × Nat)) :=
  [s.restored 50 [107], s.restored 200 [107], s.expected 50 [107], s.expected 200 [107]]

/-- SET k v and then EXPIRE: at the snapshot the bucket has the time 100, and after a restart, even at a later time, the
key is there without one. -/
theorem expire_not_durable : ∃ s, ttlRun 0 [.expire [107] 100] = some s ∧ s.traced.shard.isSnapshotting = false ∧
    s.frozenExpiry [107] = 100 ∧ s.restored 50 [107] = some ([118], 0) ∧ s.restored 200 [107] = some ([118], 0) ∧
    s.restored 50 [107] ≠ s.expected 50 [107] ∧ s.restored 200 [107] ≠ s.expected 200 [107] := by
  have ran : (ttlRun 0 [.expire [107] 100]).map (fun s => (s.traced.shard.isSnapshotting, s.frozenExpiry [107])) =
      some (false, 100) := by decide +kernel
  have found : (ttlRun 0 [.expire [107] 100]).map ttlFindings =
      some [some ([118], 0), some ([118], 0), some ([118], 100), none] := by decide +kernel
  obtain ⟨s, followed, fields⟩ := Option.map_eq_some_iff.1 ran
  rw [followed, Option.map_some, Option.some.injEq] at found
  simp only [ttlFindings, List.cons.injEq, and_true] at found
  obtain ⟨idle, expiry⟩ := Prod.mk.inj fields
  obtain ⟨early, late, wanted, gone⟩ := found
  refine ⟨s, followed, idle, expiry, early, late, ?_, ?_⟩
  · simp [early, wanted]
  · simp [late, gone]

end Session

end FreakV.Snapshot
