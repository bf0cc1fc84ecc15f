import FreakV.Snapshot.Epoch

namespace FreakV.Snapshot

open Snapshot.Shard

abbrev View := Bytes → Option (Pos × Bytes × Nat)

def Shard.view (s : Shard) : View := fun key =>
  (s.table key).map fun ptr => (s.pos ptr, (s.obj ptr).value, (s.obj ptr).expireMs)

namespace View

def record (pos : Pos) (key value : Bytes) (expireMs : Nat) : Pos × Entry :=
  (pos, { slotIndex := pos.2, key := key, value := value, expireMs := expireMs, deleted := false })

def Holds (v : View) (slot : Pos × Entry) : Prop :=
  ∃ pos key value expireMs, v key = some (pos, value, expireMs) ∧ slot = record pos key value expireMs

structure Sound (v : View) (nrPages : Nat) : Prop where
  inj : ∀ key key' pos r r', v key = some (pos, r) → v key' = some (pos, r') → key = key'
  bounds : ∀ key pos r, v key = some (pos, r) → pos.1 < nrPages ∧ pos.2 < snapModifiedSize * 8
  short : ∀ key pos value expireMs, v key = some (pos, value, expireMs) → key.length < 2 ^ 16 ∧ value.length < 2 ^ 32

def Agree (v v' : View) (marked : List Mark) : Prop :=
  ∀ slot, (∀ m ∈ marked, m.pos ≠ slot.1) → (v.Holds slot ↔ v'.Holds slot)

variable {v v' v'' : View} {marked : List Mark}

theorem Agree.refl (v : View) (marked : List Mark) : Agree v v marked := fun _ _ => Iff.rfl

theorem Agree.trans {more : List Mark} (first : Agree v v' marked) (second : Agree v' v'' more) :
    Agree v v'' (more ∪ marked) := by
  intro slot apart
  exact (first slot fun m member => apart m (List.mem_union_iff.2 (.inr member))).trans
    (second slot fun m member => apart m (List.mem_union_iff.2 (.inl member)))

theorem Agree.update {key : Bytes} {new : Option (Pos × Bytes × Nat)}
    (old : ∀ pos r, v key = some (pos, r) → ∃ m ∈ marked, m.pos = pos)
    (fresh : ∀ pos r, new = some (pos, r) → ∃ m ∈ marked, m.pos = pos) :
    Agree v (Function.update v key new) marked := by
  intro slot apart
  constructor
  · rintro ⟨pos, key', value, expireMs, found, rfl⟩
    refine ⟨pos, key', value, expireMs, ?_, rfl⟩
    rw [Function.update_of_ne, found]
    rintro rfl
    obtain ⟨m, member, here⟩ := old _ _ found
    exact apart m member here
  · rintro ⟨pos, key', value, expireMs, found, rfl⟩
    rw [Function.update_apply] at found
    split at found
    · obtain ⟨m, member, here⟩ := fresh _ _ found
      exact absurd here (apart m member)
    · exact ⟨pos, key', value, expireMs, found, rfl⟩

end View

section Steps

variable {s s' : Shard} {t t' : Traced} {ptr objSize : Nat} {o : KvObj}

theorem view_congr (table : s'.table = s.table)
    (same : ∀ key ptr, s.table key = some ptr → s'.pos ptr = s.pos ptr ∧ (s'.obj ptr).value = (s.obj ptr).value ∧
      (s'.obj ptr).expireMs = (s.obj ptr).expireMs) : s'.view = s.view := by
  funext key
  rw [Shard.view, Shard.view, table]
  refine Option.map_congr fun ptr found => ?_
  obtain ⟨pos, value, expireMs⟩ := same key ptr found
  rw [pos, value, expireMs]

theorem view_steady (table : s'.table = s.table) (steady : ∀ key ptr, s.table key = some ptr → Steady s s' ptr) :
    s'.view = s.view :=
  view_congr table fun key ptr found => ⟨pos_congr (steady key ptr found).page, by rw [(steady key ptr found).obj],
    by rw [(steady key ptr found).obj]⟩

theorem HeapStep.view (moved : HeapStep t.shard s') (tracks : Tracks t) : s'.view = t.shard.view :=
  view_steady moved.only.table fun key ptr found =>
    moved.steady ptr (tracks.flags.table key ptr found).used (le_trans (by decide) (tracks.flags.table key ptr found).held)

theorem Placed.view (placed : Placed t.shard s' ptr objSize o) (tracks : Tracks t) : s'.view = t.shard.view := by
  refine view_steady placed.only.table fun key q found => ?_
  have used := (tracks.flags.table key q found).used
  have other : q ≠ ptr := by
    rintro rfl
    rw [placed.free] at used
    cases used
  refine .of_keeps tracks.layout placed.keeps used ?_ ?_
  · rwa [placed.used, Function.update_of_ne other]
  · rw [placed.obj, Function.update_of_ne other]

theorem view_snapObjMark (s : Shard) (ptr objSize : Nat) : (s.snapObjMark ptr objSize).view = s.view :=
  view_congr (by simp) fun key q _ => ⟨pos_congr (by simp), by simp, by simp⟩

theorem view_putObj (s : Shard) (ptr : Nat) (o : KvObj) (value : o.value = (s.obj ptr).value)
    (expireMs : o.expireMs = (s.obj ptr).expireMs) : (s.putObj ptr o).view = s.view := by
  refine view_congr rfl fun key q _ => ?_
  simp only [putObj, Function.update_apply]
  split
  next here => exact ⟨rfl, here ▸ value, here ▸ expireMs⟩
  · exact ⟨rfl, rfl, rfl⟩

theorem view_shardObjDestroy (s : Shard) (ptr : Nat) : (s.shardObjDestroy ptr).view = s.view := by
  refine Eq.trans ?_ (view_snapObjMark s ptr (s.sizeAt ptr))
  exact view_putObj _ _ _ (by rw [snapObjMark_obj]; rfl) (by rw [snapObjMark_obj])

theorem view_link (s : Shard) (key : Bytes) (new : Option Nat) : (s.link key new).view =
    Function.update s.view key (new.map fun ptr => (s.pos ptr, (s.obj ptr).value, (s.obj ptr).expireMs)) := by
  funext key'
  simp only [Shard.view, Shard.link, Function.update_apply]
  split <;> rfl

theorem Tracks.view_set (tracks : Tracks t) {key value : Bytes} {expireMs : Nat} {place : Place}
    (done : t.shard.shardKeySet key value expireMs place = some s') :
    ∃ pos, s'.view = Function.update t.shard.view (KvObj.make key value expireMs).key
        (some (pos, (KvObj.make key value expireMs).value, expireMs)) ∧
      t.shard.view.Agree s'.view (t.shard.marks (.set key value expireMs place)) := by
  unfold shardKeySet at done
  simp only [Option.map_eq_some_iff] at done
  obtain ⟨s₁, got, made⟩ := done
  have placed := Placed.of_memMalloc expireMs tracks.layout got
  have table : (s₁.putObj place.addr (KvObj.make key value expireMs)).table = t.shard.table := placed.only.table
  have marks := tracks.marks_set expireMs got
  have here : (s₁.putObj place.addr (KvObj.make key value expireMs)).obj place.addr = KvObj.make key value expireMs :=
    Function.update_self ..
  have linked : (((s₁.putObj place.addr (KvObj.make key value expireMs)).snapObjMark place.addr
      (markSize (totalSize key.length value.length))).link (KvObj.make key value expireMs).key (some place.addr)).view =
      Function.update t.shard.view (KvObj.make key value expireMs).key
        (some (s₁.pos place.addr, (KvObj.make key value expireMs).value, expireMs)) := by
    rw [view_link, view_snapObjMark, placed.view tracks]
    simp only [Option.map_some, snapObjMark_obj, here]
    rw [pos_congr (s := s₁) (by rw [snapObjMark_pages]; rfl)]
    rfl
  have view : s'.view = Function.update t.shard.view (KvObj.make key value expireMs).key
      (some (s₁.pos place.addr, (KvObj.make key value expireMs).value, expireMs)) := by
    rw [← made]
    split
    · rw [view_shardObjDestroy, linked]
    · exact linked
  refine ⟨s₁.pos place.addr, view, ?_⟩
  rw [view, marks]
  refine View.Agree.update (fun pos r found => ?_) fun pos r found => ?_
  · simp only [Shard.view, Option.map_eq_some_iff, Prod.mk.injEq] at found
    obtain ⟨old, listed, rfl, -⟩ := found
    have kept : s₁.pos old = t.shard.pos old :=
      placed.keeps.pos (tracks.layout.located old (tracks.flags.table _ _ listed).used)
    exact ⟨⟨old, s₁.pos old⟩, by simp [listed], kept⟩
  · cases found
    exact ⟨⟨place.addr, s₁.pos place.addr⟩, by simp, rfl⟩

theorem Tracks.view_del (tracks : Tracks t) (key : Bytes) :
    (t.shard.shardKeyDelete key).view = Function.update t.shard.view key none ∧
      t.shard.view.Agree (t.shard.shardKeyDelete key).view (t.shard.marks (.del key)) := by
  have view : (t.shard.shardKeyDelete key).view = Function.update t.shard.view key none := by
    unfold shardKeyDelete
    split
    · rw [view_shardObjDestroy, view_link, Option.map_none]
    next found =>
      rw [eq_comm, Function.update_eq_self_iff, Shard.view, found]
      rfl
  refine ⟨view, ?_⟩
  rw [view]
  refine View.Agree.update (fun pos r found => ?_) (by simp)
  simp only [Shard.view, Option.map_eq_some_iff, Prod.mk.injEq] at found
  obtain ⟨old, listed, rfl, -⟩ := found
  refine ⟨⟨old, t.shard.pos old⟩, ?_, rfl⟩
  simp [marks, listed, tracks.mark_eq (tracks.flags.table _ _ listed).used]

theorem view_serialize {file : Option (List PageRecord)} (done : s.snapSerializeEpoch = some (s', file)) :
    s'.view = s.view := by
  obtain ⟨-, does⟩ := serializes_iff.1 done
  cases does with
  | @writeSlot w p slot ptr rest =>
    have keeps : (s.obj ptr).visited.value = (s.obj ptr).value ∧ (s.obj ptr).visited.expireMs = (s.obj ptr).expireMs := by
      unfold KvObj.visited
      split <;> exact ⟨rfl, rfl⟩
    exact view_putObj s ptr _ keeps.1 keeps.2
  | startPage =>
    unfold Shard.startPage
    split <;> rfl
  | _ => rfl

theorem Tracks.view_step {op : Op} {s' : Shard} {file : Option (List PageRecord)} (tracks : Tracks t)
    (done : t.shard.step op = some (s', file)) : t.shard.view.Agree s'.view (t.shard.marks op) := by
  have same (view : s'.view = t.shard.view) : t.shard.view.Agree s'.view (t.shard.marks op) :=
    view ▸ View.Agree.refl _ _
  cases Shard.stepped done with
  | grow more => exact same rfl
  | newSpan made => exact same ((HeapStep.newSpan tracks.layout made).view tracks)
  | reclaimSpan made => exact same ((HeapStep.reclaimSpan tracks.layout made).view tracks)
  | set made =>
    obtain ⟨_, -, agree⟩ := tracks.view_set made
    exact agree
  | del key => exact (tracks.view_del key).2
  | free made => exact same ((HeapStep.free tracks.layout made).view tracks)
  | tick made =>
    unfold snapEngineTick at made
    split at made
    · cases made
    · cases made
      exact same rfl
  | serialize made => exact same (view_serialize made)

end Steps

section History

variable {s s' : Shard} {t t' : Traced} {ptr : Nat} {o : KvObj}

def KvObj.Short (o : KvObj) : Prop := o.keyLen < 2 ^ 16 ∧ o.valLen < 2 ^ 32

def KvObj.Alive (o : KvObj) : Prop := o.snapFlag = .liveFresh ∨ o.snapFlag = .liveVisited

def Listed (s : Shard) : Prop := ∀ ptr, s.used ptr = true → (s.obj ptr).Alive → ∃ key, s.table key = some ptr

theorem KvObj.short_make (key value : Bytes) (expireMs : Nat) : (KvObj.make key value expireMs).Short :=
  ⟨Nat.mod_lt _ (by norm_num), Nat.mod_lt _ (by norm_num)⟩

theorem KvObj.Short.lengths (short : o.Short) : o.key.length < 2 ^ 16 ∧ o.value.length < 2 ^ 32 := by
  have key : o.key.length ≤ o.keyLen := List.length_take_le ..
  have value : o.value.length ≤ o.valLen := List.length_take_le ..
  exact ⟨lt_of_le_of_lt key short.1, lt_of_le_of_lt value short.2⟩

theorem shardObjDestroy_obj (s : Shard) (ptr q : Nat) :
    (q ≠ ptr → (s.shardObjDestroy ptr).obj q = s.obj q) ∧ (q = ptr → ¬((s.shardObjDestroy ptr).obj q).Alive) ∧
      ((s.obj q).Short → ((s.shardObjDestroy ptr).obj q).Short) := by
  unfold shardObjDestroy
  simp only [putObj, snapObjMark_obj, Function.update_apply]
  refine ⟨fun other => if_neg other, fun here => ?_, fun short => ?_⟩
  · rw [if_pos here, KvObj.Alive]
    simp only
    split <;> simp
  · split
    next here =>
      subst here
      exact short
    · exact short

theorem shardObjDestroy_frame (s : Shard) (ptr : Nat) :
    (s.shardObjDestroy ptr).table = s.table ∧ (s.shardObjDestroy ptr).used = s.used ∧
      (s.shardObjDestroy ptr).nrPages = s.nrPages :=
  ⟨snapObjMark_table s ptr _, snapObjMark_used s ptr _, snapObjMark_nrPages s ptr _⟩

theorem Tracks.sound (tracks : Tracks t) (short : ∀ ptr, (t.shard.obj ptr).Short) :
    t.shard.view.Sound t.shard.nrPages := by
  have listed {key : Bytes} {r : Pos × Bytes × Nat} (found : t.shard.view key = some r) :
      ∃ ptr, Live t.shard key ptr ∧ r = (t.shard.pos ptr, (t.shard.obj ptr).value, (t.shard.obj ptr).expireMs) := by
    obtain ⟨ptr, place, rfl⟩ := Option.map_eq_some_iff.1 found
    exact ⟨ptr, tracks.flags.table key ptr place, rfl⟩
  refine ⟨fun key key' pos r r' found found' => ?_, fun key pos r found => ?_, fun key pos value expireMs found => ?_⟩
  · obtain ⟨ptr, live, eq⟩ := listed found
    obtain ⟨ptr', live', eq'⟩ := listed found'
    have same : ptr = ptr' := (tracks.layout.located _ live.used).pos_inj (tracks.layout.located _ live'.used)
      ((Prod.mk.inj eq).1.symm.trans (Prod.mk.inj eq').1)
    rw [← live.key, ← live'.key, same]
  · obtain ⟨ptr, live, eq⟩ := listed found
    have located := tracks.layout.located _ live.used
    rw [(Prod.mk.inj eq).1]
    exact ⟨pos_fst t.shard ptr ▸ located.inside, located.slot_small⟩
  · obtain ⟨ptr, live, eq⟩ := listed found
    simp only [Prod.mk.injEq] at eq
    rw [← live.key, eq.2.1]
    exact (short ptr).lengths

theorem Tracks.holds_iff (tracks : Tracks t) (idle : t.shard.isSnapshotting = false) (listed : Listed t.shard) {m : Mark}
    (member : m ∈ t.marked) (e : Entry) :
    t.shard.view.Holds (m.pos, e) ↔ (Traced.owed t.shard m).2 = e ∧ e.deleted = false := by
  have pinned := tracks.active.pinned m member
  constructor
  · rintro ⟨pos, key, value, expireMs, found, eq⟩
    obtain ⟨ptr, listed', eq'⟩ := Option.map_eq_some_iff.1 found
    have live := tracks.flags.table key ptr listed'
    simp only [Prod.mk.injEq] at eq'
    obtain ⟨rfl, rfl, rfl⟩ := eq'
    obtain ⟨here, rfl⟩ := Prod.mk.inj eq
    have same : m.ptr = ptr := (tracks.layout.located _ pinned.used).pos_inj (tracks.layout.located _ live.used)
      (pinned.pos.symm.trans here)
    refine ⟨?_, rfl⟩
    have alive : (t.shard.obj ptr).snapFlag ≠ .deadSafe := by
      rcases live.flag with flag | flag <;> simp [flag]
    rw [Traced.owed, same, here, KvObj.entry, if_neg alive, live.key]
  · rintro ⟨rfl, present⟩
    have fresh : (t.shard.obj m.ptr).snapFlag = .liveFresh := by
      obtain ⟨visited, pending⟩ := tracks.flags.recent m member
      rw [(tracks.idle idle).2.1] at pending
      cases flag : (t.shard.obj m.ptr).snapFlag with
      | liveFresh => rfl
      | deadSafe => simp [Traced.owed, KvObj.entry, flag] at present
      | deadPending => simpa using pending flag
      | liveVisited => exact absurd flag visited
    obtain ⟨key, found⟩ := listed m.ptr pinned.used (.inl fresh)
    have live := tracks.flags.table key _ found
    refine ⟨m.pos, key, (t.shard.obj m.ptr).value, (t.shard.obj m.ptr).expireMs, ?_, ?_⟩
    · rw [Shard.view, found, pinned.pos]
      rfl
    · simp [Traced.owed, KvObj.entry, fresh, View.record, live.key]

theorem Listed.link (listed : Listed s) (key : Bytes) (new : Option Nat)
    (used : ∀ q, s'.used q = true → s.used q = true ∨ new = some q) (table : s'.table = Function.update s.table key new)
    (obj : ∀ q, new ≠ some q → s.table key ≠ some q → s'.obj q = s.obj q)
    (dead : ∀ q, new ≠ some q → s.table key = some q → ¬(s'.obj q).Alive) : Listed s' := by
  intro q taken alive
  rw [table]
  by_cases fresh : new = some q
  · exact ⟨key, by rw [Function.update_self, fresh]⟩
  · have old : s.table key ≠ some q := fun here => dead q fresh here alive
    rw [obj q fresh old] at alive
    obtain ⟨key', found⟩ := listed q ((used q taken).resolve_right fresh) alive
    refine ⟨key', ?_⟩
    rw [Function.update_of_ne, found]
    rintro rfl
    exact old found

theorem HeapStep.listed (moved : HeapStep s s') (listed : Listed s) : Listed s' := by
  intro q taken alive
  rw [moved.obj] at alive
  rw [moved.only.table]
  exact listed q (moved.fewer q taken) alive

structure Tidy (s : Shard) : Prop where
  short : ∀ ptr, (s.obj ptr).Short
  listed : Listed s

theorem HeapStep.tidy (moved : HeapStep s s') (tidy : Tidy s) : Tidy s' :=
  ⟨fun ptr => moved.obj ▸ tidy.short ptr, moved.listed tidy.listed⟩

theorem Tracks.tidy_set (tracks : Tracks t) (tidy : Tidy t.shard) {key value : Bytes} {expireMs : Nat} {place : Place}
    (done : t.shard.shardKeySet key value expireMs place = some s') : Tidy s' ∧ t.shard.nrPages ≤ s'.nrPages := by
  unfold shardKeySet at done
  simp only [Option.map_eq_some_iff] at done
  obtain ⟨s₁, got, made⟩ := done
  have placed := Placed.of_memMalloc expireMs tracks.layout got
  have fresh := KvObj.short_make key value expireMs
  simp only [snapObjMark_table, show (s₁.putObj place.addr (KvObj.make key value expireMs)).table = t.shard.table from
    placed.only.table] at made
  generalize s₁.putObj place.addr (KvObj.make key value expireMs) = s₂ at placed made
  generalize KvObj.make key value expireMs = o at placed made fresh
  generalize place.addr = ptr at placed made
  have obj : ((s₂.snapObjMark ptr (markSize (totalSize key.length value.length))).link o.key (some ptr)).obj =
      Function.update t.shard.obj ptr o := (snapObjMark_obj ..).trans placed.obj
  have used : ((s₂.snapObjMark ptr (markSize (totalSize key.length value.length))).link o.key (some ptr)).used =
      Function.update t.shard.used ptr true := (snapObjMark_used ..).trans placed.used
  have table : ((s₂.snapObjMark ptr (markSize (totalSize key.length value.length))).link o.key (some ptr)).table =
      Function.update t.shard.table o.key (some ptr) := by
    rw [Shard.link, snapObjMark_table, placed.only.table]
  have more : t.shard.nrPages ≤
      ((s₂.snapObjMark ptr (markSize (totalSize key.length value.length))).link o.key (some ptr)).nrPages :=
    le_of_le_of_eq placed.only.nrPages (snapObjMark_nrPages ..).symm
  generalize (s₂.snapObjMark ptr (markSize (totalSize key.length value.length))).link o.key (some ptr) = s₃ at *
  have short (q : Nat) : (s₃.obj q).Short := by
    rw [obj, Function.update_apply]
    split
    · exact fresh
    · exact tidy.short q
  have taken (q : Nat) (taken : s₃.used q = true) : t.shard.used q = true ∨ some ptr = some q := by
    rw [used, Function.update_apply] at taken
    split at taken
    next here => exact .inr (by rw [here])
    · exact .inl taken
  cases found : t.shard.table o.key with
  | none =>
    simp only [found] at made
    subst made
    refine ⟨⟨short, tidy.listed.link o.key (some ptr) taken table (fun q other _ => ?_) (by simp [found])⟩, more⟩
    rw [obj, Function.update_of_ne fun here => other (by rw [here])]
  | some old =>
    simp only [found] at made
    subst made
    obtain ⟨table', used', nrPages'⟩ := shardObjDestroy_frame s₃ old
    refine ⟨⟨fun q => (shardObjDestroy_obj s₃ old q).2.2 (short q), ?_⟩, nrPages' ▸ more⟩
    refine tidy.listed.link o.key (some ptr) (fun q => used' ▸ taken q) (table'.trans table) (fun q other away => ?_)
      fun q other here => ?_
    · rw [(shardObjDestroy_obj s₃ old q).1 fun here => away (by rw [found, here]), obj,
        Function.update_of_ne fun here => other (by rw [here])]
    · rw [found, Option.some.injEq] at here
      exact (shardObjDestroy_obj s₃ old q).2.1 here.symm

theorem Tidy.del (tidy : Tidy s) (key : Bytes) : Tidy (s.shardKeyDelete key) ∧ (s.shardKeyDelete key).nrPages = s.nrPages := by
  unfold shardKeyDelete
  split
  next old found =>
    obtain ⟨table, used, nrPages⟩ := shardObjDestroy_frame (s.link key none) old
    refine ⟨⟨fun q => (shardObjDestroy_obj (s.link key none) old q).2.2 (tidy.short q), ?_⟩, nrPages⟩
    refine tidy.listed.link key none (fun q taken => .inl (used ▸ taken)) table (fun q _ away => ?_) fun q _ here => ?_
    · exact (shardObjDestroy_obj (s.link key none) old q).1 fun here => away (by rw [found, here])
    · rw [found, Option.some.injEq] at here
      exact (shardObjDestroy_obj (s.link key none) old q).2.1 here.symm
  · exact ⟨tidy, rfl⟩

theorem KvObj.visited_keeps (o : KvObj) : (o.Short → o.visited.Short) ∧ (o.visited.Alive → o.Alive) := by
  unfold KvObj.visited
  split
  next flag => exact ⟨id, fun _ => .inl flag⟩
  · exact ⟨id, fun alive => by simp [KvObj.Alive] at alive⟩
  · exact ⟨id, id⟩
  · exact ⟨id, id⟩

theorem Tidy.serialize {file : Option (List PageRecord)} (tidy : Tidy s) (done : s.snapSerializeEpoch = some (s', file)) :
    Tidy s' ∧ s'.nrPages = s.nrPages := by
  obtain ⟨-, does⟩ := serializes_iff.1 done
  cases does with
  | @writeSlot w p slot ptr rest =>
    refine ⟨⟨fun q => ?_, fun q taken alive => tidy.listed q taken ?_⟩, rfl⟩
    · rw [writeSlot_obj]
      split
      · exact (KvObj.visited_keeps _).1 (tidy.short ptr)
      · exact tidy.short q
    · rw [writeSlot_obj] at alive
      split at alive
      next here => exact here ▸ (KvObj.visited_keeps _).2 alive
      · exact alive
  | startPage =>
    unfold Shard.startPage
    split <;> exact ⟨⟨tidy.short, tidy.listed⟩, rfl⟩
  | _ => exact ⟨⟨tidy.short, tidy.listed⟩, rfl⟩

theorem Tracks.tidy_step {op : Op} {file : Option (List PageRecord)} (tracks : Tracks t) (tidy : Tidy t.shard)
    (done : t.shard.step op = some (s', file)) : Tidy s' ∧ t.shard.nrPages ≤ s'.nrPages := by
  have heap (moved : HeapStep t.shard s') : Tidy s' ∧ t.shard.nrPages ≤ s'.nrPages := ⟨moved.tidy tidy, moved.only.nrPages⟩
  cases Shard.stepped done with
  | grow more => exact ⟨⟨tidy.short, tidy.listed⟩, Nat.le_add_right _ _⟩
  | newSpan made => exact heap (.newSpan tracks.layout made)
  | reclaimSpan made => exact heap (.reclaimSpan tracks.layout made)
  | set made => exact tracks.tidy_set tidy made
  | del key =>
    obtain ⟨after, same⟩ := tidy.del key
    exact ⟨after, Nat.le_of_eq same.symm⟩
  | free made => exact heap (.free tracks.layout made)
  | tick made =>
    unfold snapEngineTick at made
    split at made
    · cases made
    · cases made
      exact ⟨⟨tidy.short, tidy.listed⟩, Nat.le_refl _⟩
  | serialize made =>
    obtain ⟨after, same⟩ := tidy.serialize made
    exact ⟨after, Nat.le_of_eq same.symm⟩

structure History (t : Traced) : Prop where
  tracks : Tracks t
  tidy : Tidy t.shard
  recent : t.last.view.Agree t.shard.view t.marked
  sound : t.last.view.Sound t.last.nrPages
  frozen : ∀ m ∈ t.frozen, ∀ e, t.last.view.Holds (m.pos, e) ↔ (Traced.owed t.last m).2 = e ∧ e.deleted = false
  bounds : ∀ m ∈ t.frozen, m.pos.1 < t.last.nrPages ∧ m.pos.2 < snapModifiedSize * 8
  grown : t.last.nrPages ≤ t.shard.nrPages

theorem History.initial : History {} := by
  have empty (key : Bytes) : Shard.empty.view key = none := rfl
  refine ⟨Tracks.initial, ⟨fun _ => ⟨Nat.two_pow_pos _, Nat.two_pow_pos _⟩, fun ptr used => by cases used⟩, View.Agree.refl _ _,
    ⟨?_, ?_, ?_⟩, by simp, by simp, Nat.le_refl _⟩ <;> simp [empty]

theorem History.step {op : Op} (history : History t) (fits : t.Fits op) (moved : t.step op = some t') : History t' := by
  have tracks := history.tracks.step fits moved
  simp only [Traced.step, Option.map_eq_some_iff, Prod.exists] at moved
  obtain ⟨s', file, done, rfl⟩ := moved
  obtain ⟨tidy, more⟩ := history.tracks.tidy_step history.tidy done
  have recent := history.recent.trans (history.tracks.view_step done)
  cases op with
  | tick =>
    obtain ⟨s', made, eq⟩ := Option.map_eq_some_iff.1 done
    cases eq
    unfold snapEngineTick at made
    split at made
    · cases made
    next off =>
      cases made
      have idle : t.shard.isSnapshotting = false := by simpa using off
      refine ⟨tracks, tidy, View.Agree.refl _ _, history.tracks.sound history.tidy.short, fun m member e => ?_,
        fun m member => ?_, Nat.le_refl _⟩
      · exact history.tracks.holds_iff idle history.tidy.listed member e
      · have pinned := history.tracks.active.pinned m member
        have located := history.tracks.layout.located _ pinned.used
        rw [pinned.pos]
        exact ⟨pos_fst t.shard m.ptr ▸ located.inside, located.slot_small⟩
  | serialize =>
    have grown := le_trans history.grown more
    cases found : t.shard.nextVisit with
    | none =>
      simp only [found] at tracks ⊢
      exact ⟨tracks, tidy, recent, history.sound, history.frozen, history.bounds, grown⟩
    | some m =>
      simp only [found] at tracks ⊢
      exact ⟨tracks, tidy, recent, history.sound, history.frozen, history.bounds, grown⟩
  | _ => exact ⟨tracks, tidy, recent, history.sound, history.frozen, history.bounds, le_trans history.grown more⟩

end History

end FreakV.Snapshot
