import FreakV.Shard.Model

namespace FreakV.Shard

open HashTable

section Entries

def Somewhere (m : KeyMap) (as : Entry → Prop) : Prop := ∃ key v, m key = some v ∧ as v

def InTable (m : KeyMap) (o : Nat) : Prop := Somewhere m fun v => v.obj.addr = o

def Due (m : KeyMap) (o expire : Nat) : Prop := Somewhere m fun v => v.obj.addr = o ∧ v.expire = expire ∧ expire ≠ 0

def Laid (obj : Nat → RawObj) (m : KeyMap) : Prop :=
  ∀ key v, m key = some v → obj v.obj.addr = v.obj ∧ v.obj.objKeyGet = key

variable {m : KeyMap} {obj : Nat → RawObj} {key : Bytes} {v : Entry} {as : Entry → Prop} {o e : Nat}

theorem Due.inTable (due : Due m o e) : InTable m o := by
  obtain ⟨key, v, entry, here, -⟩ := due
  exact ⟨key, v, entry, here⟩

theorem Laid.key_eq {key' : Bytes} {v' : Entry} (laid : Laid obj m) (first : m key = some v) (second : m key' = some v')
    (same : v.obj.addr = v'.obj.addr) : key = key' := by
  have obj := (laid key v first).1.symm.trans ((congrArg _ same).trans (laid key' v' second).1)
  rw [← (laid key v first).2, ← (laid key' v' second).2, obj]

theorem Laid.entry_eq {v' : Entry} (laid : Laid obj m) {key' : Bytes} (first : m key = some v) (second : m key' = some v')
    (same : v.obj.addr = v'.obj.addr) : v = v' := by
  rw [← laid.key_eq first second same, first] at second
  exact Option.some.inj second

theorem somewhere_update : Somewhere (Function.update m key (some v)) as ↔ as v ∨ Somewhere (m.remove key) as := by
  constructor
  · rintro ⟨other, w, entry, fits⟩
    obtain ⟨-, rfl⟩ | entry := KeyMap.update_eq_some.1 entry
    · exact .inl fits
    · exact .inr ⟨other, w, entry, fits⟩
  · rintro (fits | ⟨other, w, entry, fits⟩)
    · exact ⟨key, v, Function.update_self .., fits⟩
    · exact ⟨other, w, KeyMap.update_eq_some.2 (.inr entry), fits⟩

theorem Laid.somewhere_remove (laid : Laid obj m) (entry : m key = some v) (about : ∀ w, as w → w.obj.addr = o) :
    Somewhere (m.remove key) as ↔ o ≠ v.obj.addr ∧ Somewhere m as := by
  constructor
  · rintro ⟨other, w, entry', fits⟩
    obtain ⟨apart, entry'⟩ := KeyMap.remove_eq_some.1 entry'
    refine ⟨fun same => apart (laid.key_eq entry' entry ?_), other, w, entry', fits⟩
    rw [about w fits, same]
  · rintro ⟨away, other, w, entry', fits⟩
    refine ⟨other, w, KeyMap.remove_eq_some.2 ⟨?_, entry'⟩, fits⟩
    rintro rfl
    rw [entry, Option.some.injEq] at entry'
    exact away (by rw [entry', about w fits])

theorem somewhere_of_remove (there : Somewhere (m.remove key) as) : Somewhere m as := by
  obtain ⟨other, v, entry, fits⟩ := there
  exact ⟨other, v, (KeyMap.remove_eq_some.1 entry).2, fits⟩

theorem remove_of_none (missing : m key = none) : m.remove key = m := by
  rw [KeyMap.remove, ← missing, Function.update_eq_self]

theorem Laid.remove (laid : Laid obj m) : Laid obj (m.remove key) := fun other w entry =>
  laid other w (KeyMap.remove_eq_some.1 entry).2

end Entries

structure State.Agree (hash : Bytes → BitVec 64) (s : State) : Prop where
  inv : Inv hash s.table
  listed : s.lru.Keeps (InTable s.table.view)
  heap : s.ttl.Valid
  timed : ∀ o e, s.ttl.Holds o e ↔ Due s.table.view o e
  laid : Laid s.obj s.table.view
  inUse : ∀ o, InTable s.table.view o → s.inUse o = true
  -- key_len has 16 bits
  lengths : ∀ o, (s.obj o).keyLen ≤ 65535

def Env.Safe (env : Env) (o : RawObj) : Prop := env.lastRef o.addr = true → Keyspace.Harmless env.heap.acts o

namespace TtlIndex

theorem Valid.pushed {ttl : TtlIndex} {o e : Nat} (valid : ttl.Valid) (fresh : ttl.heapIdx o = none)
    (few : ttl.size < 2 ^ 31) :
    (if 0 < e then (ttl.nodePush o e true).1 else ttl).Valid ∧
    ∀ o' e', (if 0 < e then (ttl.nodePush o e true).1 else ttl).Holds o' e' ↔
      o' = o ∧ e' = e ∧ e' ≠ 0 ∨ ttl.Holds o' e' := by
  split
  next timed =>
    obtain ⟨-, valid', -, holds⟩ := valid.nodePush (e := e) fresh few
    refine ⟨valid', fun o' e' => (holds o' e').trans (or_congr_left ?_)⟩
    exact and_congr_right fun _ => ⟨fun same => ⟨same, by omega⟩, And.left⟩
  next untimed =>
    refine ⟨valid, fun o' e' => ⟨.inr, ?_⟩⟩
    rintro (⟨-, rfl, filled⟩ | holds)
    · omega
    · exact holds

theorem Valid.reindex {idx : TtlIndex} {o e : Nat} (valid : idx.Valid) (few : idx.size < 2 ^ 31) :
    (idx.reindex o e true).Valid ∧
    ∀ o' e', (idx.reindex o e true).Holds o' e' ↔ o' = o ∧ e' = e ∧ e' ≠ 0 ∨ o' ≠ o ∧ idx.Holds o' e' := by
  have absent {o' e' : Nat} (missing : idx.heapIdx o = none) (holds : idx.Holds o' e') : o' ≠ o := by
    rintro rfl
    exact valid.placed.heapIdx_eq_none.1 missing e' holds
  unfold TtlIndex.reindex
  split
  next timed =>
    cases place : idx.heapIdx o with
    | none =>
      obtain ⟨-, valid', -, holds⟩ := valid.nodePush (e := e) place few
      refine ⟨valid', fun o' e' => (holds o' e').trans (or_congr ?_ ?_)⟩
      · exact and_congr_right fun _ => ⟨fun same => ⟨same, by omega⟩, And.left⟩
      · exact ⟨fun there => ⟨absent place there, there⟩, And.right⟩
    | some pos =>
      obtain ⟨valid', -, holds⟩ := valid.nodeUpdate o e
      refine ⟨valid', fun o' e' => (holds o' e').trans ?_⟩
      have present : ∃ e, idx.Holds o e := by
        by_contra none
        have := valid.placed.heapIdx_eq_none.2 (not_exists.1 none)
        rw [place] at this
        cases this
      by_cases same : o' = o
      · simp only [same, if_true, present, and_true, true_and, ne_eq, not_true_eq_false, false_and, or_false]
        exact ⟨fun equal => ⟨equal, by omega⟩, And.left⟩
      · simp [same]
  next untimed =>
    obtain rfl : e = 0 := by omega
    have never {o' e' : Nat} : ¬(o' = o ∧ e' = 0 ∧ e' ≠ 0) := fun both => both.2.2 both.2.1
    cases place : idx.heapIdx o with
    | none =>
      refine ⟨valid, fun o' e' => ?_⟩
      simp only [never, false_or]
      exact ⟨fun there => ⟨absent place there, there⟩, And.right⟩
    | some pos =>
      obtain ⟨valid', -, holds⟩ := valid.nodeRemove o
      refine ⟨valid', fun o' e' => (holds o' e').trans ?_⟩
      simp only [never, false_or]

end TtlIndex

namespace State

variable {hash : Bytes → BitVec 64} {env : Env} {s : State} {t : HashTable} {key : Bytes} {v : Entry} {o : Nat}

theorem Agree.create (inv : Inv hash t) (view : t.view = KeyMap.empty) {obj : Nat → RawObj}
    (lengths : ∀ o, (obj o).keyLen ≤ 65535) (poolIdx : Nat → Nat) (inUse : Nat → Bool) :
    (State.create t obj poolIdx inUse).Agree hash := by
  have empty : (State.create t obj poolIdx inUse).table.view = KeyMap.empty := view
  have nowhere (as : Entry → Prop) : ¬Somewhere KeyMap.empty as := by
    rintro ⟨key, v, entry, -⟩
    cases entry
  refine ⟨inv, ?_, .init, fun o e => ?_, ?_, ?_, lengths⟩
  · rw [empty]
    exact (Lru.Keeps.init poolIdx).congr fun o => ⟨False.elim, nowhere _⟩
  · rw [empty]
    refine ⟨?_, fun due => absurd due (nowhere _)⟩
    rintro ⟨i, inside, -⟩
    exact absurd inside (Nat.not_lt_zero i)
  · rw [empty]
    rintro key v ⟨⟩
  · rw [empty]
    exact fun o there => absurd there (nowhere _)

theorem memFree_of_ignored {heap : Heap} {ptr : Nat} (ignored : ptr = 0 ∨ heap.acts ptr = false) : s.memFree heap ptr = s :=
  if_pos ignored

theorem shardObjUnref_eq (safe : env.lastRef o = true → Keyspace.Harmless env.heap.acts (s.obj o)) :
    ∃ inUse, (∀ b, b ≠ o → inUse b = s.inUse b) ∧ s.shardObjUnref env o = { s with inUse := inUse } := by
  unfold shardObjUnref
  split
  next last =>
    refine ⟨Function.update s.inUse o false, fun b away => Function.update_of_ne away _ _, ?_⟩
    have kept : (if (s.obj o).valLen = 0 then s.memFree env.heap (s.obj o).objValPtrGet else s) = s := by
      split
      next empty => exact memFree_of_ignored ((safe last).resolve_left fun filled => filled empty)
      · rfl
    rw [shardObjFree, kept]
  · exact ⟨s.inUse, fun _ _ => rfl, rfl⟩

theorem shardObjDestroy_unlinks : s.shardObjDestroy env o =
    { s with lru := s.lru.nodeRemove o, ttl := s.ttl.nodeRemove o }.shardObjUnref env o := by
  unfold shardObjDestroy
  cases idx : s.ttl.heapIdx o with
  | none => simp only [idx, TtlIndex.nodeRemove]
  | some pos => simp only [idx]

theorem shardObjDestroy_eq (safe : env.lastRef o = true → Keyspace.Harmless env.heap.acts (s.obj o)) :
    ∃ inUse, (∀ b, b ≠ o → inUse b = s.inUse b) ∧ s.shardObjDestroy env o =
      { s with lru := s.lru.nodeRemove o, ttl := s.ttl.nodeRemove o, inUse := inUse } := by
  rw [shardObjDestroy_unlinks]
  exact shardObjUnref_eq (s := { s with lru := s.lru.nodeRemove o, ttl := s.ttl.nodeRemove o }) safe

section Steps

variable (agree : s.Agree hash)

include agree

theorem Agree.destroy (entry : s.table.view key = some v) (inv : Inv hash t) (view : t.view = s.table.view.remove key)
    (safe : env.Safe v.obj) {ttl : TtlIndex} (valid : ttl.Valid)
    (holds : ∀ o e, o ≠ v.obj.addr → (ttl.Holds o e ↔ s.ttl.Holds o e)) :
    (State.shardObjDestroy { s with table := t, ttl := ttl } env v.obj.addr).Agree hash := by
  have lies := (agree.laid key v entry).1
  have away {o : Nat} : InTable t.view o ↔ o ≠ v.obj.addr ∧ InTable s.table.view o := by
    rw [view]
    exact agree.laid.somewhere_remove entry fun w same => same
  have due {o e : Nat} : Due t.view o e ↔ o ≠ v.obj.addr ∧ Due s.table.view o e := by
    rw [view]
    exact agree.laid.somewhere_remove entry fun w same => same.1
  obtain ⟨inUse, others, destroyed⟩ := shardObjDestroy_eq (s := { s with table := t, ttl := ttl })
    (show env.lastRef v.obj.addr = true → Keyspace.Harmless env.heap.acts (s.obj v.obj.addr) by rw [lies]; exact safe)
  obtain ⟨valid', -, holds'⟩ := valid.nodeRemove v.obj.addr
  rw [destroyed]
  refine ⟨inv, ?_, valid', fun o e => ?_, ?_, fun o there => ?_, agree.lengths⟩
  · exact (agree.listed.nodeRemove ⟨key, v, entry, rfl⟩).congr fun o => away.symm
  · refine (holds' o e).trans (Iff.trans ?_ due.symm)
    exact and_congr_right fun other => (holds o e other).trans (agree.timed o e)
  · change Laid s.obj t.view
    rw [view]
    exact agree.laid.remove
  · have both := away.1 there
    exact (others o both.1).trans (agree.inUse o both.2)

theorem Agree.short (entry : s.table.view key = some v) : key.length ≤ 65535 := by
  obtain ⟨short, rfl⟩ := agree.inv.view_short entry
  rw [RawObj.objKeyGet_length short]
  exact short.1

-- ht_bucket_take_if_unlocked for an object that is in the table.
theorem Agree.takeIfUnlocked (entry : s.table.view key = some v) : ∃ t,
    s.table.bucketTakeIfUnlocked hash (s.obj v.obj.addr).objKeyGet v.obj.addr =
      (t, if v.locked then none else some v.obj, v.locked) ∧
    Inv hash t ∧ t.view = if v.locked then s.table.view else s.table.view.remove key := by
  obtain ⟨lies, keyed⟩ := agree.laid key v entry
  rw [lies, keyed]
  rcases agree.inv.takeIfUnlocked_cases ⟨key, agree.short entry⟩ v.obj.addr with
    ⟨w, t, view, -, free, taken, inv, view'⟩ | ⟨locked, kept⟩
  · obtain rfl : v = w := Option.some.inj (entry.symm.trans view)
    exact ⟨t, by simp [taken, free], inv, by simp [view', free]⟩
  · have held := locked v entry rfl
    exact ⟨s.table, by simp [kept, entry, held], agree.inv, by simp [held]⟩

theorem Agree.touch (entry : s.table.view key = some v) :
    State.Agree hash { s with lru := s.lru.nodeTouch v.obj.addr } :=
  ⟨agree.inv, agree.listed.nodePrepend ⟨key, v, entry, rfl⟩, agree.heap, agree.timed, agree.laid, agree.inUse,
    agree.lengths⟩

theorem Agree.table (inv : Inv hash t) (view : t.view = s.table.view) : State.Agree hash { s with table := t } :=
  ⟨inv, view ▸ agree.listed, agree.heap, view ▸ agree.timed, view ▸ agree.laid, view ▸ agree.inUse, agree.lengths⟩

theorem Agree.delete (short : key.length ≤ 65535) (safe : ∀ v, s.table.view key = some v → env.Safe v.obj) :
    (s.shardKeyDelete hash env key).1.Agree hash := by
  obtain ⟨inv, view, result⟩ := Keyspace.take_eq_view agree.inv short
  unfold shardKeyDelete
  generalize s.table.bucketTake hash key = taken at *
  obtain ⟨t, taken⟩ := taken
  cases entry : s.table.view key with
  | none =>
    obtain rfl : taken = none := by simpa [entry] using result
    exact agree.table inv (view.trans (remove_of_none entry))
  | some v =>
    obtain rfl : taken = some v.obj := by simpa [entry] using result
    exact agree.destroy entry inv view (safe v entry) agree.heap fun _ _ _ => Iff.rfl

theorem Agree.get (short : key.length ≤ 65535) {now : Nat}
    (safe : ∀ v, s.table.view key = some v → v.stale now → env.Safe v.obj) :
    (s.shardKeyGet hash env key now).1.Agree hash := by
  unfold shardKeyGet
  rcases agree.inv.getLazy_cases ⟨key, short⟩ now with ⟨v, t, entry, late, -, read, inv, view⟩ | ⟨-, read⟩
  · rw [read]
    exact agree.destroy entry inv view (safe v entry late) agree.heap fun _ _ _ => Iff.rfl
  · rw [read]
    cases entry : s.table.view key with
    | none => exact agree
    | some v => exact agree.touch entry

theorem Agree.heapIdx_eq_none (missing : ¬InTable s.table.view o) : s.ttl.heapIdx o = none :=
  agree.heap.placed.heapIdx_eq_none.2 fun e holds => missing ((agree.timed o e).1 holds).inTable

end Steps

theorem shardBucketPut_eq {obj : RawObj} (inv : Inv hash s.table) (short : obj.Short) (expire : Nat)
    (grows : env.growth.Granted) : ∃ t,
    s.shardBucketPut hash env obj expire = ({ s with table := t }, match s.table.view obj.objKeyGet with
      | some old => .replaced (some old.obj)
      | none => .inserted) ∧
    Inv hash t ∧ t.view = Function.update s.table.view obj.objKeyGet
      (some { obj := obj, expire := expire, locked := false }) := by
  obtain ⟨inv', view, result⟩ := Keyspace.put_eq_view inv short expire grows
  unfold shardBucketPut
  generalize s.table.bucketPut hash obj expire .none env.growth = put at *
  obtain ⟨t, r⟩ := put
  refine ⟨t, ?_, inv', view⟩
  simp only at result
  subst result
  cases s.table.view obj.objKeyGet <;> rfl

theorem Agree.entered {u : State} (agree : s.Agree hash) (inv : Inv hash u.table)
    (view : u.table.view = Function.update s.table.view key (some v)) (keyed : v.obj.objKeyGet = key)
    (listed : u.lru.Keeps fun b => b = v.obj.addr ∨ InTable (s.table.view.remove key) b) (heap : u.ttl.Valid)
    (timed : ∀ b e, u.ttl.Holds b e ↔ b = v.obj.addr ∧ e = v.expire ∧ e ≠ 0 ∨ Due (s.table.view.remove key) b e)
    (lies : u.obj v.obj.addr = v.obj) (others : ∀ b, InTable (s.table.view.remove key) b → u.obj b = s.obj b)
    (inUse : ∀ b, b = v.obj.addr ∨ InTable (s.table.view.remove key) b → u.inUse b = true)
    (lengths : ∀ o, (u.obj o).keyLen ≤ 65535) : u.Agree hash := by
  have there (b : Nat) : InTable u.table.view b ↔ b = v.obj.addr ∨ InTable (s.table.view.remove key) b := by
    rw [view, InTable, somewhere_update, eq_comm]
    exact Iff.rfl
  refine ⟨inv, listed.congr fun b => (there b).symm, heap, fun b e => (timed b e).trans ?_, ?_, fun b inside =>
    inUse b ((there b).1 inside), lengths⟩
  · rw [view]
    refine Iff.trans (or_congr_left ?_) somewhere_update.symm
    exact and_congr eq_comm (and_congr_left fun _ => eq_comm)
  · intro other w entry
    rw [view] at entry
    obtain ⟨rfl, rfl⟩ | stays := KeyMap.update_eq_some.1 entry
    · exact ⟨lies, keyed⟩
    · rw [others _ ⟨other, w, stays, rfl⟩]
      exact agree.laid other w (KeyMap.remove_eq_some.1 stays).2

-- The end of shard_key_set: the new object is in the table and the lists, the old one is gone, the deadline is missing.
theorem Agree.stored {u : State} {slot : MemSlot} {val : Bytes} {expire : Nat} (agree : s.Agree hash)
    (short : key.length ≤ 65535) (outside : ¬InTable s.table.view slot.addr) (inv : Inv hash u.table)
    (view : u.table.view = Function.update s.table.view key
      (some { obj := .make slot key val, expire := expire, locked := false }))
    (listed : u.lru.Keeps fun b => b = slot.addr ∨ InTable (s.table.view.remove key) b) (heap : u.ttl.Valid)
    (timed : ∀ b e, u.ttl.Holds b e ↔ Due (s.table.view.remove key) b e) (few : u.ttl.size < 2 ^ 31)
    (obj : u.obj = Function.update s.obj slot.addr (.make slot key val)) (ttlGrows : env.ttlGrows = true)
    (inUse : ∀ b, b = slot.addr ∨ InTable (s.table.view.remove key) b → u.inUse b = true) :
    (u.pushExpire env slot.addr expire).Agree hash := by
  have untimed : u.ttl.heapIdx slot.addr = none :=
    heap.placed.heapIdx_eq_none.2 fun e holds => outside (somewhere_of_remove ((timed _ e).1 holds).inTable)
  obtain ⟨valid, holds⟩ := heap.pushed (e := expire) untimed few
  rw [← ttlGrows] at valid holds
  refine agree.entered (u := u.pushExpire env slot.addr expire) inv view (RawObj.objKeyGet_make slot val short) listed valid
    (fun b e => (holds b e).trans (or_congr_right (timed b e))) ?_ (fun b there => ?_) inUse fun b => ?_
  · change u.obj slot.addr = _
    rw [obj]
    exact Function.update_self ..
  · change u.obj b = _
    rw [obj, Function.update_of_ne]
    rintro rfl
    exact outside (somewhere_of_remove there)
  · change (u.obj b).keyLen ≤ 65535
    rw [obj, Function.update_apply]
    split
    · exact (RawObj.short_make slot key val).1
    · exact agree.lengths b

theorem allocate_eq {slot : MemSlot} (untimed : s.ttl.heapIdx slot.addr = none) (key val : Bytes) : ∃ pool,
    s.allocate slot key val = { s with
      obj := Function.update s.obj slot.addr (.make slot key val)
      inUse := Function.update s.inUse slot.addr true
      lru := s.lru.enrol slot.addr pool } := by
  have same : s.ttl.clearIdx slot.addr = s.ttl := by rw [TtlIndex.clearIdx, ← untimed, Function.update_eq_self]
  exact ⟨_, by rw [allocate, same]⟩

theorem Agree.set (agree : s.Agree hash) {val : Bytes} {expire : Nat} {flags : PutFlags} (short : key.length ≤ 65535)
    (fresh : ∀ slot, env.slot = some slot → s.inUse slot.addr = false)
    (grows : env.growth.Granted) (ttlGrows : env.ttlGrows = true)
    (few : s.ttl.size < 2 ^ 31) (safe : ∀ v, s.table.view key = some v → env.Safe v.obj) :
    (s.shardKeySet hash env key val expire flags).1.Agree hash := by
  unfold shardKeySet
  simp only
  split
  · exact agree
  · cases given : env.slot with
    | none => exact agree
    | some slot =>
      have outside : ¬InTable s.table.view slot.addr := fun inside => by
        have := agree.inUse _ inside
        rw [fresh slot given] at this
        cases this
      obtain ⟨pool, allocated⟩ := allocate_eq (agree.heapIdx_eq_none outside) key val
      have prepended := agree.listed.nodePrepend_enrol outside pool
      obtain ⟨t, put, inv, view⟩ := shardBucketPut_eq (s := s.allocate slot key val) agree.inv
        (RawObj.short_make slot key val) expire grows
      rw [RawObj.objKeyGet_make slot val short, allocated] at put view
      dsimp only at view put ⊢
      rw [allocated, put]
      have inUse (b : Nat) (there : b = slot.addr ∨ InTable s.table.view b) :
          Function.update s.inUse slot.addr true b = true := by
        rw [Function.update_apply]
        split
        · rfl
        next other => exact agree.inUse b (there.resolve_left other)
      cases entry : s.table.view key with
      | none =>
        have kept := remove_of_none entry
        refine agree.stored (u := { s with
          table := t
          lru := (s.lru.enrol slot.addr pool).nodePrepend slot.addr
          obj := Function.update s.obj slot.addr (.make slot key val)
          inUse := Function.update s.inUse slot.addr true }) short outside inv view ?_ agree.heap ?_ few rfl ttlGrows ?_
        all_goals rw [kept]
        · exact prepended
        · exact agree.timed
        · exact inUse
      | some old =>
        have away {b : Nat} : InTable (s.table.view.remove key) b ↔ b ≠ old.obj.addr ∧ InTable s.table.view b :=
          agree.laid.somewhere_remove entry fun w same => same
        have apart : slot.addr ≠ old.obj.addr := fun same => outside ⟨key, old, entry, same.symm⟩
        have harmless : env.lastRef old.obj.addr = true → Keyspace.Harmless env.heap.acts
            (Function.update s.obj slot.addr (.make slot key val) old.obj.addr) := by
          rw [Function.update_of_ne apart.symm, (agree.laid key old entry).1]
          exact safe old entry
        obtain ⟨used, others, destroyed⟩ := shardObjDestroy_eq (s := { s with
          table := t
          lru := (s.lru.enrol slot.addr pool).nodePrepend slot.addr
          obj := Function.update s.obj slot.addr (.make slot key val)
          inUse := Function.update s.inUse slot.addr true }) harmless
        obtain ⟨valid, fewer, holds⟩ := agree.heap.nodeRemove old.obj.addr
        change Agree hash (pushExpire env (shardObjDestroy _ env old.obj.addr) slot.addr expire)
        rw [destroyed]
        refine agree.stored short outside inv view ?_ valid (fun b e => ?_) (lt_of_le_of_lt fewer few) rfl ttlGrows
          fun b there => ?_
        · refine (prepended.nodeRemove (.inr ⟨key, old, entry, rfl⟩)).congr fun b => ?_
          rw [away]
          by_cases same : b = slot.addr
          · simp [same, apart]
          · simp [same]
        · refine (holds b e).trans (Iff.trans ?_ (agree.laid.somewhere_remove entry fun w same => same.1).symm)
          exact and_congr_right fun _ => agree.timed b e
        · rw [away] at there
          have other : b ≠ old.obj.addr := there.elim (fun same => same ▸ apart) And.left
          exact (others b other).trans (inUse b (there.imp_right And.right))

theorem Agree.rewritten {w : Entry} {ttl : TtlIndex} (agree : s.Agree hash) (entry : s.table.view key = some v)
    (inv : Inv hash t) (view : t.view = Function.update s.table.view key (some w)) (same : w.obj = v.obj)
    (heap : ttl.Valid) (timed : ∀ b e, ttl.Holds b e ↔ b = v.obj.addr ∧ e = w.expire ∧ e ≠ 0 ∨ b ≠ v.obj.addr ∧ s.ttl.Holds b e) :
    State.Agree hash { s with table := t, ttl := ttl } := by
  obtain ⟨lies, keyed⟩ := agree.laid key v entry
  have away {b : Nat} : InTable (s.table.view.remove key) b ↔ b ≠ v.obj.addr ∧ InTable s.table.view b :=
    agree.laid.somewhere_remove entry fun w same => same
  have still {b : Nat} : b = v.obj.addr ∨ InTable (s.table.view.remove key) b ↔ InTable s.table.view b := by
    rw [away]
    by_cases same : b = v.obj.addr
    · exact ⟨fun _ => ⟨key, v, entry, same.symm⟩, fun _ => .inl same⟩
    · simp [same]
  rw [← same] at lies keyed still timed
  refine agree.entered inv view keyed (agree.listed.congr fun b => still.symm) heap (fun b e => ?_) lies (fun _ _ => rfl)
    (fun b there => agree.inUse b (still.1 there)) agree.lengths
  refine (timed b e).trans (or_congr_right ?_)
  rw [same]
  refine Iff.trans ?_ (agree.laid.somewhere_remove entry fun w same => same.1).symm
  exact and_congr_right fun _ => agree.timed b e

theorem Agree.expire (agree : s.Agree hash) {expire : Nat} (short : key.length ≤ 65535)
    (grows : env.growth.Granted) (ttlGrows : env.ttlGrows = true)
    (few : s.ttl.size < 2 ^ 31) : (s.shardKeyExpire hash env key expire).1.Agree hash := by
  unfold shardKeyExpire
  simp only
  split
  · exact agree
  · split
    · exact agree
    · have read := Keyspace.get_eq_view agree.inv short
      cases entry : s.table.view key with
      | none =>
        rw [read, entry]
        exact agree
      | some v =>
        obtain ⟨t, put, inv, view⟩ := shardBucketPut_eq agree.inv (agree.inv.view_short entry).1 expire grows
        obtain ⟨valid, holds⟩ := agree.heap.reindex (o := v.obj.addr) (e := expire) few
        rw [read, entry]
        dsimp only [Option.map_some]
        rw [put, ttlGrows]
        rw [(agree.laid key v entry).2] at view
        exact agree.rewritten entry inv view rfl valid holds

theorem Agree.lock (agree : s.Agree hash) (short : key.length ≤ 65535) (locked : Bool) :
    State.Agree hash { s with table := (s.table.bucketSetLockStatus hash key locked).1 } := by
  obtain ⟨inv, same⟩ := agree.inv.setLockStatus_refines ⟨key, short⟩ locked
  have view := congrArg Prod.fst same
  simp only [HashTable.step, KeyMap.step] at inv view
  cases entry : s.table.view key with
  | none =>
    refine agree.table inv (view.trans ?_)
    rw [entry, Option.map_none, ← entry, Function.update_eq_self]
  | some v =>
    rw [entry, Option.map_some] at view
    refine agree.rewritten entry inv view rfl agree.heap fun b e => ?_
    by_cases here : b = v.obj.addr
    · subst here
      rw [agree.timed]
      constructor
      · rintro ⟨other, w, there, addr, rfl, timed⟩
        rw [agree.laid.entry_eq there entry addr] at timed ⊢
        exact .inl ⟨rfl, rfl, timed⟩
      · rintro (⟨-, rfl, timed⟩ | ⟨other, -⟩)
        · exact ⟨key, v, entry, rfl, rfl, timed⟩
        · exact absurd rfl other
    · simp [here]

end State

end FreakV.Shard
