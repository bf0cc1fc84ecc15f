import FreakV.Shard.Drain

namespace FreakV.Shard

open HashTable Transition

inductive Op
  | set (key val : Bytes) (expire : Nat) (flags : PutFlags)
  | get (key : Bytes) (now : Nat)
  | delete (key : Bytes)
  | expire (key : Bytes) (time : Nat)
  | ttlDrain (now maxWork : Nat)
  | memEvict (sizeReq : Nat)
deriving DecidableEq

structure Call where
  op : Op
  env : Env

def Op.keys : Op → List Bytes
  | .set key _ _ _ | .get key _ | .delete key | .expire key _ => [key]
  | .ttlDrain _ _ | .memEvict _ => []

def Op.Releases (key : Bytes) (v : Entry) : Op → Prop
  | .set k _ _ _ | .delete k => key = k
  | .get k now => key = k ∧ v.stale now
  | .expire _ _ => False
  | .ttlDrain now _ => State.Over now v
  | .memEvict _ => True

namespace State

variable (hash : Bytes → BitVec 64)

def step (s : State) (c : Call) : Option State :=
  match c.op with
  | .set key val expire flags => some (s.shardKeySet hash c.env key val expire flags).1
  | .get key now => some (s.shardKeyGet hash c.env key now).1
  | .delete key => some (s.shardKeyDelete hash c.env key).1
  | .expire key time => some (s.shardKeyExpire hash c.env key time).1
  | .ttlDrain now maxWork => some (shardTtlDrain hash c.env now maxWork s).1
  | .memEvict sizeReq => (s.shardMemEvict hash c.env sizeReq (s.table.used + 1)).map Prod.fst

structure Possible (s : State) (c : Call) : Prop where
  keys : ∀ key ∈ c.op.keys, key.length ≤ 65535
  fresh : ∀ slot, c.env.slot = some slot → s.inUse slot.addr = false
  grows : c.env.growth.Granted
  ttlGrows : c.env.ttlGrows = true ∧ s.ttl.size < 2 ^ 31

/-- No object that the call may release has an empty value followed by bytes that `mem_free` takes for a block. -/
def Careful (s : State) (c : Call) : Prop :=
  ∀ key v, s.table.view key = some v → c.op.Releases key v → c.env.Safe v.obj

structure Consistent (s : State) : Prop where
  lists : ∃ lists : Nat → List Nat,
    (∀ p, Linked.Doubly s.lru.lruNext s.lru.lruPrev (s.lru.lruHead p) (s.lru.lruTail p) (lists p)) ∧
    ∀ o, (∃ b ∈ s.table.content, b.obj.map RawObj.addr = some o) ↔
      (lists (s.lru.poolIdx o)).count o = 1 ∧ ∀ p, p ≠ s.lru.poolIdx o → o ∉ lists p
  deadlines : ∀ b ∈ s.table.content, ∀ o, b.obj.map RawObj.addr = some o →
    (b.expire ≠ 0 ↔ ∃ e, s.ttl.Holds o e) ∧ ∀ e, s.ttl.Holds o e → e = b.expire
  heap : ∀ o e, s.ttl.Holds o e → ∃ b ∈ s.table.content, b.obj.map RawObj.addr = some o

variable {hash} {s s' : State} {c : Call}

theorem Agree.content_iff (agree : s.Agree hash) {v : Entry} :
    (∃ b ∈ s.table.content, b.entry = some v) ↔ ∃ key, s.table.view key = some v := by
  constructor
  · rintro ⟨b, member, entry⟩
    refine ⟨b.key, ?_⟩
    have found := (Buckets.find?_eq_some_iff_of_nodup agree.inv.distinct).2 ⟨member, rfl⟩
    simp [view, found, entry]
  · rintro ⟨key, entry⟩
    obtain ⟨b, found, same⟩ := Option.bind_eq_some_iff.1 entry
    exact ⟨b, List.mem_of_find?_eq_some found, same⟩

theorem Agree.bucket_entry (agree : s.Agree hash) {b : Bucket} (member : b ∈ s.table.content) :
    ∃ key v, s.table.view key = some v ∧ b.obj = some v.obj ∧ b.expire = v.expire := by
  obtain ⟨i, -, live⟩ := mem_content.1 member
  obtain ⟨o, obj, entry⟩ := (agree.inv.shape.sound i b live).1.entry
  obtain ⟨key, view⟩ := agree.content_iff.1 ⟨b, member, entry⟩
  exact ⟨key, _, view, obj, rfl⟩

theorem Agree.content_addr (agree : s.Agree hash) (o : Nat) :
    (∃ b ∈ s.table.content, b.obj.map RawObj.addr = some o) ↔ InTable s.table.view o := by
  constructor
  · rintro ⟨b, member, addr⟩
    obtain ⟨key, v, view, obj, -⟩ := agree.bucket_entry member
    rw [obj, Option.map_some, Option.some.injEq] at addr
    exact ⟨key, v, view, addr⟩
  · rintro ⟨key, v, view, rfl⟩
    obtain ⟨b, member, entry⟩ := agree.content_iff.2 ⟨key, view⟩
    obtain ⟨o, obj, rfl⟩ := Option.map_eq_some_iff.1 entry
    exact ⟨b, member, by rw [obj, Option.map_some]⟩

theorem Agree.consistent (agree : s.Agree hash) : s.Consistent := by
  refine ⟨?_, fun b member o addr => ?_, fun o e holds => ?_⟩
  · obtain ⟨lists, threads, listed⟩ := agree.listed
    refine ⟨lists, threads.linked, fun o => ?_⟩
    rw [agree.content_addr, ← listed]
    constructor
    · intro there
      exact ⟨List.count_eq_one_of_mem (threads.linked _).nodup there, fun p other => threads.notMem other.symm⟩
    · intro both
      exact List.count_pos_iff.1 (by omega)
  · obtain ⟨key, v, view, obj, expire⟩ := agree.bucket_entry member
    rw [obj, Option.map_some, Option.some.injEq] at addr
    have own {e : Nat} (holds : s.ttl.Holds o e) : e = v.expire ∧ e ≠ 0 := by
      obtain ⟨other, w, there, addr', rfl, timed⟩ := (agree.timed o e).1 holds
      rw [agree.laid.entry_eq there view (addr'.trans addr.symm)] at timed ⊢
      exact ⟨rfl, timed⟩
    rw [expire]
    refine ⟨⟨fun timed => ⟨v.expire, (agree.timed _ _).2 ⟨key, v, view, addr, rfl, timed⟩⟩, ?_⟩, fun e holds => (own holds).1⟩
    rintro ⟨e, holds⟩
    obtain ⟨rfl, timed⟩ := own holds
    exact timed
  · exact (agree.content_addr o).2 ((agree.timed o e).1 holds).inTable

theorem Agree.step (agree : s.Agree hash) (possible : s.Possible c) (careful : s.Careful c)
    (stepped : s.step hash c = some s') : s'.Agree hash := by
  obtain ⟨op, env⟩ := c
  have short (key : Bytes) (member : key ∈ op.keys) : key.length ≤ 65535 := possible.keys key member
  cases op with
  | set key val expire flags =>
    cases stepped
    exact agree.set (short key (by simp [Op.keys])) possible.fresh possible.grows possible.ttlGrows.1 possible.ttlGrows.2
      fun v entry => careful key v entry rfl
  | get key now =>
    cases stepped
    exact agree.get (short key (by simp [Op.keys])) fun v entry stale => careful key v entry ⟨rfl, stale⟩
  | delete key =>
    cases stepped
    exact agree.delete (short key (by simp [Op.keys])) fun v entry => careful key v entry rfl
  | expire key time =>
    cases stepped
    exact agree.expire (short key (by simp [Op.keys])) possible.grows possible.ttlGrows.1 possible.ttlGrows.2
  | ttlDrain now maxWork =>
    cases stepped
    exact (agree.expired (fun key v entry _ due => careful key v entry due) maxWork).agree
  | memEvict sizeReq =>
    obtain ⟨⟨s', ok⟩, ends, rfl⟩ := Option.map_eq_some_iff.1 stepped
    exact (agree.shardMemEvict (fun key v entry _ => careful key v entry trivial) ends).agree

theorem run_consistent (hash : Bytes → BitVec 64) {initialCap : BitVec 64} {table : HashTable}
    (small : initialCap.toNat ≤ 2 ^ 58) (created : tableCreate initialCap = some table) {obj : Nat → RawObj}
    (lengths : ∀ o, (obj o).keyLen ≤ 65535) (poolIdx : Nat → Nat) (inUse : Nat → Bool) {s : State}
    (run : Reaches (step hash) (fun s c => s.Possible c ∧ s.Careful c) (create table obj poolIdx inUse) s) :
    s.Consistent := by
  obtain ⟨inv, empty⟩ := Inv.tableCreate hash small created
  have agree : s.Agree hash := run.invariant (Agree.create inv empty lengths poolIdx inUse)
    fun agree allowed stepped => agree.step allowed.1 allowed.2 stepped
  exact agree.consistent

section Stray

open Keyspace (tableHash)

def setPointing : Call := { op := .set [98] [] 0 .none, env := quiet (some ⟨8192, [16, 0, 0, 0, 0, 0, 0]⟩) }

def setPointed : Call := { op := .set [97] [120] 0 .none, env := quiet (some ⟨4096, []⟩) }

def deletePointing : Call := { op := .delete [98], env := quiet none }

theorem run_twoKeys : Reaches (step tableHash) (fun s c => s.Possible c ∧ s.Careful c) blank twoKeys := by
  have first : blank.Possible setPointing ∧ blank.Careful setPointing := by
    refine ⟨⟨by simp [setPointing, Op.keys], ?_, ⟨rfl, fun _ => rfl, rfl⟩, rfl, by decide⟩, ?_⟩
    · rintro _ ⟨⟩
      rfl
    · rintro key v entry ⟨⟩
      have missing : blank.table.view [98] = none := by decide +kernel
      rw [missing] at entry
      cases entry
  have second : pointing.Possible setPointed ∧ pointing.Careful setPointed := by
    refine ⟨⟨by simp [setPointed, Op.keys], ?_, ⟨rfl, fun _ => rfl, rfl⟩, rfl, by decide +kernel⟩, ?_⟩
    · rintro _ ⟨⟩
      decide +kernel
    · rintro key v entry ⟨⟩
      have missing : pointing.table.view [97] = none := by decide +kernel
      rw [missing] at entry
      cases entry
  exact .tail (.tail .refl first rfl) second rfl

theorem run_consistent_twoKeys : twoKeys.Consistent := by
  have created : tableCreate 16 = some (newTable 16) := rfl
  exact run_consistent tableHash (by decide) created (by simp) _ _ run_twoKeys

theorem delete_breaks_lists : ∃ s, Reaches (step tableHash) Possible blank s ∧ ¬s.Consistent := by
  have possible : twoKeys.Possible deletePointing :=
    ⟨by simp [deletePointing, Op.keys], by simp [deletePointing, quiet], ⟨rfl, fun _ => rfl, rfl⟩, rfl, by decide +kernel⟩
  have stored : ∃ b ∈ (twoKeys.shardKeyDelete tableHash (quiet none) [98]).1.table.content,
      b.obj.map RawObj.addr = some 4096 := by decide +kernel
  have pool : (twoKeys.shardKeyDelete tableHash (quiet none) [98]).1.lru.poolIdx 4096 = 0 := by decide +kernel
  have head : (twoKeys.shardKeyDelete tableHash (quiet none) [98]).1.lru.lruHead 0 = none := by decide +kernel
  have stepped : twoKeys.step tableHash deletePointing = some (twoKeys.shardKeyDelete tableHash (quiet none) [98]).1 := rfl
  refine ⟨_, .tail (run_twoKeys.mono fun _ _ => And.left) possible stepped, fun consistent => ?_⟩
  generalize (twoKeys.shardKeyDelete tableHash (quiet none) [98]).1 = s at *
  obtain ⟨lists, linked, listed⟩ := consistent.lists
  have once := ((listed 4096).1 stored).1
  have empty : lists 0 = [] := List.head?_eq_none_iff.1 ((linked 0).head_eq.symm.trans head)
  simp [pool, empty] at once

end Stray

end State

end FreakV.Shard
