import FreakV.HashTable.Refinement
import FreakV.Lib.Transition

namespace FreakV

open HashTable

-- obj_val_get and obj_val_len_get
def RawObj.objValGet (o : RawObj) : Bytes := (o.data.drop o.keyLen).take o.valLen

def RawObj.objValPtrGet (o : RawObj) : Nat := readLe 8 (o.data.drop o.keyLen)

structure MemSlot where
  addr : Nat
  rest : Bytes
deriving DecidableEq

def RawObj.make (slot : MemSlot) (key val : Bytes) : RawObj :=
  { addr := slot.addr, keyLen := key.length % 2 ^ 16, valLen := val.length % 2 ^ 32,
    data := key ++ val ++ [0] ++ slot.rest }

theorem RawObj.objKeyGet_make (slot : MemSlot) {key : Bytes} (val : Bytes) (short : key.length ≤ 65535) :
    (RawObj.make slot key val).objKeyGet = key := by
  have keyFits : (RawObj.make slot key val).keyLen = key.length := Nat.mod_eq_of_lt (by omega)
  rw [RawObj.objKeyGet, keyFits]
  simp [RawObj.make]

theorem RawObj.objValGet_make (slot : MemSlot) {key val : Bytes} (short : key.length ≤ 65535) (small : val.length < 2 ^ 32) :
    (RawObj.make slot key val).objValGet = val := by
  have keyFits : (RawObj.make slot key val).keyLen = key.length := Nat.mod_eq_of_lt (by omega)
  have valFits : (RawObj.make slot key val).valLen = val.length := Nat.mod_eq_of_lt small
  rw [RawObj.objValGet, keyFits, valFits]
  simp [RawObj.make]

theorem RawObj.short_make (slot : MemSlot) (key val : Bytes) : (RawObj.make slot key val).Short := by
  have below : key.length % 2 ^ 16 < 2 ^ 16 := Nat.mod_lt _ (by norm_num)
  have within : key.length % 2 ^ 16 ≤ key.length := Nat.mod_le _ _
  refine ⟨Nat.le_of_lt_succ below, le_trans within ?_⟩
  simp [RawObj.make]

theorem RawObj.make_replicate (slot : MemSlot) {n : Nat} (k v : UInt8) (long : 2 ≤ n) (wraps : n % 2 ^ 16 = 1) :
    (RawObj.make slot (List.replicate n k) [v]).objKeyGet = [k] ∧
    (RawObj.make slot (List.replicate n k) [v]).objValGet = [k] := by
  obtain ⟨m, rfl⟩ := Nat.exists_eq_add_of_le' long
  have keyLen : (RawObj.make slot (List.replicate (m + 2) k) [v]).keyLen = 1 := by
    simpa only [RawObj.make, List.length_replicate] using wraps
  rw [RawObj.objKeyGet, RawObj.objValGet, keyLen]
  simp [RawObj.make, List.replicate_succ]

/-- The table of a shard. `damaged`: `mem_free` was given an address inside the heap that is not an object's. -/
structure Keyspace where
  table : HashTable
  damaged : Bool := false

namespace Keyspace

structure Victim where
  obj : RawObj
  lastRef : Bool
deriving DecidableEq

structure SetEnv where
  slot : Option MemSlot
  growth : Growth
  victims : List Victim := []
  retry : Growth := growth
  lastRef : Bool := true

section Commands

variable (hash : Bytes → BitVec 64) (owns : Nat → Bool)

-- val_len 0 is taken for a pointer to a complex value.
def shardObjFree (s : Keyspace) (o : RawObj) : Keyspace :=
  if o.valLen = 0 ∧ o.objValPtrGet ≠ 0 ∧ owns o.objValPtrGet then { s with damaged := true } else s

def shardObjDestroy (s : Keyspace) (o : RawObj) (lastRef : Bool) : Keyspace :=
  if lastRef then s.shardObjFree owns o else s

-- One round of the loops of shard_mem_evict and shard_ttl_drain.
def takeVictim (s : Keyspace) (v : Victim) : Keyspace × Bool :=
  match s.table.bucketTakeIfUnlocked hash v.obj.objKeyGet v.obj.addr with
  | (t, some o, _) => (({ s with table := t } : Keyspace).shardObjDestroy owns o v.lastRef, true)
  | (t, none, _) => ({ s with table := t }, false)

def shardMemEvict (s : Keyspace) : List Victim → Keyspace × Bool
  | [] => (s, false)
  | v :: victims =>
    let (s, taken) := s.takeVictim hash owns v
    let (s, more) := s.shardMemEvict victims
    (s, taken || more)

def shardBucketPut (s : Keyspace) (obj : RawObj) (expire : Nat) (env : SetEnv) : Keyspace × PutResult :=
  match s.table.bucketPut hash obj expire .none env.growth with
  | (t, .full) =>
    match ({ s with table := t } : Keyspace).shardMemEvict hash owns env.victims with
    | (s, true) =>
      let (t, r) := s.table.bucketPut hash obj expire .none env.retry
      ({ s with table := t }, r)
    | (s, false) => (s, .full)
  | (t, r) => ({ s with table := t }, r)

def shardKeySet (s : Keyspace) (key val : Bytes) (expire : Nat) (flags : PutFlags) (env : SetEnv) : Keyspace × Bool :=
  let present := (s.table.bucketGet hash key 0).isSome
  if (flags = .nx ∧ present) ∨ (flags = .xx ∧ ¬present) then (s, false)
  else
    match env.slot with
    | none => (s, false)
    | some slot =>
      let o := RawObj.make slot key val
      match s.shardBucketPut hash owns o expire env with
      | (s, .replaced (some old)) => (s.shardObjDestroy owns old env.lastRef, true)
      | (s, .full) => (s.shardObjDestroy owns o env.lastRef, false)
      | (s, _) => (s, true)

def shardKeyGet (s : Keyspace) (key : Bytes) (now : Nat) (lastRef : Bool) : Keyspace × Option RawObj :=
  match s.table.bucketGetLazy hash key now with
  | (t, v, some expired) => (({ s with table := t } : Keyspace).shardObjDestroy owns expired lastRef, v)
  | (t, v, none) => ({ s with table := t }, v)

def shardKeyDelete (s : Keyspace) (key : Bytes) (lastRef : Bool) : Keyspace × Bool :=
  match s.table.bucketTake hash key with
  | (t, some o) => (({ s with table := t } : Keyspace).shardObjDestroy owns o lastRef, true)
  | (t, none) => ({ s with table := t }, false)

def shardKeyExpire (s : Keyspace) (key : Bytes) (expire : Nat) (env : SetEnv) : Keyspace × Bool :=
  let current := s.table.expireGet hash key
  if current = 2 ^ 64 - 1 then (s, false)
  else if expire = 0 ∧ current = 0 then (s, false)
  else
    match s.table.bucketGet hash key 0 with
    | none => (s, false)
    | some o => ((s.shardBucketPut hash owns o expire env).1, true)

inductive Command
  | set (key val : Bytes) (expire : Nat) (flags : PutFlags) (env : SetEnv)
  | get (key : Bytes) (now : Nat) (lastRef : Bool)
  | del (key : Bytes) (lastRef : Bool)
  | expire (key : Bytes) (time : Nat) (env : SetEnv)
  | evict (victim : Victim)
  | unref (obj : RawObj)

inductive Answer
  | ok
  | nil
  | oom
  | bulk (val : Bytes)
  | int (n : Nat)
  | quiet
deriving DecidableEq

def execute (s : Keyspace) : Command → Keyspace × Answer
  | .set key val expire flags env =>
    let (s, ok) := s.shardKeySet hash owns key val expire flags env
    (s, if ok then .ok else if flags = .none then .oom else .nil)
  | .get key now lastRef =>
    let (s, v) := s.shardKeyGet hash owns key now lastRef
    (s, v.elim .nil fun o => .bulk o.objValGet)
  | .del key lastRef =>
    let (s, deleted) := s.shardKeyDelete hash owns key lastRef
    (s, .int deleted.toNat)
  | .expire key time env =>
    let (s, changed) := s.shardKeyExpire hash owns key time env
    (s, .int changed.toNat)
  | .evict victim => ((s.takeVictim hash owns victim).1, .quiet)
  | .unref obj => (s.shardObjFree owns obj, .quiet)

/-- Nothing is known of a command that runs after the heap has been damaged. -/
def answer (s : Keyspace) (c : Command) : Option Answer :=
  if s.damaged then none else some (s.execute hash owns c).2

def step (s : Keyspace) (c : Command) : Option Keyspace :=
  if s.damaged then none else some (s.execute hash owns c).1

end Commands

section Fits

variable (owns : Nat → Bool)

def Harmless (o : RawObj) : Prop := o.valLen ≠ 0 ∨ o.objValPtrGet = 0 ∨ owns o.objValPtrGet = false

def Command.keys : Command → List Bytes
  | .set key _ _ _ _ | .get key _ _ | .del key _ | .expire key _ _ => [key]
  | .evict victim => [victim.obj.objKeyGet]
  | .unref _ => []

def Command.growths : Command → List Growth
  | .set _ _ _ _ env | .expire _ _ env => [env.growth]
  | _ => []

def Command.Spares (key : Bytes) : Command → Prop
  | .set other _ _ _ _ | .del other _ | .expire other _ _ => other ≠ key
  | .evict victim => victim.obj.objKeyGet ≠ key
  | .get _ _ _ | .unref _ => True

-- A SET with XX or no flag destroys what it replaces, a GET what has expired.
def Command.Frees (v : Entry) : Command → Prop
  | .set _ _ _ flags env => flags ≠ .nx ∧ env.slot.isSome ∧ env.lastRef
  | .get _ now lastRef => v.stale now ∧ ¬v.locked ∧ lastRef
  | .del _ lastRef => lastRef
  | .evict victim => v.obj.addr = victim.obj.addr ∧ ¬v.locked ∧ victim.lastRef
  | .expire _ _ _ | .unref _ => False

structure Fits (s : Keyspace) (c : Command) : Prop where
  keys : ∀ key ∈ c.keys, key.length ≤ 65535
  value : ∀ key val expire flags env, c = .set key val expire flags env → val.length < 2 ^ 32
  grows : ∀ g ∈ c.growths, g.Granted
  entries : ∀ key ∈ c.keys, ∀ v, s.table.view key = some v → c.Frees v → Harmless owns v.obj
  released : ∀ o, c = .unref o → Harmless owns o

end Fits

variable {hash : Bytes → BitVec 64} {owns : Nat → Bool} {s : Keyspace} {t : HashTable} {key : Bytes}

theorem shardObjDestroy_eq {o : RawObj} {lastRef : Bool} (safe : lastRef = true → Harmless owns o) :
    s.shardObjDestroy owns o lastRef = s := by
  unfold shardObjDestroy
  split
  next last =>
    have kept : ¬(o.valLen = 0 ∧ o.objValPtrGet ≠ 0 ∧ owns o.objValPtrGet) := by
      rintro ⟨empty, pointer, inside⟩
      rcases safe last with filled | null | outside
      · exact filled empty
      · exact pointer null
      · simp [outside] at inside
    exact if_neg kept
  · rfl

def unexpired (v : Option Entry) (now : Nat) : Option Entry := v.filter fun v => ¬(v.stale now ∧ ¬v.locked)

theorem unexpired_lasting {v : Entry} {now : Nat} (lasting : v.expire = 0) : unexpired (some v) now = some v := by
  simp [unexpired, Option.filter, Entry.stale, lasting]

section Table

variable (inv : Inv hash t)

include inv

theorem get_eq_view (short : key.length ≤ 65535) : t.bucketGet hash key 0 = (t.view key).map Entry.obj := by
  have result : Result.obj (t.bucketGet hash key 0) = _ := congrArg Prod.snd (inv.get_refines ⟨key, short⟩ 0).2
  have same := Result.obj.inj result
  rw [same]
  cases t.view key with
  | none => rfl
  | some v => simp [Option.filter, Entry.stale]

theorem put_eq_view {obj : RawObj} (short : obj.Short) (expire : Nat) {g : Growth}
    (grows : g.Granted) :
    Inv hash (t.bucketPut hash obj expire .none g).1 ∧
    (t.bucketPut hash obj expire .none g).1.view =
      Function.update t.view obj.objKeyGet (some { obj := obj, expire := expire, locked := false }) ∧
    (t.bucketPut hash obj expire .none g).2 =
      match t.view obj.objKeyGet with
      | some old => .replaced (some old.obj)
      | none => .inserted := by
  rw [grows.eq]
  obtain ⟨inv', same⟩ := inv.put_refines ⟨obj, short.1, short.2⟩ expire .none g.load
  refine ⟨inv', (congrArg Prod.fst same).trans ?_, Result.put.inj ((congrArg Prod.snd same).trans ?_)⟩
  · simp [KeyMap.step, KeyMap.put]
  · cases view : t.view obj.objKeyGet <;> simp [KeyMap.step, KeyMap.put, view]

theorem take_eq_view (short : key.length ≤ 65535) :
    Inv hash (t.bucketTake hash key).1 ∧ (t.bucketTake hash key).1.view = t.view.remove key ∧
    (t.bucketTake hash key).2 = (t.view key).map Entry.obj := by
  obtain ⟨inv', same⟩ := inv.take_refines ⟨key, short⟩
  exact ⟨inv', congrArg Prod.fst same, Result.obj.inj (congrArg Prod.snd same)⟩

theorem getLazy_eq_view (short : key.length ≤ 65535) (now : Nat) : ∃ t' expired,
    t.bucketGetLazy hash key now = (t', (unexpired (t.view key) now).map Entry.obj, expired) ∧ Inv hash t' ∧
    t'.view = Function.update t.view key (unexpired (t.view key) now) ∧
    (∀ o, expired = some o → ∃ v, t.view key = some v ∧ v.obj = o ∧ v.stale now ∧ ¬v.locked) := by
  rcases inv.getLazy_cases ⟨key, short⟩ now with ⟨v, t', view, late, free, read, inv', view'⟩ | ⟨lasting, read⟩
  · have gone : unexpired (t.view key) now = none := by simp [unexpired, view, late, free, Option.filter]
    refine ⟨t', some v.obj, by rw [read, gone]; rfl, inv', by rw [gone]; exact view', ?_⟩
    rintro o ⟨⟩
    exact ⟨v, view, rfl, late, by simp [free]⟩
  · have kept : unexpired (t.view key) now = t.view key := by
      cases view : t.view key with
      | none => rfl
      | some v => simpa [unexpired, Option.filter] using lasting v view
    exact ⟨t, none, by rw [read, kept], inv, by rw [kept, Function.update_eq_self], by simp⟩

end Table

def Refused (v : Option Entry) (flags : PutFlags) : Prop := (flags = .nx ∧ v.isSome) ∨ (flags = .xx ∧ ¬v.isSome)

structure Good (hash : Bytes → BitVec 64) (s : Keyspace) : Prop where
  inv : Inv hash s.table
  intact : s.damaged = false

structure Changes (hash : Bytes → BitVec 64) (s s' : Keyspace) (keys : List Bytes) : Prop where
  good : Good hash s'
  frame : ∀ other, other ∉ keys → s'.table.view other = s.table.view other

theorem Good.with_table (good : Good hash s) (inv : Inv hash t) : Good hash { s with table := t } := ⟨inv, good.intact⟩

section Commands

variable (good : Good hash s)

include good

theorem Good.put (owns : Nat → Bool) {obj : RawObj} (expire : Nat) (env : SetEnv) (short : obj.Short)
    (grows : env.growth.Granted) :
    ∃ s', s.shardBucketPut hash owns obj expire env =
        (s', match s.table.view obj.objKeyGet with
          | some old => .replaced (some old.obj)
          | none => .inserted) ∧
      Good hash s' ∧ s'.table.view =
        Function.update s.table.view obj.objKeyGet (some { obj := obj, expire := expire, locked := false }) := by
  obtain ⟨inv, view, result⟩ := put_eq_view good.inv short expire grows
  refine ⟨{ s with table := (s.table.bucketPut hash obj expire .none env.growth).1 }, ?_, good.with_table inv, view⟩
  unfold shardBucketPut
  generalize s.table.bucketPut hash obj expire .none env.growth = put at result
  obtain ⟨t, r⟩ := put
  simp only at result
  subst result
  cases s.table.view obj.objKeyGet <;> rfl

theorem Good.set {val : Bytes} {expire : Nat} {flags : PutFlags} {env : SetEnv}
    (fits : Fits owns s (.set key val expire flags env)) :
    (¬Refused (s.table.view key) flags ∧ ∃ s' slot, env.slot = some slot ∧
      s.shardKeySet hash owns key val expire flags env = (s', true) ∧ Good hash s' ∧ s'.table.view =
        Function.update s.table.view key (some { obj := .make slot key val, expire := expire, locked := false })) ∨
    (Refused (s.table.view key) flags ∨ env.slot = none) ∧ s.shardKeySet hash owns key val expire flags env = (s, false) := by
  have short : key.length ≤ 65535 := fits.keys key (by simp [Command.keys])
  have grows := fits.grows env.growth (by simp [Command.growths])
  have present : (s.table.bucketGet hash key 0).isSome = (s.table.view key).isSome := by
    rw [get_eq_view good.inv short, Option.isSome_map]
  unfold shardKeySet
  simp only [present]
  split
  next refused => exact .inr ⟨.inl refused, rfl⟩
  next taken =>
    split
    next full => exact .inr ⟨.inr full, rfl⟩
    next slot given =>
      have made := RawObj.objKeyGet_make slot val short
      obtain ⟨s', put, good', view⟩ := good.put owns expire env (RawObj.short_make slot key val) grows
      rw [put]
      rw [made] at view ⊢
      refine .inl ⟨taken, s', slot, given, ?_, good', view⟩
      cases old : s.table.view key with
      | none => rfl
      | some v =>
        have overwrites : flags ≠ .nx := by
          rintro rfl
          exact taken (.inl ⟨rfl, by rw [old]; rfl⟩)
        have safe (last : env.lastRef = true) : Harmless owns v.obj :=
          fits.entries key (by simp [Command.keys]) v old ⟨overwrites, by rw [given]; rfl, last⟩
        simp only [shardObjDestroy_eq safe]

theorem Good.set_absent {slot : MemSlot} {val : Bytes} (owns : Nat → Bool) (load : Bool)
    (absent : s.table.view (RawObj.make slot key val).objKeyGet = none) : ∃ s',
    s.step hash owns (.set key val 0 .none { slot := some slot, growth := { load := load } }) = some s' ∧
    s.answer hash owns (.set key val 0 .none { slot := some slot, growth := { load := load } }) = some .ok ∧
    Good hash s' ∧ s'.table.view = Function.update s.table.view (RawObj.make slot key val).objKeyGet
      (some { obj := .make slot key val, expire := 0, locked := false }) := by
  obtain ⟨s', put, good', view⟩ := good.put owns 0 { slot := some slot, growth := { load := load } }
    (RawObj.short_make slot key val) ⟨rfl, fun _ => rfl, rfl⟩
  rw [absent] at put
  refine ⟨s', ?_, ?_, good', view⟩
  · simp [Keyspace.step, good.intact, Keyspace.execute, shardKeySet, put]
  · simp [answer, good.intact, Keyspace.execute, shardKeySet, put]

theorem Good.get {now : Nat} {lastRef : Bool} (fits : Fits owns s (.get key now lastRef)) :
    ∃ s', s.shardKeyGet hash owns key now lastRef = (s', (unexpired (s.table.view key) now).map Entry.obj) ∧
      Good hash s' ∧ s'.table.view = Function.update s.table.view key (unexpired (s.table.view key) now) := by
  have short : key.length ≤ 65535 := fits.keys key (by simp [Command.keys])
  obtain ⟨t', expired, read, inv, view, gone⟩ := getLazy_eq_view good.inv short now
  refine ⟨{ s with table := t' }, ?_, good.with_table inv, view⟩
  rw [shardKeyGet, read]
  cases expired with
  | none => rfl
  | some o =>
    obtain ⟨v, entry, rfl, stale, free⟩ := gone o rfl
    have safe (last : lastRef = true) : Harmless owns v.obj :=
      fits.entries key (by simp [Command.keys]) v entry ⟨stale, free, last⟩
    simp only [shardObjDestroy_eq safe]

theorem Good.del {lastRef : Bool} (fits : Fits owns s (.del key lastRef)) :
    ∃ s', s.shardKeyDelete hash owns key lastRef = (s', (s.table.view key).isSome) ∧
      Good hash s' ∧ s'.table.view = s.table.view.remove key := by
  have short : key.length ≤ 65535 := fits.keys key (by simp [Command.keys])
  obtain ⟨inv, view, result⟩ := take_eq_view good.inv short
  refine ⟨{ s with table := (s.table.bucketTake hash key).1 }, ?_, good.with_table inv, view⟩
  unfold shardKeyDelete
  generalize s.table.bucketTake hash key = taken at result
  obtain ⟨t', o⟩ := taken
  simp only at result
  subst result
  cases old : s.table.view key with
  | none => rfl
  | some v =>
    have safe (last : lastRef = true) : Harmless owns v.obj := fits.entries key (by simp [Command.keys]) v old last
    simp [shardObjDestroy_eq safe]

theorem Good.expire {time : Nat} {env : SetEnv} (fits : Fits owns s (.expire key time env)) :
    (∃ v s', s.table.view key = some v ∧ v.expire ≠ 2 ^ 64 - 1 ∧ ¬(time = 0 ∧ v.expire = 0) ∧
      s.shardKeyExpire hash owns key time env = (s', true) ∧ Good hash s' ∧
      s'.table.view = Function.update s.table.view key (some { v with expire := time, locked := false })) ∨
    (∀ v, s.table.view key = some v → v.expire = 2 ^ 64 - 1 ∨ time = 0 ∧ v.expire = 0) ∧
      s.shardKeyExpire hash owns key time env = (s, false) := by
  have short : key.length ≤ 65535 := fits.keys key (by simp [Command.keys])
  have read := get_eq_view good.inv short
  have current : s.table.expireGet hash key = (s.table.view key).elim (2 ^ 64 - 1) Entry.expire :=
    Result.expire.inj (congrArg Prod.snd (good.inv.expireGet_refines ⟨key, short⟩).2)
  cases entry : s.table.view key with
  | none => exact .inr ⟨by simp, by simp [shardKeyExpire, current, entry]⟩
  | some v =>
    have result : s.shardKeyExpire hash owns key time env = if v.expire = 2 ^ 64 - 1 ∨ time = 0 ∧ v.expire = 0 then (s, false)
        else ((s.shardBucketPut hash owns v.obj time env).1, true) := by
      simp only [shardKeyExpire, current, read, entry, Option.elim_some, Option.map_some]
      split <;> split <;> simp_all
    rw [result]
    by_cases unchanged : v.expire = 2 ^ 64 - 1 ∨ time = 0 ∧ v.expire = 0
    · exact .inr ⟨fun _ same => Option.some.inj same ▸ unchanged, if_pos unchanged⟩
    · rw [if_neg unchanged]
      obtain ⟨shortObj, keyed⟩ := good.inv.view_short entry
      obtain ⟨s', put, good', view⟩ := good.put owns time env shortObj (fits.grows env.growth (by simp [Command.growths]))
      rw [keyed] at view
      rw [not_or] at unchanged
      exact .inl ⟨v, s', rfl, unchanged.1, unchanged.2, by rw [put], good', view⟩

theorem Good.evict {victim : Victim} (fits : Fits owns s (.evict victim)) :
    Changes hash s (s.takeVictim hash owns victim).1 [victim.obj.objKeyGet] := by
  have short := fits.keys victim.obj.objKeyGet (by simp [Command.keys])
  rw [takeVictim]
  rcases good.inv.takeIfUnlocked_cases ⟨_, short⟩ victim.obj.addr with
    ⟨v, t', view, addr, free, taken, inv, view'⟩ | ⟨-, kept⟩
  · have safe (last : victim.lastRef = true) : Harmless owns v.obj :=
      fits.entries _ (by simp [Command.keys]) v view ⟨addr, by simp [free], last⟩
    simp only [taken, shardObjDestroy_eq safe]
    exact ⟨good.with_table inv, fun other apart => by rw [view', KeyMap.remove, Function.update_of_ne (by simpa using apart)]⟩
  · rw [kept]
    exact ⟨good, fun _ _ => rfl⟩

theorem Good.execute {c : Command} (fits : Fits owns s c) : Changes hash s (s.execute hash owns c).1 c.keys := by
  cases c with
  | set key val expire flags env =>
    rcases good.set fits with ⟨-, s', slot, -, set, good', view⟩ | ⟨-, set⟩
    · simp only [Keyspace.execute, set, Command.keys]
      exact ⟨good', fun other apart => by rw [view, Function.update_of_ne (by simpa using apart)]⟩
    · simp only [Keyspace.execute, set]
      exact ⟨good, fun _ _ => rfl⟩
  | get key now lastRef =>
    obtain ⟨s', get, good', view⟩ := good.get fits
    simp only [Keyspace.execute, get, Command.keys]
    exact ⟨good', fun other apart => by rw [view, Function.update_of_ne (by simpa using apart)]⟩
  | del key lastRef =>
    obtain ⟨s', del, good', view⟩ := good.del fits
    simp only [Keyspace.execute, del, Command.keys]
    exact ⟨good', fun other apart => by rw [view, KeyMap.remove, Function.update_of_ne (by simpa using apart)]⟩
  | expire key time env =>
    rcases good.expire fits with ⟨v, s', -, -, -, expire, good', view⟩ | ⟨-, expire⟩
    · simp only [Keyspace.execute, expire, Command.keys]
      exact ⟨good', fun other apart => by rw [view, Function.update_of_ne (by simpa using apart)]⟩
    · simp only [Keyspace.execute, expire]
      exact ⟨good, fun _ _ => rfl⟩
  | evict victim => exact good.evict fits
  | unref o =>
    have kept : s.shardObjDestroy owns o true = s := shardObjDestroy_eq fun _ => fits.released o rfl
    rw [show (s.execute hash owns (.unref o)).1 = s from kept]
    exact ⟨good, fun _ _ => rfl⟩

theorem Good.execute_spares {c : Command} (fits : Fits owns s c) (spares : c.Spares key) {v : Entry}
    (entry : s.table.view key = some v) (lasting : v.expire = 0) :
    (s.execute hash owns c).1.table.view key = some v := by
  have frame := (good.execute fits).frame key
  cases c with
  | get other now lastRef =>
    by_cases same : other = key
    · subst same
      obtain ⟨s', get, -, view⟩ := good.get fits
      simp only [Keyspace.execute, get, view, Function.update_self, entry, unexpired_lasting lasting]
    · rw [frame (by simpa [Command.keys] using Ne.symm same), entry]
  | unref o => rw [frame (by simp [Command.keys]), entry]
  | set other _ _ _ _ | del other _ | expire other _ _ =>
    rw [frame (by simpa [Command.keys] using Ne.symm spares), entry]
  | evict victim => rw [frame (by simpa [Command.keys] using Ne.symm spares), entry]

theorem Good.answer_get (short : key.length ≤ 65535) (now : Nat) (lastRef : Bool) :
    s.answer hash owns (.get key now lastRef) =
      some ((unexpired (s.table.view key) now).elim .nil fun v => .bulk v.obj.objValGet) := by
  obtain ⟨t', expired, read, -⟩ := getLazy_eq_view good.inv short now
  have result : (s.shardKeyGet hash owns key now lastRef).2 = (unexpired (s.table.view key) now).map Entry.obj := by
    rw [shardKeyGet, read]
    cases expired <;> rfl
  simp only [answer, good.intact, Keyspace.execute, result]
  cases unexpired (s.table.view key) now <;> rfl

theorem Good.answer_del (short : key.length ≤ 65535) (lastRef : Bool) :
    s.answer hash owns (.del key lastRef) = some (.int (s.table.view key).isSome.toNat) := by
  obtain ⟨-, -, result⟩ := take_eq_view good.inv short
  have deleted : (s.shardKeyDelete hash owns key lastRef).2 = (s.table.view key).isSome := by
    unfold shardKeyDelete
    generalize s.table.bucketTake hash key = taken at result
    obtain ⟨t', o⟩ := taken
    simp only at result
    subst result
    cases s.table.view key <;> rfl
  simp [answer, good.intact, Keyspace.execute, deleted]

end Commands

def create (table : HashTable) : Keyspace := { table := table }

theorem Good.create (inv : Inv hash t) : Good hash (create t) := ⟨inv, rfl⟩

theorem Good.step {c : Command} {s' : Keyspace} (good : Good hash s) (fits : Fits owns s c)
    (stepped : s.step hash owns c = some s') : Good hash s' := by
  simp only [Keyspace.step, good.intact, Bool.false_eq_true, if_false, Option.some.injEq] at stepped
  rw [← stepped]
  exact (good.execute fits).good

open Transition in
theorem Good.spared {s' : Keyspace} {v : Entry} (good : Good hash s) (entry : s.table.view key = some v)
    (lasting : v.expire = 0)
    (after : Reaches (Keyspace.step hash owns) (fun s c => Fits owns s c ∧ c.Spares key) s s') :
    Good hash s' ∧ s'.table.view key = some v := by
  induction after with
  | refl => exact ⟨good, entry⟩
  | tail _ permitted stepped ih =>
    obtain ⟨good₁, entry₁⟩ := ih
    obtain ⟨fits, spares⟩ := permitted
    refine ⟨good₁.step fits stepped, ?_⟩
    simp only [Keyspace.step, good₁.intact, Bool.false_eq_true, if_false, Option.some.injEq] at stepped
    rw [← stepped]
    exact good₁.execute_spares fits spares entry₁ lasting

open Transition in
theorem set_read_back (hash : Bytes → BitVec 64) (owns : Nat → Bool) {initialCap : BitVec 64} {table : HashTable}
    {s s' s'' : Keyspace} {key val : Bytes} {flags : PutFlags} {env : SetEnv} (small : initialCap.toNat ≤ 2 ^ 58)
    (created : tableCreate initialCap = some table) (before : Reaches (step hash owns) (Fits owns) (create table) s)
    (fits : Fits owns s (.set key val 0 flags env))
    (ok : s.answer hash owns (.set key val 0 flags env) = some .ok)
    (set : s.step hash owns (.set key val 0 flags env) = some s')
    (after : Reaches (step hash owns) (fun s c => Fits owns s c ∧ c.Spares key) s' s'') :
    (∀ now lastRef, s''.answer hash owns (.get key now lastRef) = some (.bulk val)) ∧
    (∀ lastRef, s''.answer hash owns (.del key lastRef) = some (.int 1)) ∧
    ∀ other now lastRef, other ≠ key → other.length ≤ 65535 →
      s'.answer hash owns (.get other now lastRef) = s.answer hash owns (.get other now lastRef) := by
  have good : Good hash s := before.invariant (.create (Inv.tableCreate hash small created).1) Good.step
  have short : key.length ≤ 65535 := fits.keys key (by simp [Command.keys])
  have small : val.length < 2 ^ 32 := fits.value _ _ _ _ _ rfl
  have good' := good.step fits set
  rcases good.set fits with ⟨-, stored, slot, -, done, -, view⟩ | ⟨-, failed⟩
  · have same : s' = stored := by
      simp only [Keyspace.step, good.intact, Bool.false_eq_true, if_false, Option.some.injEq, Keyspace.execute, done] at set
      exact set.symm
    subst same
    obtain ⟨good'', entry⟩ := good'.spared (by rw [view, Function.update_self]) rfl after
    refine ⟨fun now lastRef => ?_, fun lastRef => ?_, fun other now lastRef away short' => ?_⟩
    · rw [good''.answer_get short, entry, unexpired_lasting rfl, Option.elim_some, RawObj.objValGet_make slot short small]
    · rw [good''.answer_del short, entry]
      rfl
    · rw [good'.answer_get short', good.answer_get short', view, Function.update_of_ne away]
  · simp only [answer, good.intact, Bool.false_eq_true, if_false, Keyspace.execute, failed, Option.some.injEq] at ok
    split at ok <;> cases ok

def tableHash (key : Bytes) : BitVec 64 := BitVec.ofNat 64 (htKeyHash key)

-- INITIAL_BUCKETS is 8192.
def fresh : Keyspace := create (newTable 8192)

theorem Good.fresh (hash : Bytes → BitVec 64) : Good hash fresh := .create (.newTable hash ⟨13, by decide, rfl⟩)

def firstSet : Command := .set [107] [] 0 .none { slot := some ⟨4096, [98, 99]⟩, growth := {} }

theorem firstSet_fits (owns : Nat → Bool) : Fits owns fresh firstSet := by
  have granted : ∀ g ∈ firstSet.growths, g.Granted := by
    rintro g member
    cases List.mem_singleton.1 member
    exact ⟨rfl, fun _ => rfl, rfl⟩
  refine ⟨by simp [firstSet, Command.keys], ?_, granted, ?_, by simp [firstSet]⟩
  · rintro key val expire flags env ⟨⟩
    simp
  · intro key member v present
    rw [show fresh.table.view = KeyMap.empty from view_newTable 8192] at present
    cases present

theorem set_read_back_empty_value : tableCreate 8192 = some (newTable 8192) ∧ ∃ s', fresh.step tableHash (fun _ => true) firstSet = some s' ∧
    s'.answer tableHash (fun _ => true) (.get [107] 5 true) = some (.bulk []) ∧
    s'.answer tableHash (fun _ => true) (.del [107] true) = some (.int 1) := by
  have created : tableCreate 8192 = some (newTable 8192) := rfl
  have read := set_read_back tableHash (fun _ => true) (by decide) created .refl (firstSet_fits _) (by decide +kernel) rfl .refl
  exact ⟨created, _, rfl, read.1 5 true, read.2.1 true⟩

def longSet : Command :=
  .set (List.replicate 65537 97) [118] 0 .none { slot := some ⟨4096, []⟩, growth := {} }

/-- A key of 65537 bytes is stored under its first byte: GET of that byte finds it, and takes the second byte of the
key for the value. -/
theorem long_key_stored_under_first_byte : ∃ s', fresh.step tableHash (fun _ => false) longSet = some s' ∧
    fresh.answer tableHash (fun _ => false) longSet = some .ok ∧
    fresh.answer tableHash (fun _ => false) (.get [97] 5 true) = some .nil ∧
    s'.answer tableHash (fun _ => false) (.get [97] 5 true) = some (.bulk [97]) := by
  have good := Good.fresh tableHash
  have absent : fresh.table.view = KeyMap.empty := view_newTable 8192
  obtain ⟨keyed, value⟩ := RawObj.make_replicate ⟨4096, []⟩ 97 118 (show 2 ≤ 65537 by norm_num) (by norm_num)
  obtain ⟨s', stored, ok, good', view⟩ := good.set_absent (fun _ => false) false (by rw [absent]; rfl)
  refine ⟨s', stored, ok, ?_, ?_⟩
  · rw [good.answer_get (by simp), absent]
    rfl
  · rw [good'.answer_get (by simp), view, keyed, Function.update_self, unexpired_lasting rfl, Option.elim_some, value]

end Keyspace

end FreakV
