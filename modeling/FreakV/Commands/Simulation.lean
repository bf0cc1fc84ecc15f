import FreakV.Commands.Calls
import FreakV.Commands.Table
import FreakV.Shard.Model
import FreakV.Store

/-!
# The table behind the models of a shard's keys

What is proved of commands is proved over `Table`. The hash table with its objects, which is also the one under the lists
of `Shard.State`, and the store of the MSET engine answer every call of a command as `Table` does.
-/

namespace FreakV

open Commands
open HashTable (PutFlags)

namespace Commands

def lasting (now : Nat) (v : Option Stored) : Option Stored := v.filter fun v => ¬(v.stale now ∧ v.locked = false)

def Stored.Fixed (time : Nat) (v : Stored) : Prop := v.expire = noExpire ∨ time = 0 ∧ v.expire = 0

instance (time : Nat) (v : Stored) : Decidable (v.Fixed time) := inferInstanceAs (Decidable (_ ∨ _))

def Stored.retimed (time : Nat) (v : Stored) : Stored :=
  if v.Fixed time then v else { v with expire := time, locked := false }

theorem Stored.retimed_fixed {time : Nat} {v : Stored} (fixed : v.Fixed time) : v.retimed time = v := if_pos fixed

theorem Stored.retimed_free {time : Nat} {v : Stored} (free : ¬v.Fixed time) :
    v.retimed time = { v with expire := time, locked := false } := if_neg free

def accepts (full : Bool) (flags : PutFlags) (v : Option Stored) : Bool :=
  !full && !(flags = .nx && v.isSome) && !(flags = .xx && v.isNone)

section Simulation

variable {σ : Type} {api : ShardApi σ} {good : σ → Prop} {view : σ → Bytes → Option Stored} {full : Bool}

structure Gives {α : Type} (good : σ → Prop) (view : σ → Bytes → Option Stored) (p : σ × α) (result : α)
    (after : Bytes → Option Stored) : Prop where
  result : p.2 = result
  good : good p.1
  view : view p.1 = after

structure Describes (api : ShardApi σ) (good : σ → Prop) (view : σ → Bytes → Option Stored) (full : Bool) : Prop where
  get : ∀ {s key}, good s → key.length < 2 ^ 16 → ∀ now, Gives good view (api.keyGet s key now)
    ((lasting now (view s key)).map Stored.value) (Function.update (view s) key (lasting now (view s key)))
  set : ∀ {s key val expire}, good s → key.length < 2 ^ 16 → val.length < 2 ^ 32 → expire ≠ noExpire → ∀ flags,
    Gives good view (api.keySet s key val expire flags) (accepts full flags (view s key))
      (if accepts full flags (view s key) then Function.update (view s) key (some { value := val, expire := expire }) else view s)
  delete : ∀ {s key}, good s → key.length < 2 ^ 16 → Gives good view (api.keyDelete s key) (view s key).isSome
    (Function.update (view s) key none)
  expire : ∀ {s key time}, good s → key.length < 2 ^ 16 → time ≠ noExpire → Gives good view (api.keyExpire s key time)
    ((view s key).any fun v => ¬v.Fixed time) (Function.update (view s) key ((view s key).map (Stored.retimed time)))
  expireGet : ∀ {s key}, good s → key.length < 2 ^ 16 → api.expireGet s key = (view s key).elim noExpire Stored.expire

def Call.Fits : Call → Prop
  | .read _ key | .ttl _ key => key.length < 2 ^ 16
  | .set key val o => key.length < 2 ^ 16 ∧ val.length < 2 ^ 32 ∧ o.expire ≠ noExpire
  | .expire key time => key.length < 2 ^ 16 ∧ time ≠ noExpire
  | .delete keys => ∀ key ∈ keys, key.length < 2 ^ 16
  | .answer _ => True

section Alike

variable {τ : Type} {api' : ShardApi τ} {good' : τ → Prop} {view' : τ → Bytes → Option Stored} {s : σ} {s' : τ}

def Alike {α : Type} (good : σ → Prop) (view : σ → Bytes → Option Stored) (good' : τ → Prop)
    (view' : τ → Bytes → Option Stored) (p : σ × α) (q : τ × α) : Prop :=
  p.2 = q.2 ∧ good p.1 ∧ good' q.1 ∧ view p.1 = view' q.1

theorem Gives.alike {α : Type} {p : σ × α} {q : τ × α} {result : α} {after : Bytes → Option Stored}
    (first : Gives good view p result after) (second : Gives good' view' q result after) : Alike good view good' view' p q :=
  ⟨first.result.trans second.result.symm, first.good, second.good, first.view.trans second.view.symm⟩

variable (d : Describes api good view full) (d' : Describes api' good' view' full)

include d d'

theorem Describes.deleteAll_alike {keys : List Bytes} (short : ∀ key ∈ keys, key.length < 2 ^ 16) (fine : good s)
    (fine' : good' s') (same : view s = view' s') :
    Alike good view good' view' (deleteAll api keys s) (deleteAll api' keys s') := by
  induction keys generalizing s s' with
  | nil => exact ⟨rfl, fine, fine', same⟩
  | cons key rest ih =>
    have here := short key List.mem_cons_self
    obtain ⟨deleted, fine, fine', same⟩ := (d.delete fine here).alike (same ▸ d'.delete fine' here)
    obtain ⟨count, fine, fine', same⟩ := ih (fun key there => short key (List.mem_cons_of_mem _ there)) fine fine' same
    rw [deleteAll_cons, deleteAll_cons]
    exact ⟨by rw [deleted, count], fine, fine', same⟩

/-- Two models that meet the description answer every call alike, and go on alike. -/
theorem Describes.run_alike {call : Call} (fits : call.Fits) (now : Nat) (fine : good s) (fine' : good' s')
    (same : view s = view' s') : Alike good view good' view' (call.run api now s) (call.run api' now s') := by
  cases call with
  | read what key =>
    obtain ⟨read, rest⟩ := (d.get fine fits now).alike (same ▸ d'.get fine' fits now)
    exact ⟨congrArg (fun v => replyBytes (what.reply v)) read, rest⟩
  | ttl ms key =>
    have timed : api.expireGet s key = api'.expireGet s' key := by rw [d.expireGet fine fits, d'.expireGet fine' fits, same]
    exact ⟨congrArg (fun e => replyBytes (intReply (shardKeyTtl e now ms))) timed, fine, fine', same⟩
  | set key val o =>
    obtain ⟨short, small, given⟩ := fits
    have kept : keptExpire api s key o = keptExpire api' s' key o := by
      rw [keptExpire, keptExpire, d.expireGet fine short, d'.expireGet fine' short, same]
    have ne : keptExpire api s key o ≠ noExpire := by
      unfold keptExpire
      grind
    obtain ⟨ok, rest⟩ := (d.set fine short small ne o.flags).alike (same ▸ d'.set fine' short small ne o.flags)
    simp only [Call.run, ← kept]
    exact ⟨congrArg (fun ok => replyBytes (setReply o.flags ok)) ok, rest⟩
  | expire key time =>
    obtain ⟨done, rest⟩ := (d.expire fine fits.1 fits.2).alike (same ▸ d'.expire fine' fits.1 fits.2)
    exact ⟨congrArg (fun done : Bool => replyBytes (intReply done.toNat)) done, rest⟩
  | delete keys =>
    obtain ⟨count, rest⟩ := d.deleteAll_alike d' fits fine fine' same
    exact ⟨congrArg (fun count => replyBytes (intReply count)) count, rest⟩
  | answer text => exact ⟨rfl, fine, fine', same⟩

end Alike

theorem gives_fixed {s : σ} {key : Bytes} {time : Nat} (fine : good s) (fixed : ∀ v ∈ view s key, v.Fixed time) :
    Gives good view (s, false) ((view s key).any fun v => ¬v.Fixed time)
      (Function.update (view s) key ((view s key).map (Stored.retimed time))) := by
  cases entry : view s key with
  | none => exact ⟨rfl, fine, (Function.update_eq_self_iff.2 entry.symm).symm⟩
  | some v =>
    have same := fixed v entry
    exact ⟨(decide_eq_false (not_not.2 same)).symm, fine,
      by rw [Option.map_some, Stored.retimed_fixed same, ← entry, Function.update_eq_self]⟩

theorem Table.describes : Describes Table.api (fun m : Table => m.memFull = full) Table.map full where
  get {m key} room short now := by
    simp only [api_keyGet, keyGet, find_eq m short]
    cases entry : m.map key with
    | none => exact ⟨rfl, room, (Function.update_eq_self_iff.2 entry.symm).symm⟩
    | some v =>
      simp only
      split
      next gone =>
        have none : lasting now (some v) = none := by simp [lasting, Option.filter, gone]
        exact ⟨by rw [none]; rfl, room, by rw [none]; rfl⟩
      next lasts =>
        have kept : lasting now (some v) = some v := by simpa [lasting, Option.filter, imp_iff_not_or] using lasts
        exact ⟨by rw [kept]; rfl, room, by rw [kept, ← entry, Function.update_eq_self]⟩
  set {m key val expire} room short small _ flags := by
    have value : storedValue key val = val := by
      rw [storedValue, Nat.mod_eq_of_lt short, Nat.mod_eq_of_lt small]
      simp
    simp only [api_keySet, keySet, find_eq m short, storedKey_eq short, value, accepts]
    subst room
    split
    next refused => exact ⟨by grind, rfl, by grind⟩
    · split
      next out => exact ⟨by simp [out], rfl, by simp [out]⟩
      next taken => exact ⟨by grind, rfl, by grind [put]⟩
  delete {m key} room short := by
    simp only [api_keyDelete, keyDelete, find_eq m short]
    cases entry : m.map key with
    | none => exact ⟨rfl, room, (Function.update_eq_self_iff.2 entry.symm).symm⟩
    | some v => exact ⟨rfl, room, rfl⟩
  expire {m key time} room short _ := by
    simp only [api_keyExpire, keyExpire, find_eq m short]
    cases entry : m.map key with
    | none => exact ⟨rfl, room, (Function.update_eq_self_iff.2 entry.symm).symm⟩
    | some v =>
      simp only
      split
      next fixed =>
        exact ⟨(decide_eq_false (not_not.2 fixed)).symm, room,
          by rw [Option.map_some, Stored.retimed_fixed fixed, ← entry, Function.update_eq_self]⟩
      next free => exact ⟨(decide_eq_true free).symm, room, by rw [Option.map_some, Stored.retimed_free free]; rfl⟩
  expireGet {m key} _ short := by rw [api_expireGet, expireGet, find_eq m short]

end Simulation

end Commands

namespace Keyspace

variable {hash : Bytes → BitVec 64} {env : SetEnv} {s : Keyspace} {c : Command}

def stored (v : HashTable.Entry) : Stored := { value := v.obj.objValGet, expire := v.expire, locked := v.locked }

def shown (s : Keyspace) (key : Bytes) : Option Stored := (s.table.view key).map stored

-- No bytes behind a key are the address of an object.
def stray : Nat → Bool := fun _ => false

def api (hash : Bytes → BitVec 64) (env : SetEnv) (others : ShardApi Keyspace) : ShardApi Keyspace :=
  { others with
    keyGet s key now := let (s, o) := s.shardKeyGet hash stray key now true; (s, o.map RawObj.objValGet)
    keySet s key val expire flags := s.shardKeySet hash stray key val expire flags env
    keyDelete s key := s.shardKeyDelete hash stray key true
    keyExpire s key time := s.shardKeyExpire hash stray key time env
    expireGet s key := s.table.expireGet hash key }

theorem fits_stray (keys : ∀ key ∈ c.keys, key.length < 2 ^ 16)
    (value : ∀ key val expire flags env, c = .set key val expire flags env → val.length < 2 ^ 32)
    (grows : ∀ g ∈ c.growths, g.Granted) : Fits stray s c :=
  ⟨fun key there => Nat.le_of_lt_succ (keys key there), value, grows, fun _ _ _ _ _ => .inr (.inr rfl), fun _ _ => .inr (.inr rfl)⟩

theorem shown_update {s' : Keyspace} {key : Bytes} {v : Option HashTable.Entry}
    (view : s'.table.view = Function.update s.table.view key v) : s'.shown = Function.update s.shown key (v.map stored) := by
  funext other
  by_cases same : other = key <;> simp [shown, view, same]

theorem lasting_stored (now : Nat) (v : Option HashTable.Entry) : lasting now (v.map stored) = (unexpired v now).map stored := by
  cases v with
  | none => rfl
  | some v =>
    by_cases gone : v.stale now ∧ v.locked = false
    · have late : (stored v).stale now ∧ (stored v).locked = false := gone
      simp [lasting, unexpired, Option.filter, gone, late]
    · have kept : ¬((stored v).stale now ∧ (stored v).locked = false) := gone
      simp only [not_and, Bool.not_eq_false] at gone kept
      simp +contextual [lasting, unexpired, Option.filter, imp_iff_not_or.1 gone, imp_iff_not_or.1 kept]

/-- The hash table of a shard, as long as its arenas grow and nothing stray is freed. -/
theorem describes (others : ShardApi Keyspace) (grows : env.growth.Granted) :
    Describes (api hash env others) (Good hash) shown env.slot.isNone where
  get {s key} good short now := by
    obtain ⟨s', get, good', view⟩ := good.get (fits_stray (c := .get key now true) (by simpa [Command.keys]) (by simp)
      (by simp [Command.growths]))
    simp only [api, get]
    rw [shown, lasting_stored]
    exact ⟨by simp [Function.comp_def, stored], good', shown_update view⟩
  set {s key val expire} good short small _ flags := by
    have fits : Fits stray s (.set key val expire flags env) :=
      fits_stray (by simpa [Command.keys]) (by rintro _ _ _ _ _ ⟨⟩; exact small) (by simpa [Command.growths])
    have rule : accepts env.slot.isNone flags (s.shown key) = true ↔ ¬Refused (s.table.view key) flags ∧ env.slot ≠ none := by
      cases entry : s.table.view key <;> cases given : env.slot <;> simp [accepts, Refused, shown, entry]
    rcases good.set fits with ⟨free, s', slot, given, set, good', view⟩ | ⟨why, set⟩
    · have yes := rule.2 ⟨free, by simp [given]⟩
      have made : (RawObj.make slot key val).objValGet = val := RawObj.objValGet_make slot (by omega) small
      simp only [api, set, yes]
      exact ⟨rfl, good', by simpa [stored, made] using shown_update view⟩
    · have no : accepts env.slot.isNone flags (s.shown key) = false := by
        rw [← Bool.not_eq_true, rule]
        tauto
      simp only [api, set, no]
      exact ⟨rfl, good, rfl⟩
  delete {s key} good short := by
    obtain ⟨s', del, good', view⟩ := good.del (fits_stray (c := .del key true) (by simpa [Command.keys]) (by simp)
      (by simp [Command.growths]))
    simp only [api, del]
    exact ⟨by simp [shown], good', shown_update view⟩
  expire {s key time} good short _ := by
    rcases good.expire (fits_stray (c := .expire key time env) (by simpa [Command.keys]) (by simp)
      (by simpa [Command.growths])) with ⟨v, s', entry, ever, timed, expire, good', view⟩ | ⟨why, expire⟩
    · have free : ¬(stored v).Fixed time := not_or.2 ⟨ever, timed⟩
      simp only [api, expire]
      rw [shown, entry, Option.map_some, Option.map_some, Stored.retimed_free free]
      exact ⟨(decide_eq_true free).symm, good', shown_update view⟩
    · simp only [api, expire]
      refine gives_fixed good fun v there => ?_
      obtain ⟨e, entry, rfl⟩ := Option.map_eq_some_iff.1 there
      exact why e entry
  expireGet {s key} good short := by
    have current := HashTable.Result.expire.inj (congrArg Prod.snd (good.inv.expireGet_refines ⟨key, Nat.le_of_lt_succ short⟩).2)
    simp only [api, current, shown]
    cases s.table.view key <;> rfl

theorem run_as_table (others : ShardApi Keyspace) (grows : env.growth.Granted) {call : Call} (fits : call.Fits) (now : Nat)
    {m : Table} (room : m.memFull = env.slot.isNone) (good : Good hash s) (same : m.map = s.shown) :
    Alike (fun m : Table => m.memFull = env.slot.isNone) Table.map (Good hash) shown (call.run Table.api now m)
      (call.run (api hash env others) now s) :=
  Table.describes.run_alike (describes others grows) fits now room good same

@[simp] theorem shardObjDestroy_stray (o : RawObj) (lastRef : Bool) : s.shardObjDestroy stray o lastRef = s := by
  simp [shardObjDestroy, shardObjFree, stray]

end Keyspace

namespace Shard.State

open Keyspace (stray)

variable {hash : Bytes → BitVec 64} {env : Env} {s : State} {key val : Bytes} {expire : Nat} {flags : PutFlags} {obj : RawObj}

def keys (s : State) : Keyspace := { table := s.table }

@[simp] theorem table_shardObjDestroy (o : Nat) : (s.shardObjDestroy env o).table = s.table := by
  simp only [shardObjDestroy, shardObjUnref, shardObjFree, memFree, writeLink]
  grind

theorem keys_get (now : Nat) : (s.shardKeyGet hash env key now).map keys id = s.keys.shardKeyGet hash stray key now true := by
  simp only [shardKeyGet, Keyspace.shardKeyGet, keys]
  rcases s.table.bucketGetLazy hash key now with ⟨t, v | o, v' | o'⟩ <;> simp [keys]

theorem keys_delete : (s.shardKeyDelete hash env key).map keys id = s.keys.shardKeyDelete hash stray key true := by
  simp only [shardKeyDelete, Keyspace.shardKeyDelete, keys]
  rcases s.table.bucketTake hash key with ⟨t, v | o⟩ <;> simp [keys]

def HasRoom (hash : Bytes → BitVec 64) (env : Env) (expire : Nat) (s : State) (obj : RawObj) : Prop :=
  (s.table.bucketPut hash obj expire .none env.growth).2 ≠ .full

theorem hasRoom (inv : HashTable.Inv hash s.table) (short : obj.Short) (grows : env.growth.Granted) :
    s.HasRoom hash env expire obj := by
  rw [HasRoom, (Keyspace.put_eq_view inv short expire grows).2.2]
  cases s.table.view obj.objKeyGet <;> simp

theorem keys_put (room : s.HasRoom hash env expire obj) : (s.shardBucketPut hash env obj expire).map keys id =
    s.keys.shardBucketPut hash stray obj expire { slot := env.slot, growth := env.growth } := by
  unfold HasRoom at room
  simp only [shardBucketPut, Keyspace.shardBucketPut, keys]
  generalize s.table.bucketPut hash obj expire .none env.growth = put at room
  obtain ⟨t, r⟩ := put
  cases r with
  | full => exact absurd rfl room
  | _ => rfl

theorem keys_set (room : ∀ slot ∈ env.slot, s.HasRoom hash env expire (.make slot key val)) :
    (s.shardKeySet hash env key val expire flags).map keys id =
      s.keys.shardKeySet hash stray key val expire flags { slot := env.slot, growth := env.growth } := by
  simp only [shardKeySet, Keyspace.shardKeySet, show s.keys.table = s.table from rfl]
  split_ifs with refused
  · rfl
  · cases given : env.slot with
    | none => rfl
    | some slot =>
      have put : _ = s.keys.shardBucketPut .. := keys_put (s := s.allocate slot key val) (room slot given)
      simp only [← given, ← put]
      rcases (s.allocate slot key val).shardBucketPut hash env (.make slot key val) expire with ⟨u, _ | ⟨_ | old⟩ | _ | _⟩ <;>
        simp [keys, destroyReplaced, pushExpire]

theorem keys_expire (room : ∀ obj ∈ s.table.bucketGet hash key 0, s.HasRoom hash env expire obj) :
    (s.shardKeyExpire hash env key expire).map keys id =
      s.keys.shardKeyExpire hash stray key expire { slot := env.slot, growth := env.growth } := by
  simp only [shardKeyExpire, Keyspace.shardKeyExpire, show s.keys.table = s.table from rfl]
  split_ifs
  · rfl
  · rfl
  · cases found : s.table.bucketGet hash key 0 with
    | none => rfl
    | some o =>
      simp only [← keys_put (room o found)]
      rfl

end Shard.State

namespace Engine

variable {i : ShardId} {e e' : Engine} {key : Bytes}

def stored (e : Engine) (b : Bucket) : Stored := { value := (e.objs b.obj).val, expire := b.expire, locked := b.locked }

def shown (i : ShardId) (e : Engine) (key : Bytes) : Option Stored := ((e.shards i).table key).map e.stored

structure Proper (e : Engine) (key : Bytes) (b : Bucket) : Prop where
  old : b.obj < e.nextObj
  key : (e.objs b.obj).key = key
  timed : b.expire ≠ noExpire

def Fresh (i : ShardId) (e : Engine) : Prop := ∀ key b, (e.shards i).table key = some b → e.Proper key b

def flagsOf : PutFlags → SetFlags
  | .none => .always
  | .nx => .nx
  | .xx => .xx

def api (i : ShardId) (others : ShardApi Engine) : ShardApi Engine :=
  { others with
    keyGet e key now := let (e', o) := e.shardKeyGet i key now; (e', o.map fun o => (e.objs o).val)
    keySet e key val expire flags := e.shardKeySet i key val expire (flagsOf flags)
    keyDelete e key := e.shardKeyDelete i key
    keyExpire e key time := e.shardKeyExpire i key time
    expireGet e key := (e.htExpireGet i key).getD noExpire }

@[simp] theorem table_setBucket (b : Option Bucket) :
    ((e.setBucket i key b).shards i).table = Function.update (e.shards i).table key b := by
  simp [setBucket, updShard]

def SameText (e e' : Engine) : Prop := ∀ o < e.nextObj, (e'.objs o).key = (e.objs o).key ∧ (e'.objs o).val = (e.objs o).val

theorem text_objDestroyOpt (old : Option ObjId) (o : ObjId) : ((e.objDestroyOpt old).objs o).key = (e.objs o).key ∧
    ((e.objDestroyOpt old).objs o).val = (e.objs o).val := by
  cases old with
  | none => exact ⟨rfl, rfl⟩
  | some obj => by_cases same : o = obj <;> simp [objDestroyOpt, objDestroy, setObj, same]

theorem Fresh.update (fresh : Fresh i e) {b : Option Bucket} {α : Type} (result : α)
    (table : (e'.shards i).table = Function.update (e.shards i).table key b) (next : e.nextObj ≤ e'.nextObj)
    (kept : SameText e e') (proper : ∀ b' ∈ b, e'.Proper key b') :
    Gives (Fresh i) (shown i) (e', result) result (Function.update (e.shown i) key (b.map e'.stored)) := by
  refine ⟨rfl, fun other b' found => ?_, funext fun other => ?_⟩
  · rw [table, Function.update_apply] at found
    split at found
    next same => exact same ▸ proper b' found
    · obtain ⟨old, keyed, timed⟩ := fresh other b' found
      exact ⟨Nat.lt_of_lt_of_le old next, (kept b'.obj old).1.trans keyed, timed⟩
  · by_cases same : other = key
    · simp [shown, table, same]
    · rw [Function.update_of_ne same, shown, table, Function.update_of_ne same]
      exact Option.map_congr fun b' found => by simp only [stored, (kept b'.obj (fresh other b' found).old).2]

theorem Fresh.same (fresh : Fresh i e) {α : Type} (result : α) {v : Option Stored} (shows : v = e.shown i key) :
    Gives (Fresh i) (shown i) (e, result) result (Function.update (e.shown i) key v) :=
  ⟨rfl, fresh, (Function.update_eq_self_iff.2 shows).symm⟩

theorem Fresh.destroyed (fresh : Fresh i e) {α : Type} (result : α) (obj : ObjId) : Gives (Fresh i) (shown i)
    ((e.htBucketDelete i key).objDestroy obj, result) result (Function.update (e.shown i) key none) := by
  have table : (((e.htBucketDelete i key).objDestroy obj).shards i).table = Function.update (e.shards i).table key none :=
    table_setBucket none
  exact fresh.update result table (Nat.le_refl _) (fun o _ => text_objDestroyOpt (some obj) o) (by simp)

theorem rest_objDestroyOpt (old : Option ObjId) :
    (e.objDestroyOpt old).shards = e.shards ∧ (e.objDestroyOpt old).nextObj = e.nextObj := by
  cases old <;> exact ⟨rfl, rfl⟩

theorem Fresh.entered (fresh : Fresh i e) (val : Bytes) {expire : Nat} (timed : expire ≠ noExpire) (old : Option ObjId) :
    Gives (Fresh i) (shown i) (((e.allocObj key val none).shardBucketPut i e.nextObj expire).objDestroyOpt old, true) true
      (Function.update (e.shown i) key (some { value := val, expire := expire })) := by
  let e' := ((e.allocObj key val none).shardBucketPut i e.nextObj expire).objDestroyOpt old
  obtain ⟨shards, next⟩ : e'.shards = _ ∧ e'.nextObj = e.nextObj + 1 := rest_objDestroyOpt old
  have text (o : ObjId) : (e'.objs o).key = ((e.allocObj key val none).objs o).key ∧
      (e'.objs o).val = ((e.allocObj key val none).objs o).val := text_objDestroyOpt _ o
  have new : (e'.objs e.nextObj).key = key ∧ (e'.objs e.nextObj).val = val := by simp [text, allocObj, setObj]
  have table : (e'.shards i).table = Function.update (e.shards i).table key (some ⟨e.nextObj, expire, false⟩) := by
    simp [shards, shardBucketPut, allocObj, setObj]
  have kept : SameText e e' := fun o below => by simp [text, allocObj, setObj, below.ne]
  have gives := fresh.update true table (by omega) kept (by rintro _ ⟨⟩; exact ⟨next ▸ Nat.lt_succ_self _, new.1, timed⟩)
  simpa [stored, new] using gives

theorem describes (others : ShardApi Engine) : Describes (api i others) (Fresh i) (shown i) false where
  get {e key} fresh _ now := by
    simp only [api, shardKeyGet]
    cases entry : (e.shards i).table key with
    | none =>
      have missing : e.shown i key = none := by rw [shown, entry]; rfl
      exact missing ▸ fresh.same none missing.symm
    | some b =>
      have there : e.shown i key = some (e.stored b) := by rw [shown, entry]; rfl
      have late : (e.stored b).stale now ∧ (e.stored b).locked = false ↔
          ¬(b.expire = 0 ∨ now = 0 ∨ now < b.expire ∨ b.locked = true) := by
        simp [stored, Stored.stale]
        tauto
      rw [there]
      by_cases lasts : b.expire = 0 ∨ now = 0 ∨ now < b.expire ∨ b.locked = true
      · have kept : lasting now (some (e.stored b)) = some (e.stored b) := by
          simpa [lasting, Option.filter, imp_iff_not_or] using mt late.1 (not_not.2 lasts)
        simp only [if_pos lasts, kept]
        exact fresh.same _ there.symm
      · have none : lasting now (some (e.stored b)) = none := by simp [lasting, Option.filter, late.2 lasts]
        simp only [if_neg lasts, none]
        exact fresh.destroyed _ b.obj
  set {e key val expire} fresh _ _ timed flags := by
    have rule : accepts false flags (e.shown i key) = true ↔ ¬((flagsOf flags = .nx ∧ (e.htBucketGet i key).isSome) ∨
        (flagsOf flags = .xx ∧ ¬(e.htBucketGet i key).isSome)) := by
      cases flags <;> cases entry : (e.shards i).table key <;> simp [accepts, flagsOf, htBucketGet, shown, entry]
    simp only [api, shardKeySet]
    by_cases refused : (flagsOf flags = .nx ∧ (e.htBucketGet i key).isSome) ∨
        (flagsOf flags = .xx ∧ ¬(e.htBucketGet i key).isSome)
    · rw [if_pos refused, Bool.eq_false_iff.2 (mt rule.1 (not_not.2 refused))]
      exact ⟨rfl, fresh, rfl⟩
    · simp only [if_neg refused, rule.2 refused, if_true]
      exact fresh.entered val timed _
  delete {e key} fresh _ := by
    simp only [api, shardKeyDelete, htBucketGet]
    cases entry : (e.shards i).table key with
    | none =>
      have missing : e.shown i key = none := by rw [shown, entry]; rfl
      rw [missing]
      exact fresh.same false missing.symm
    | some b =>
      have there : (e.shown i key).isSome = true := by rw [shown, entry]; rfl
      exact there ▸ fresh.destroyed true b.obj
  expire {e key time} fresh _ timed := by
    simp only [api, shardKeyExpire]
    cases entry : (e.shards i).table key with
    | none => exact gives_fixed fresh (by simp [shown, entry])
    | some b =>
      have there : e.shown i key = some (e.stored b) := by rw [shown, entry]; rfl
      obtain ⟨old, keyed, ever⟩ := fresh key b entry
      by_cases fixed : time = 0 ∧ b.expire = 0
      · simp only [if_pos fixed]
        exact gives_fixed fresh (by simpa [there] using .inr fixed)
      · have free : ¬(e.stored b).Fixed time := not_or.2 ⟨ever, fixed⟩
        simp only [if_neg fixed, there, Option.map_some, Stored.retimed_free free]
        let b' : Bucket := { b with expire := time, locked := false }
        have table : ((e.shardBucketPut i b.obj time).shards i).table = Function.update (e.shards i).table key (some b') := by
          rw [shardBucketPut, keyed, table_setBucket]
        have gives := fresh.update true table (Nat.le_refl _) (fun _ _ => ⟨rfl, rfl⟩) (by simpa [b'] using ⟨old, keyed, timed⟩)
        exact (decide_eq_true free) ▸ gives
  expireGet {e key} _ _ := by
    simp only [api, htExpireGet, shown]
    cases (e.shards i).table key <;> rfl

end Engine

end FreakV
