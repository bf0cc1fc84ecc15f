import FreakV.Engine

namespace FreakV.Engine

def objRef (e : Engine) (obj : ObjId) : Engine :=
  e.setObj obj { e.objs obj with refcount := (e.objs obj).refcount + 1 }

def objUnref (e : Engine) (obj : ObjId) : Engine :=
  e.setObj obj { e.objs obj with refcount := (e.objs obj).refcount - 1 }

def objDestroy (e : Engine) (obj : ObjId) : Engine :=
  e.setObj obj { e.objs obj with markedDeletion := true, refcount := (e.objs obj).refcount - 1 }

def objDestroyOpt (e : Engine) : Option ObjId → Engine
  | none => e
  | some obj => e.objDestroy obj

def allocObj (e : Engine) (key val : Bytes) (writer : Option StatId) : Engine :=
  { e.setObj e.nextObj { key := key, val := val, refcount := 1, writer := writer } with
    nextObj := e.nextObj + 1 }

def htBucketGet (e : Engine) (s : ShardId) (key : Bytes) : Option ObjId :=
  ((e.shards s).table key).map Bucket.obj

-- ht_bucket_put writes the packed meta word anew, so the bucket comes out unlocked.
def shardBucketPut (e : Engine) (s : ShardId) (obj : ObjId) (expire : Nat) : Engine :=
  e.setBucket s (e.objs obj).key (some { obj := obj, expire := expire, locked := false })

def htBucketDelete (e : Engine) (s : ShardId) (key : Bytes) : Engine := e.setBucket s key none

def htBucketSetLockStatus (e : Engine) (s : ShardId) (key : Bytes) (locked : Bool) : Engine :=
  match (e.shards s).table key with
  | none => e
  | some b => e.setBucket s key (some { b with locked := locked })

def htExpireGet (e : Engine) (s : ShardId) (key : Bytes) : Option Nat :=
  ((e.shards s).table key).map Bucket.expire

def shardKeyGet (e : Engine) (s : ShardId) (key : Bytes) (now : Nat) : Engine × Option ObjId :=
  match (e.shards s).table key with
  | none => (e, none)
  | some b =>
    -- ht_bucket_get_lazy keeps an expired key that an MSET has locked
    if b.expire = 0 ∨ now = 0 ∨ now < b.expire ∨ b.locked then (e, some b.obj)
    else ((e.htBucketDelete s key).objDestroy b.obj, none)

def shardKeySet (e : Engine) (s : ShardId) (key val : Bytes) (expire : Nat) (flags : SetFlags) :
    Engine × Bool :=
  let present := (e.htBucketGet s key).isSome
  if (flags = .nx ∧ present) ∨ (flags = .xx ∧ ¬present) then (e, false)
  else
    let old := e.htBucketGet s key
    (((e.allocObj key val none).shardBucketPut s e.nextObj expire).objDestroyOpt old, true)

def shardKeyDelete (e : Engine) (s : ShardId) (key : Bytes) : Engine × Bool :=
  match e.htBucketGet s key with
  | none => (e, false)
  | some obj => ((e.htBucketDelete s key).objDestroy obj, true)

def shardKeyExpire (e : Engine) (s : ShardId) (key : Bytes) (expire : Nat) : Engine × Bool :=
  match (e.shards s).table key with
  | none => (e, false)
  | some b =>
    -- PERSIST on a key without a TTL answers 0
    if expire = 0 ∧ b.expire = 0 then (e, false)
    else (e.shardBucketPut s b.obj expire, true)

def shardKeyTtl (e : Engine) (s : ShardId) (key : Bytes) (now : Nat) (ms : Bool) : Int :=
  match e.htExpireGet s key with
  | none => -2
  | some expire =>
    if expire = 0 then -1
    else if expire ≤ now then 0
    else if ms then ((expire - now : Nat) : Int) else (((expire - now + 999) / 1000 : Nat) : Int)

def setExpire (e : Engine) (s : ShardId) (key : Bytes) (now : Nat) : SetTtl → Nat
  | .none => 0
  | .span ms => if 0 < ms then now + ms else 0
  | .keep => (e.htExpireGet s key).getD 0

def boolReply (b : Bool) : Reply := .int (if b then 1 else 0)

def proxySwitch (e : Engine) (s : ShardId) (m : RegularReq) (now : Nat) :
    Engine × Reply × Option ObjId :=
  match m.op with
  | .get | .mgetPart =>
    match e.shardKeyGet s m.key now with
    | (e, some obj) => (e.objRef obj, .kvObj obj, some obj)
    | (e, none) => (e, .nil, none)
  | .exists =>
    match e.shardKeyGet s m.key now with
    | (e, obj) => (e, boolReply obj.isSome, obj)
  | .strlen =>
    match e.shardKeyGet s m.key now with
    | (e, some obj) => (e, .int (e.objs obj).val.length, some obj)
    | (e, none) => (e, .int 0, none)
  | .type =>
    match e.shardKeyGet s m.key now with
    | (e, obj) => (e, .buf (if obj.isSome then "+string\r\n" else "+none\r\n"), obj)
  | .ttl ms => (e, .int (e.shardKeyTtl s m.key now ms), none)
  | .set val flags ttl =>
    match e.shardKeySet s m.key val (e.setExpire s m.key now ttl) flags with
    | (e, true) => (e, .ok, none)
    | (e, false) => (e, .nil, none)
  | .expireIn ms =>
    match e.shardKeyExpire s m.key (if 0 < ms then now + ms.toNat else 1) with
    | (e, done) => (e, boolReply done, none)
  | .expireAt ms =>
    match e.shardKeyExpire s m.key ms with
    | (e, done) => (e, boolReply done, none)
  | .persist =>
    match e.shardKeyExpire s m.key 0 with
    | (e, done) => (e, boolReply done, none)
  | .delPart =>
    match e.shardKeyDelete s m.key with
    | (e, deleted) => (e, .buf (if deleted then ":1\r\n" else ":0\r\n"), none)

def proxyRun (e : Engine) (s : ShardId) (m : RegularReq) (now : Nat) : Engine × Reply :=
  match e.proxySwitch s m now with
  | (e, reply, read) => (e.record (.exec m.rid m.op m.key m.origin m.arrival read), reply)

end FreakV.Engine
