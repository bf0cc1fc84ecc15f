import FreakV.Keyspace
import FreakV.Shard.Lru
import FreakV.Shard.TtlIndex

namespace FreakV.Shard

open HashTable

def nrSmallPools : Nat := 36

def lruPools : Nat := nrSmallPools + 1

def smallAllocMax : Nat := 65536

def lpageSize : Nat := 4096

def poolClasses : List Nat :=
  [8, 16, 32, 48, 64, 80, 112, 144, 192, 240, 304, 384, 480, 608, 768, 960, 1200, 1504, 1888, 2368, 2960, 3712, 4096, 5120,
    6400, 8000, 10000, 12512, 15648, 19568, 24464, 30592, 38240, 47808, 59760, 65536]

def poolIdxGet (size : Nat) : Nat := poolClasses.findIdx fun c => size ≤ c

structure State where
  table : HashTable
  lru : Lru
  ttl : TtlIndex
  obj : Nat → RawObj
  inUse : Nat → Bool

/-- What `mem_free` finds at an address: whether it is a block at all, and the free list that a slot is put in front of
(none for pages of their own). -/
structure Heap where
  acts : Nat → Bool
  freelist : Nat → Option Nat

structure MemView where
  usage : Nat
  limitBytes : Nat
  hasSpans : Nat → Bool
  lpagesPerSpan : Nat → Nat
  spanCheck : Nat → Bool

structure Env where
  heap : Heap
  lastRef : Nat → Bool := fun _ => true
  slot : Option MemSlot := none
  growth : Growth := { load := false }
  retry : Growth := { load := false }
  ttlGrows : Bool := true
  memory : Nat → MemView

-- What shard_key_expire does in the index.
def TtlIndex.reindex (idx : TtlIndex) (o expire : Nat) (grows : Bool) : TtlIndex :=
  if 0 < expire then
    match idx.heapIdx o with
    | none => (idx.nodePush o expire grows).1
    | some _ => idx.nodeUpdate o expire
  else
    match idx.heapIdx o with
    | none => idx
    | some _ => idx.nodeRemove o

namespace State

def create (table : HashTable) (obj : Nat → RawObj) (poolIdx : Nat → Nat) (inUse : Nat → Bool) : State :=
  { table := table, lru := .init poolIdx, ttl := .init, obj := obj, inUse := inUse }

-- struct free_obj has its link where an object has heap_idx and pool_idx.
def writeLink (s : State) (ptr link : Nat) : State :=
  let heapIdx := link % 2 ^ 32
  { s with
    ttl := { s.ttl with
      heapIdx := Function.update s.ttl.heapIdx ptr (if heapIdx = 2 ^ 32 - 1 then none else some heapIdx) }
    lru := { s.lru with poolIdx := Function.update s.lru.poolIdx ptr (link / 2 ^ 32 % 2 ^ 32) } }

def memFree (s : State) (heap : Heap) (ptr : Nat) : State :=
  if ptr = 0 ∨ heap.acts ptr = false then s
  else
    let s := { s with inUse := Function.update s.inUse ptr false }
    match heap.freelist ptr with
    | some link => s.writeLink ptr link
    | none => s

def shardObjFree (s : State) (heap : Heap) (o : Nat) : State :=
  let s := if (s.obj o).valLen = 0 then s.memFree heap (s.obj o).objValPtrGet else s
  { s with inUse := Function.update s.inUse o false }

def shardObjUnref (s : State) (env : Env) (o : Nat) : State :=
  if env.lastRef o then s.shardObjFree env.heap o else s

def shardObjDestroy (s : State) (env : Env) (o : Nat) : State :=
  let s := { s with lru := s.lru.nodeRemove o }
  let s := match s.ttl.heapIdx o with
    | some _ => { s with ttl := s.ttl.nodeRemove o }
    | none => s
  s.shardObjUnref env o

section Evict

variable (hash : Bytes → BitVec 64) (env : Env) (sizeReq : Nat)

def targetPidx : Nat := if sizeReq = 0 then nrSmallPools else if sizeReq ≤ smallAllocMax then poolIdxGet sizeReq else nrSmallPools

def buddyPagesNeeded (m : MemView) : Nat :=
  if sizeReq = 0 then 0
  else if sizeReq ≤ smallAllocMax then
    if m.hasSpans (targetPidx sizeReq) then 0 else m.lpagesPerSpan (targetPidx sizeReq)
  else (sizeReq + lpageSize - 1) % 2 ^ 64 / lpageSize % 2 ^ 32

def softOk (m : MemView) : Bool := m.limitBytes = 0 ∨ (m.usage + sizeReq) % 2 ^ 64 ≤ m.limitBytes

def hardOk (m : MemView) (pages : Nat) : Bool := pages = 0 ∨ m.spanCheck pages

def victim (s : State) : Option Nat :=
  (s.lru.lruTail (targetPidx sizeReq)).or ((List.range lruPools).reverse.findSome? s.lru.lruTail)

def evictOne (s : State) : Option (State × Bool) :=
  match s.victim sizeReq with
  | none => none
  | some victim =>
    match s.table.bucketTakeIfUnlocked hash (s.obj victim).objKeyGet victim with
    | (t, some taken, _) => some ({ s with table := t }.shardObjDestroy env taken.addr, true)
    | (t, none, true) => some ({ s with table := t, lru := s.lru.nodePrepend victim }, false)
    | (t, none, false) => some ({ s with table := t, lru := s.lru.nodeRemove victim }, false)

def evictPass : Nat → State → Bool → State × Bool
  | 0, s, evictedAny => (s, evictedAny)
  | turns + 1, s, evictedAny =>
    match s.evictOne hash env sizeReq with
    | none => (s, evictedAny)
    | some (s, taken) => evictPass turns s (evictedAny || taken)

def evictVerdict (s : State) (m : MemView) (pages : Nat) : Option Bool :=
  if sizeReq = 0 then some true
  else if softOk sizeReq m ∧ hardOk m pages then some true
  else if s.table.used = 0 then some false
  else none

def evictLoop : Nat → Nat → Nat → State → Option (State × Bool)
  | 0, _, _, _ => none
  | passes + 1, done, pages, s =>
    match s.evictPass hash env sizeReq 100 false with
    | (s, false) => some (s, false)
    | (s, true) =>
      let m := env.memory (done + 1)
      let pages := if sizeReq ≤ smallAllocMax ∧ m.hasSpans (targetPidx sizeReq) then 0 else pages
      match s.evictVerdict sizeReq m pages with
      | some ok => some (s, ok)
      | none => evictLoop passes (done + 1) pages s

def shardMemEvict (s : State) (passes : Nat) : Option (State × Bool) :=
  let m := env.memory 0
  let pages := buddyPagesNeeded sizeReq m
  if sizeReq ≠ 0 ∧ softOk sizeReq m ∧ hardOk m pages then some (s, true)
  else s.evictLoop hash env sizeReq passes 0 pages

end Evict

section Commands

variable (hash : Bytes → BitVec 64) (env : Env)

def shardBucketPut (s : State) (obj : RawObj) (expire : Nat) : State × PutResult :=
  match s.table.bucketPut hash obj expire .none env.growth with
  | (t, .full) =>
    match ({ s with table := t } : State).shardMemEvict hash env 0 1 with
    | some (s, true) =>
      let (t, r) := s.table.bucketPut hash obj expire .none env.retry
      ({ s with table := t }, r)
    | some (s, false) => (s, .full)
    | none => ({ s with table := t }, .full)
  | (t, r) => ({ s with table := t }, r)

-- The object that shard_key_set lays out in a new block.
def allocate (s : State) (slot : MemSlot) (key val : Bytes) : State :=
  let total := 48 + key.length + val.length + 1
  let o := slot.addr
  { s with
    obj := Function.update s.obj o (.make slot key val)
    inUse := Function.update s.inUse o true
    ttl := s.ttl.clearIdx o
    lru := s.lru.enrol o (if total ≤ smallAllocMax then poolIdxGet total else nrSmallPools) }

def destroyReplaced (s : State) : PutResult → State
  | .replaced (some old) => s.shardObjDestroy env old.addr
  | _ => s

def pushExpire (s : State) (o expire : Nat) : State :=
  { s with ttl := if 0 < expire then (s.ttl.nodePush o expire env.ttlGrows).1 else s.ttl }

def shardKeySet (s : State) (key val : Bytes) (expire : Nat) (flags : PutFlags) : State × Bool :=
  let present := (s.table.bucketGet hash key 0).isSome
  if (flags = .nx ∧ present) ∨ (flags = .xx ∧ ¬present) then (s, false)
  else
    match env.slot with
    | none => (s, false)
    | some slot =>
      let o := slot.addr
      match (s.allocate slot key val).shardBucketPut hash env (.make slot key val) expire with
      | (s, .full) => (s.shardObjDestroy env o, false)
      | (s, r) => ((({ s with lru := s.lru.nodePrepend o }).destroyReplaced env r).pushExpire env o expire, true)

def shardKeyGet (s : State) (key : Bytes) (now : Nat) : State × Option RawObj :=
  let (t, v, expired) := s.table.bucketGetLazy hash key now
  let s := { s with table := t }
  let s := match v with
    | some o => { s with lru := s.lru.nodeTouch o.addr }
    | none => s
  let s := match expired with
    | some o => s.shardObjDestroy env o.addr
    | none => s
  (s, v)

def shardKeyDelete (s : State) (key : Bytes) : State × Bool :=
  match s.table.bucketTake hash key with
  | (t, some o) => ({ s with table := t }.shardObjDestroy env o.addr, true)
  | (t, none) => ({ s with table := t }, false)

def shardKeyExpire (s : State) (key : Bytes) (expire : Nat) : State × Bool :=
  let current := s.table.expireGet hash key
  if current = 2 ^ 64 - 1 then (s, false)
  else if expire = 0 ∧ current = 0 then (s, false)
  else
    match s.table.bucketGet hash key 0 with
    | none => (s, false)
    | some o =>
      let (s, _) := s.shardBucketPut hash env o expire
      ({ s with ttl := s.ttl.reindex o.addr expire env.ttlGrows }, true)

-- One turn of the loop of shard_ttl_drain, and whether it removed a key; none where it breaks.
def drainOne (now : Nat) (s : State) : Option (State × Bool) :=
  if now < s.ttl.nodePeek then none
  else
    match s.ttl.nodePop with
    | (_, none) => none
    | (ttl, some (o, expire)) =>
      match s.table.bucketTakeIfUnlocked hash (s.obj o).objKeyGet o with
      | (t, _, true) => some ({ s with table := t, ttl := (ttl.nodePush o expire env.ttlGrows).1 }, false)
      | (t, some taken, false) => some (({ s with table := t, ttl := ttl } : State).shardObjDestroy env taken.addr, true)
      | (t, none, false) => some ({ s with table := t, ttl := ttl }, false)

def shardTtlDrain (now : Nat) : Nat → State → State × Nat
  | 0, s => (s, 0)
  | work + 1, s =>
    match s.drainOne hash env now with
    | none => (s, 0)
    | some (s, taken) =>
      let (s, expired) := shardTtlDrain now work s
      (s, expired + taken.toNat)

end Commands

end State

end FreakV.Shard
