import FreakV.HashTable.Refinement
import FreakV.Lib.Chain

namespace FreakV.HashTable

structure Node where
  bucket : Bucket := {}
  next : Option Nat := none
deriving DecidableEq

end HashTable

open HashTable in
structure NamedTable where
  pri : Nat → Node
  -- ovf_pool
  ovf : Nat → Node
  cap : Nat
  oldCap : Nat
  used : Nat
  rehashIdx : Option Nat
  rehashDisabled : Bool
  ovfPoolCap : Nat
  ovfFree : Option Nat

namespace NamedTable

open HashTable

inductive Ref
  | pri (i : Nat)
  | ovf (n : Nat)
deriving DecidableEq

def link (p : NamedTable) (n : Nat) : Option Nat := (p.ovf n).next

def chain (p : NamedTable) (i : Nat) : List Nat := Linked.walk p.link p.ovfPoolCap (p.pri i).next

def freeList (p : NamedTable) : List Nat := Linked.walk p.link p.ovfPoolCap p.ovfFree

def counted (p : NamedTable) : HashTable :=
  { buckets := fun i => { pri := (p.pri i).bucket, next := (p.chain i).map fun n => (p.ovf n).bucket }
    cap := p.cap
    oldCap := p.oldCap
    used := p.used
    rehashIdx := p.rehashIdx
    rehashDisabled := p.rehashDisabled
    ovfPoolCap := p.ovfPoolCap
    ovfFree := p.freeList.length }

def setPri (p : NamedTable) (i : Nat) (node : Node) : NamedTable := { p with pri := Function.update p.pri i node }

def setOvf (p : NamedTable) (n : Nat) (node : Node) : NamedTable := { p with ovf := Function.update p.ovf n node }

def node (p : NamedTable) : Ref → Node
  | .pri i => p.pri i
  | .ovf n => p.ovf n

def setNode (p : NamedTable) (r : Ref) (node : Node) : NamedTable :=
  { p with
    pri := match r with
      | .pri i => Function.update p.pri i node
      | .ovf _ => p.pri
    ovf := match r with
      | .pri _ => p.ovf
      | .ovf n => Function.update p.ovf n node }

def setNext (p : NamedTable) (r : Ref) (next : Option Nat) : NamedTable := p.setNode r { p.node r with next := next }

def setBucket (p : NamedTable) (r : Ref) (b : Bucket) : NamedTable := p.setNode r { p.node r with bucket := b }

def refAt (p : NamedTable) (f : Nat × Nat) : Ref :=
  match f.2 with
  | 0 => .pri f.1
  | place + 1 => .ovf ((p.chain f.1).getD place 0)

def tail (p : NamedTable) (i : Nat) : Ref := p.refAt (i, (p.chain i).length)

def ovfBucketRelease (p : NamedTable) (n : Nat) : NamedTable :=
  { p.setOvf n { bucket := {}, next := p.ovfFree } with ovfFree := some n }

def bucketNodeUnlink (p : NamedTable) (f : Nat × Nat) : NamedTable :=
  let p := { p with used := p.used - 1 }
  match f.2 with
  | 0 =>
    match (p.pri f.1).next with
    | some s => (p.setPri f.1 (p.ovf s)).ovfBucketRelease s
    | none => p.setBucket (.pri f.1) {}
  | place + 1 =>
    let n := (p.chain f.1).getD place 0
    (p.setNext (p.refAt (f.1, place)) (p.ovf n).next).ovfBucketRelease n

def growPool (p : NamedTable) (newCap : Nat) : NamedTable :=
  { (List.range' p.ovfPoolCap (newCap - p.ovfPoolCap)).foldl ovfBucketRelease p with ovfPoolCap := newCap }

def popFree (p : NamedTable) (n : Nat) : NamedTable := { p with ovfFree := (p.ovf n).next }.setOvf n {}

section Api

variable (hash : Bytes → BitVec 64)

def lookupKey (p : NamedTable) (key : Bytes) : Option (Nat × Nat) := p.counted.lookupKey hash key

def bucketAt (p : NamedTable) (f : Nat × Nat) : Bucket := (p.node (p.refAt f)).bucket

def bucketTakeIfUnlocked (p : NamedTable) (key : Bytes) (expected : Nat) : NamedTable × Option RawObj × Bool :=
  match p.lookupKey hash key with
  | none => (p, none, false)
  | some f =>
    let b := p.bucketAt f
    if b.obj.map RawObj.addr ≠ some expected then (p, none, false)
    else if htMetaIsLocked b.word then (p, none, true)
    else (p.bucketNodeUnlink f, b.obj, false)

def evict (p : NamedTable) (victims : List RawObj) : NamedTable :=
  victims.foldl (fun p o => (p.bucketTakeIfUnlocked hash o.objKeyGet o.addr).1) p

/-- The growth of the pool: what its callback evicts, and whether it succeeds. -/
structure PoolGrowth where
  victims : List RawObj := []
  grows : Bool := true
deriving DecidableEq

def ovfBucketAlloc (p : NamedTable) (growth : PoolGrowth) : NamedTable × Option Nat :=
  match p.ovfFree with
  | some n => (p.popFree n, some n)
  | none =>
    let newCap := if p.ovfPoolCap = 0 then 16 else p.ovfPoolCap * 2
    let p := p.evict hash growth.victims
    if growth.grows then
      let p := p.growPool newCap
      match p.ovfFree with
      | some n => (p.popFree n, some n)
      | none => (p, none)
    else (p, none)

/-- `ht_chain_node_insert`. The end of the chain is found before the bucket is allocated. -/
def chainNodeInsert (p : NamedTable) (idx : Nat) (b : Bucket) (growth : PoolGrowth) : NamedTable × Bool :=
  if htMetaEmpty (p.pri idx).bucket.word then (p.setBucket (.pri idx) b, true)
  else
    let last := p.tail idx
    match p.ovfBucketAlloc hash growth with
    | (p, none) => (p, false)
    | (p, some n) => ((p.setOvf n { bucket := b, next := none }).setNext last (some n), true)

def rehashStart (p : NamedTable) (grows : Bool) : NamedTable :=
  let newCap := p.cap * 2 % 2 ^ 64
  if linearArenaGrow (committedBytes p.cap) (bucketBytes newCap) grows then
    { p with oldCap := p.cap, cap := newCap, rehashIdx := some 0 }
  else { p with rehashDisabled := true }

def relinkOverflow (p : NamedTable) (n : Nat) : NamedTable :=
  let idx := bucketIdx (p.ovf n).bucket.word p.cap
  if htMetaEmpty (p.pri idx).bucket.word then (p.setBucket (.pri idx) (p.ovf n).bucket).ovfBucketRelease n
  else p.setNext (p.tail idx) (some n)

def relinkChain : Nat → Option Nat → NamedTable → NamedTable
  | 0, _, p => p
  | _ + 1, none, p => p
  | fuel + 1, some n, p => relinkChain fuel (p.ovf n).next ((p.setNext (.ovf n) none).relinkOverflow n)

def movePrimary (p : NamedTable) (i newIdx : Nat) (growth : PoolGrowth) : NamedTable :=
  let b := (p.pri i).bucket
  let moved :=
    if htMetaEmpty (p.pri newIdx).bucket.word then p.setBucket (.pri newIdx) b
    else (p.chainNodeInsert hash newIdx b growth).1
  moved.setBucket (.pri i) {}

def rehashBucket (p : NamedTable) (i : Nat) (growth : PoolGrowth) : NamedTable :=
  let p := { p with rehashIdx := some (i + 1) }
  if htMetaEmpty (p.pri i).bucket.word then p
  else
    let chain := (p.pri i).next
    let p := p.setNext (.pri i) none
    let newIdx := bucketIdx (p.pri i).bucket.word p.cap
    let p := if newIdx = i then p else p.movePrimary hash i newIdx growth
    relinkChain p.ovfPoolCap chain p

def rehashBuckets (growth : Nat → PoolGrowth) : Nat → NamedTable → NamedTable
  | 0, p => p
  | steps + 1, p =>
    match p.rehashIdx with
    | none => p
    | some i => if i < p.oldCap then rehashBuckets growth steps (p.rehashBucket hash i (growth i)) else p

def rehashTick (p : NamedTable) (growth : Nat → PoolGrowth) : NamedTable :=
  let p := p.rehashBuckets hash growth htRehashStep
  match p.rehashIdx with
  | none => p
  | some i => if p.oldCap ≤ i then { p with oldCap := 0, rehashIdx := none } else p

structure PutGrowth where
  load : Bool := false
  tableGrows : Bool := true
  ticks : Nat → PoolGrowth := fun _ => {}
  insert : PoolGrowth := {}

def PutGrowth.grants (g : PutGrowth) : Growth :=
  { load := g.load, tableGrows := g.tableGrows, ticks := fun i => (g.ticks i).grows, insert := g.insert.grows }

def putPrepare (p : NamedTable) (g : PutGrowth) : NamedTable :=
  let p := if p.rehashIdx.isSome then p.rehashTick hash g.ticks else p
  if ¬p.rehashDisabled ∧ p.rehashIdx = none ∧ g.load then p.rehashStart g.tableGrows else p

def putInto (p : NamedTable) (obj : RawObj) (expire : Nat) (flags : PutFlags) (growth : PoolGrowth) :
    NamedTable × PutResult :=
  let key := obj.objKeyGet
  let found := p.lookupKey hash key
  if (flags = .nx ∧ found.isSome) ∨ (flags = .xx ∧ found.isNone) then (p, .refused)
  else
    let b : Bucket := { word := metaFor hash key, expire := expire, obj := some obj }
    match found with
    | some f => (p.setBucket (p.refAt f) b, .replaced (p.bucketAt f).obj)
    | none =>
      match p.chainNodeInsert hash (bucketIdx (metaFor hash key) p.cap) b growth with
      | (p, true) => ({ p with used := p.used + 1 }, .inserted)
      | (p, false) => (p, .full)

def bucketPut (p : NamedTable) (obj : RawObj) (expire : Nat) (flags : PutFlags) (g : PutGrowth) : NamedTable × PutResult :=
  (p.putPrepare hash g).putInto hash obj expire flags g.insert

def bucketGetLazy (p : NamedTable) (key : Bytes) (now : Nat) : NamedTable × Option RawObj × Option RawObj :=
  match p.lookupKey hash key with
  | none => (p, none, none)
  | some f =>
    let b := p.bucketAt f
    if b.expire = 0 ∨ now = 0 ∨ now < b.expire then (p, b.obj, none)
    else if htMetaIsLocked b.word then (p, b.obj, none)
    else (p.bucketNodeUnlink f, none, b.obj)

def bucketSetLockStatus (p : NamedTable) (key : Bytes) (locked : Bool) : NamedTable × Bool :=
  match p.lookupKey hash key with
  | none => (p, false)
  | some f =>
    let b := p.bucketAt f
    let word := if locked then htMetaLockSet b.word else htMetaLockClear b.word
    (p.setBucket (p.refAt f) { b with word := word }, true)

def bucketTake (p : NamedTable) (key : Bytes) : NamedTable × Option RawObj :=
  match p.lookupKey hash key with
  | none => (p, none)
  | some f => (p.bucketNodeUnlink f, (p.bucketAt f).obj)

end Api

def flushChain (p : NamedTable) (i : Nat) : NamedTable :=
  if htMetaEmpty (p.pri i).bucket.word then p else ((p.chain i).foldl ovfBucketRelease p).setPri i {}

def flushObjects (p : NamedTable) (i : Nat) : List RawObj :=
  if htMetaEmpty (p.pri i).bucket.word then []
  else ((p.pri i).bucket :: (p.chain i).map fun n => (p.ovf n).bucket).filterMap Bucket.obj

def flushRounds (p : NamedTable) : Nat := if p.oldCap ≠ 0 then p.oldCap + p.cap else p.cap

def tableFlush (p : NamedTable) : NamedTable × List RawObj :=
  let (p', freed) := (List.range p.flushRounds).foldl
    (fun (p, freed) i => (p.flushChain i, freed ++ p.flushObjects i)) (p, [])
  ({ p' with oldCap := 0, rehashIdx := if p.oldCap = 0 then p.rehashIdx else none, used := 0 }, freed)

def newTable (cap : Nat) : NamedTable :=
  { pri := fun _ => {}
    ovf := fun n => { next := if n + 1 < ovfBuckets cap then some (n + 1) else none }
    cap := cap
    oldCap := 0
    used := 0
    rehashIdx := none
    rehashDisabled := false
    ovfPoolCap := ovfBuckets cap
    ovfFree := some 0 }

def tableCreate (initialCap : BitVec 64) : Option NamedTable :=
  let cap := initialBuckets initialCap
  if linearArenaGrow 0 (bucketBytes cap) true then some (newTable cap) else none

end NamedTable

end FreakV
