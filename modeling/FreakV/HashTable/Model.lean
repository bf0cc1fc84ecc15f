import FreakV.Key

namespace FreakV

structure RawObj where
  addr : Nat
  keyLen : Nat
  valLen : Nat
  data : Bytes
deriving DecidableEq

def RawObj.objKeyGet (o : RawObj) : Bytes := o.data.take o.keyLen

def htMetaLockBit : BitVec 64 := 1 <<< 7

def htMetaLockSet (word : BitVec 64) : BitVec 64 := word ||| htMetaLockBit

def htMetaLockClear (word : BitVec 64) : BitVec 64 := word &&& ~~~htMetaLockBit

def htMetaIsLocked (word : BitVec 64) : Bool := word &&& htMetaLockBit != 0

def htMetaEmpty (word : BitVec 64) : Bool := word == 0

namespace HashTable

structure Bucket where
  word : BitVec 64 := 0
  expire : Nat := 0
  obj : Option RawObj := none
deriving DecidableEq

structure Chain where
  pri : Bucket := {}
  next : List Bucket := []
deriving DecidableEq

end HashTable

open HashTable in
/-- `struct hash_table`. Overflow buckets are counted, not named: the pool hands out any free one. -/
structure HashTable where
  buckets : Nat → Chain
  cap : Nat
  oldCap : Nat
  used : Nat
  -- -1 when no rehash is under way
  rehashIdx : Option Nat
  rehashDisabled : Bool
  ovfPoolCap : Nat
  ovfFree : Nat

namespace HashTable

/-- What one `ht_bucket_put` meets: the outcome of the load test, and whether the arenas can grow. The pool of overflow
buckets is asked for the primary buckets that a rehash moves, and for the new entry. -/
structure Growth where
  load : Bool := false
  tableGrows : Bool := true
  ticks : Nat → Bool := fun _ => true
  insert : Bool := true

structure Growth.Granted (g : Growth) : Prop where
  table : g.tableGrows = true
  ticks : ∀ i, g.ticks i = true
  insert : g.insert = true

theorem Growth.Granted.eq {g : Growth} (granted : g.Granted) : g = { load := g.load } := by
  obtain ⟨load, tableGrows, ticks, insert⟩ := g
  obtain ⟨rfl, every, rfl⟩ := granted
  rw [Growth.mk.injEq]
  exact ⟨rfl, rfl, funext every, rfl⟩

def pow2Next (n : BitVec 64) : BitVec 64 :=
  if n = 0 then 1
  else
    let n := n - 1
    let n := n ||| n >>> 1
    let n := n ||| n >>> 2
    let n := n ||| n >>> 4
    let n := n ||| n >>> 8
    let n := n ||| n >>> 16
    let n := n ||| n >>> 32
    n + 1

def htMinBuckets : BitVec 64 := 16

def htOvfRatio : Nat := 8

def htRehashStep : Nat := 64

-- sizeof(struct bucket) times a capacity, as a size_t
def bucketBytes (cap : Nat) : Nat := cap * 32 % 2 ^ 64

-- ARENA_LINEAR_RESERVE without the tail of ARENA_LINEAR_CTRL_RESERVE, half of it for the bucket array
def arenaHalf : Nat := (2 ^ 37 - 2 ^ 26) / 2

/-- `linear_arena_grow`; `grows` is what the memory limit, the barrier and the kernel answer. -/
def linearArenaGrow (committed bytes : Nat) (grows : Bool) : Bool :=
  decide (bytes ≤ committed) || decide (bytes ≤ arenaHalf) && grows

-- What linear_arena_grow has committed for the bucket array: whole huge pages.
def committedBytes (cap : Nat) : Nat := (bucketBytes cap + 2 ^ 21 - 1) / 2 ^ 21 * 2 ^ 21

def committedBuckets (t : HashTable) : Nat := committedBytes t.cap / 32

def initialBuckets (initialCap : BitVec 64) : Nat :=
  (pow2Next (if initialCap < htMinBuckets then htMinBuckets else initialCap)).toNat

def ovfBuckets (cap : Nat) : Nat := if cap / htOvfRatio % 2 ^ 32 < 16 then 16 else cap / htOvfRatio % 2 ^ 32

def newTable (cap : Nat) : HashTable :=
  { buckets := fun _ => {}, cap := cap, oldCap := 0, used := 0, rehashIdx := none, rehashDisabled := false,
    ovfPoolCap := ovfBuckets cap, ovfFree := ovfBuckets cap }

/-- `ht_table_create`, with a NULL only for an array that is larger than the arena. -/
def tableCreate (initialCap : BitVec 64) : Option HashTable :=
  let cap := initialBuckets initialCap
  if linearArenaGrow 0 (bucketBytes cap) true then some (newTable cap) else none

def ovfBucketAlloc (t : HashTable) (grows : Bool) : Option HashTable :=
  if t.ovfFree = 0 then
    if grows then
      let newCap := if t.ovfPoolCap = 0 then 16 else t.ovfPoolCap * 2
      some { t with ovfPoolCap := newCap, ovfFree := newCap - t.ovfPoolCap - 1 }
    else none
  else some { t with ovfFree := t.ovfFree - 1 }

def ovfBucketRelease (t : HashTable) : HashTable := { t with ovfFree := t.ovfFree + 1 }

def setChain (t : HashTable) (idx : Nat) (c : Chain) : HashTable :=
  { t with buckets := Function.update t.buckets idx c }

def bucketIdx (word : BitVec 64) (cap : Nat) : Nat := (word >>> 8).toNat &&& (cap - 1)

def Bucket.holds (b : Bucket) (word : BitVec 64) (key : Bytes) : Bool :=
  htMetaLockClear b.word == word &&
    match b.obj with
    | some o => o.keyLen == key.length % 2 ^ 16 && o.data.take key.length == key
    | none => false

def chainNodeFind (c : Chain) (word : BitVec 64) (key : Bytes) : Option Nat :=
  (c.pri :: c.next).findIdx? fun b => b.holds word key

def chainNodeInsert (t : HashTable) (idx : Nat) (b : Bucket) (grows : Bool) : Option HashTable :=
  let c := t.buckets idx
  if htMetaEmpty c.pri.word then some (t.setChain idx { c with pri := b })
  else (t.ovfBucketAlloc grows).map fun t => t.setChain idx { c with next := c.next ++ [b] }

def rehashStart (t : HashTable) (grows : Bool) : HashTable :=
  let newCap := t.cap * 2 % 2 ^ 64
  if linearArenaGrow (committedBytes t.cap) (bucketBytes newCap) grows then
    { t with oldCap := t.cap, cap := newCap, rehashIdx := some 0 }
  else { t with rehashDisabled := true }

def relinkOverflow (t : HashTable) (b : Bucket) : HashTable :=
  let idx := bucketIdx b.word t.cap
  let dst := t.buckets idx
  if htMetaEmpty dst.pri.word then (t.setChain idx { dst with pri := b }).ovfBucketRelease
  else t.setChain idx { dst with next := dst.next ++ [b] }

def movePrimary (t : HashTable) (i newIdx : Nat) (b : Bucket) (grows : Bool) : HashTable :=
  let moved :=
    if htMetaEmpty (t.buckets newIdx).pri.word then t.setChain newIdx { t.buckets newIdx with pri := b }
    else (t.chainNodeInsert newIdx b grows).getD t
  moved.setChain i { moved.buckets i with pri := {} }

def rehashBucket (t : HashTable) (i : Nat) (grows : Bool) : HashTable :=
  let t := { t with rehashIdx := some (i + 1) }
  let pri := (t.buckets i).pri
  if htMetaEmpty pri.word then t
  else
    let chain := (t.buckets i).next
    let t := t.setChain i { t.buckets i with next := [] }
    let newIdx := bucketIdx pri.word t.cap
    let t := if newIdx = i then t else t.movePrimary i newIdx pri grows
    chain.foldl relinkOverflow t

def rehashBuckets (grows : Nat → Bool) : Nat → HashTable → HashTable
  | 0, t => t
  | steps + 1, t =>
    match t.rehashIdx with
    | none => t
    | some i => if i < t.oldCap then rehashBuckets grows steps (t.rehashBucket i (grows i)) else t

def rehashTick (t : HashTable) (grows : Nat → Bool) : HashTable :=
  let t := rehashBuckets grows htRehashStep t
  match t.rehashIdx with
  | none => t
  | some i => if t.oldCap ≤ i then { t with oldCap := 0, rehashIdx := none } else t

def keyLookup (t : HashTable) (word : BitVec 64) (key : Bytes) : Option (Nat × Nat) :=
  let find (idx : Nat) := (chainNodeFind (t.buckets idx) word key).map fun place => (idx, place)
  let newIdx := bucketIdx word t.cap
  match t.rehashIdx with
  | none => find newIdx
  | some i =>
    let oldIdx := bucketIdx word t.oldCap
    if oldIdx < i then find newIdx
    else match find oldIdx with
      | some f => some f
      | none => find newIdx

def bucketAt (t : HashTable) (f : Nat × Nat) : Bucket :=
  ((t.buckets f.1).pri :: (t.buckets f.1).next).getD f.2 {}

def setBucketAt (t : HashTable) (f : Nat × Nat) (b : Bucket) : HashTable :=
  let c := t.buckets f.1
  match f.2 with
  | 0 => t.setChain f.1 { c with pri := b }
  | place + 1 => t.setChain f.1 { c with next := c.next.set place b }

def bucketNodeUnlink (t : HashTable) (f : Nat × Nat) : HashTable :=
  let t := { t with used := t.used - 1 }
  let c := t.buckets f.1
  match f.2 with
  | 0 =>
    match c.next with
    | s :: rest => (t.setChain f.1 { pri := s, next := rest }).ovfBucketRelease
    | [] => t.setChain f.1 { c with pri := {} }
  | place + 1 => (t.setChain f.1 { c with next := c.next.eraseIdx place }).ovfBucketRelease

inductive PutFlags
  | none
  | nx
  | xx
deriving DecidableEq

inductive PutResult
  | inserted
  | replaced (old : Option RawObj)
  | refused
  | full
deriving DecidableEq

section Api

variable (hash : Bytes → BitVec 64)

def metaFor (key : Bytes) : BitVec 64 := htMetaPack (hash key) valTypeString

def lookupKey (t : HashTable) (key : Bytes) : Option (Nat × Nat) := t.keyLookup (metaFor hash key) key

-- The rehash work that ht_bucket_put does first.
def putPrepare (t : HashTable) (g : Growth) : HashTable :=
  let t := if t.rehashIdx.isSome then t.rehashTick g.ticks else t
  if ¬t.rehashDisabled ∧ t.rehashIdx = none ∧ g.load then t.rehashStart g.tableGrows else t

def putInto (t : HashTable) (obj : RawObj) (expire : Nat) (flags : PutFlags) (grows : Bool) : HashTable × PutResult :=
  let key := obj.objKeyGet
  let found := t.lookupKey hash key
  if (flags = .nx ∧ found.isSome) ∨ (flags = .xx ∧ found.isNone) then (t, .refused)
  else
    let b : Bucket := { word := metaFor hash key, expire := expire, obj := some obj }
    match found with
    | some f => (t.setBucketAt f b, .replaced (t.bucketAt f).obj)
    | none =>
      match t.chainNodeInsert (bucketIdx (metaFor hash key) t.cap) b grows with
      | some t => ({ t with used := t.used + 1 }, .inserted)
      | none => (t, .full)

def bucketPut (t : HashTable) (obj : RawObj) (expire : Nat) (flags : PutFlags) (g : Growth) : HashTable × PutResult :=
  (t.putPrepare g).putInto hash obj expire flags g.insert

def bucketGet (t : HashTable) (key : Bytes) (now : Nat) : Option RawObj :=
  match t.lookupKey hash key with
  | none => none
  | some f =>
    let b := t.bucketAt f
    if b.expire ≠ 0 ∧ now ≠ 0 ∧ b.expire ≤ now then none else b.obj

def bucketGetLazy (t : HashTable) (key : Bytes) (now : Nat) : HashTable × Option RawObj × Option RawObj :=
  match t.lookupKey hash key with
  | none => (t, none, none)
  | some f =>
    let b := t.bucketAt f
    if b.expire = 0 ∨ now = 0 ∨ now < b.expire then (t, b.obj, none)
    else if htMetaIsLocked b.word then (t, b.obj, none)
    else (t.bucketNodeUnlink f, none, b.obj)

def bucketSetLockStatus (t : HashTable) (key : Bytes) (locked : Bool) : HashTable × Bool :=
  match t.lookupKey hash key with
  | none => (t, false)
  | some f =>
    let b := t.bucketAt f
    (t.setBucketAt f { b with word := if locked then htMetaLockSet b.word else htMetaLockClear b.word }, true)

def bucketIsLocked (t : HashTable) (key : Bytes) : Bool :=
  match t.lookupKey hash key with
  | none => false
  | some f => htMetaIsLocked (t.bucketAt f).word

def bucketTake (t : HashTable) (key : Bytes) : HashTable × Option RawObj :=
  match t.lookupKey hash key with
  | none => (t, none)
  | some f => (t.bucketNodeUnlink f, (t.bucketAt f).obj)

-- The object, and `locked_out`.
def bucketTakeIfUnlocked (t : HashTable) (key : Bytes) (expected : Nat) : HashTable × Option RawObj × Bool :=
  match t.lookupKey hash key with
  | none => (t, none, false)
  | some f =>
    let b := t.bucketAt f
    if b.obj.map RawObj.addr ≠ some expected then (t, none, false)
    else if htMetaIsLocked b.word then (t, none, true)
    else (t.bucketNodeUnlink f, b.obj, false)

def bucketDelete (t : HashTable) (key : Bytes) : HashTable × Bool :=
  match t.lookupKey hash key with
  | none => (t, false)
  | some f => (t.bucketNodeUnlink f, true)

def expireGet (t : HashTable) (key : Bytes) : Nat :=
  match t.lookupKey hash key with
  | none => 2 ^ 64 - 1
  | some f => (t.bucketAt f).expire

end Api

end HashTable

end FreakV
