import FreakV.Snapshot.Memory
import FreakV.Lib.Transition

namespace FreakV.Snapshot

inductive SnapFlag
  | liveFresh
  | deadSafe
  | deadPending
  | liveVisited
deriving DecidableEq

structure KvObj where
  keyLen : Nat := 0
  valLen : Nat := 0
  data : Bytes := []
  expireMs : Nat := 0
  snapFlag : SnapFlag := .liveFresh
  refcount : Nat := 0
deriving DecidableEq

namespace KvObj

def key (o : KvObj) : Bytes := o.data.take o.keyLen

def value (o : KvObj) : Bytes := (o.data.drop o.keyLen).take o.valLen

def make (key value : Bytes) (expireMs : Nat) : KvObj :=
  { keyLen := key.length % 2 ^ 16, valLen := value.length % 2 ^ 32, data := key ++ value, expireMs := expireMs,
    snapFlag := .liveFresh, refcount := 2 }

/-- What the serializer writes of an object. One that died after the tick is written as it was. -/
def entry (o : KvObj) (slot : Nat) : Entry :=
  if o.snapFlag = .deadSafe then
    { slotIndex := slot, key := [], value := [], expireMs := o.expireMs, deleted := true }
  else { slotIndex := slot, key := o.key, value := o.value, expireMs := o.expireMs, deleted := false }

def visited (o : KvObj) : KvObj :=
  match o.snapFlag with
  | .liveFresh => { o with snapFlag := .liveVisited }
  | .deadPending => { o with snapFlag := .deadSafe }
  | .liveVisited => o
  | .deadSafe => { o with refcount := o.refcount - 1 }

end KvObj

-- The size that is asked of mem_malloc.
def totalSize (keyLen valLen : Nat) : Nat := 48 + keyLen + valLen + 1

structure PageWriter where
  lpage : Nat
  slots : List (Nat × Nat)
  entries : List Entry := []
deriving DecidableEq

structure Writer where
  nrPages : Nat
  word : Nat := 0
  pages : List Nat := []
  page : Option PageWriter := none
  records : List PageRecord := []
deriving DecidableEq

/-- A shard: its pages, the objects at their addresses, the two pairs of bitmaps, and the table. A freed object keeps
its bytes; `used` tells which addresses are allocated. -/
structure Shard where
  pages : Nat → PageInfo
  nrPages : Nat
  obj : Nat → KvObj
  used : Nat → Bool
  dirtyBits : Nat → Bool
  slotBits : Nat → Nat → Bool
  snapDirtyBits : Nat → Bool
  snapSlotBits : Nat → Nat → Bool
  isSnapshotting : Bool
  writer : Option Writer
  currentEpoch : Nat
  table : Bytes → Option Nat

namespace Shard

-- mem_data_grow starts with one huge page.
def empty : Shard :=
  { pages := fun _ => {}, nrPages := 512, obj := fun _ => {}, used := fun _ => false, dirtyBits := fun _ => false,
    slotBits := fun _ _ => false, snapDirtyBits := fun _ => false, snapSlotBits := fun _ _ => false,
    isSnapshotting := false, writer := none, currentEpoch := 0, table := fun _ => none }

section Allocator

def setPages (s : Shard) (head n : Nat) (info : Nat → PageInfo) : Shard :=
  { s with pages := fun l => if head ≤ l ∧ l < head + n then info (l - head) else s.pages l }

def FreePages (s : Shard) (head n : Nat) : Prop := ∀ i < n, s.pages (head + i) = {} ∧ head + i < s.nrPages

instance (s : Shard) (head n : Nat) : Decidable (s.FreePages head n) := Nat.decidableBallLT _ _

def poolSpanInit (s : Shard) (span : SpanInfo) : Option Shard :=
  let n := poolLpagesCalculate span.objSize
  if span.objSize ∈ poolClasses ∧ s.FreePages span.headLpage n then
    some (s.setPages span.headLpage n fun i => { span := some span, spanSize := n, offsetInSpan := i % 2 ^ 16 })
  else none

def poolSpanReclaim (s : Shard) (span : SpanInfo) : Option Shard :=
  if (s.pages span.headLpage).span = some span ∧ ∀ i < objsPerSpan span.objSize, s.used (spanAddr span i) = false then
    some (s.setPages span.headLpage (poolLpagesCalculate span.objSize) fun _ => {})
  else none

inductive Place
  | slot (span : SpanInfo) (i : Nat)
  | pages (head : Nat)
deriving DecidableEq

def Place.addr : Place → Nat
  | .slot span i => spanAddr span i
  | .pages head => head * lpageSize

def memMalloc (s : Shard) (size : Nat) (place : Place) : Option Shard :=
  match place with
  | .slot span i =>
    if size ≤ smallAllocMax ∧ poolClass size = some span.objSize ∧ (s.pages span.headLpage).span = some span ∧
        i < objsPerSpan span.objSize ∧ s.used (spanAddr span i) = false then
      some { s with used := Function.update s.used (spanAddr span i) true }
    else none
  | .pages head =>
    let n := (size + lpageSize - 1) / lpageSize
    if smallAllocMax < size ∧ s.FreePages head n then
      some { s.setPages head n (fun i => { spanSize := n, offsetInSpan := i % 2 ^ 16 }) with
        used := Function.update s.used (head * lpageSize) true }
    else none

def memFree (s : Shard) (ptr : Nat) : Option Shard :=
  if s.used ptr ∧ (s.obj ptr).refcount = 0 then
    let lpage := ptrLpageIdx ptr
    let page := s.pages lpage
    let s := { s with used := Function.update s.used ptr false }
    some (if page.span = none then s.setPages lpage page.spanSize fun _ => {} else s)
  else none

end Allocator

section Marking

-- modified_bit_set
def setSlotBit (s : Shard) (lpage slot : Nat) : Shard :=
  if slot < snapModifiedSize * 8 then
    { s with slotBits := fun l k => if l = lpage ∧ k = slot then true else s.slotBits l k }
  else s

def setDirtyBit (s : Shard) (lpage : Nat) : Shard := { s with dirtyBits := Function.update s.dirtyBits lpage true }

def snapObjMark (s : Shard) (ptr objSize : Nat) : Shard :=
  let lpage := ptr / lpageSize
  if s.nrPages ≤ lpage then s
  else if objSize = 0 then
    let head := lpage - (s.pages lpage).offsetInSpan
    (s.setDirtyBit head).setSlotBit head 0
  else
    match ptrToPageSlot s.pages ptr objSize with
    | some slot => (s.setDirtyBit lpage).setSlotBit lpage slot
    | none => s.setDirtyBit lpage

def snapWillVisit (s : Shard) (ptr objSize : Nat) : Bool :=
  let lpage := ptrLpageIdx ptr
  let slot := if 0 < objSize then ptrToPageSlot s.pages ptr objSize else some 0
  s.isSnapshotting && decide (lpage < s.nrPages) && s.snapDirtyBits lpage &&
    slot.any fun k => decide (k < snapModifiedSize * 8) && s.snapSlotBits lpage k

def putObj (s : Shard) (ptr : Nat) (o : KvObj) : Shard := { s with obj := Function.update s.obj ptr o }

def shardObjDestroy (s : Shard) (ptr : Nat) : Shard :=
  let o := s.obj ptr
  let objSize := markSize (totalSize o.keyLen o.valLen)
  let s := s.snapObjMark ptr objSize
  let flag := if s.snapWillVisit ptr objSize ∧ o.snapFlag = .liveFresh then .deadPending else .deadSafe
  s.putObj ptr { o with snapFlag := flag, refcount := o.refcount - 1 }

-- shard_bucket_put with room in the table, and ht_bucket_take
def link (s : Shard) (key : Bytes) (ptr : Option Nat) : Shard := { s with table := Function.update s.table key ptr }

def shardKeySet (s : Shard) (key value : Bytes) (expireMs : Nat) (place : Place) : Option Shard :=
  let total := totalSize key.length value.length
  (s.memMalloc total place).map fun s =>
    let ptr := place.addr
    let o := KvObj.make key value expireMs
    let s := (s.putObj ptr o).snapObjMark ptr (markSize total)
    match s.table o.key with
    | some old => (s.link o.key (some ptr)).shardObjDestroy old
    | none => s.link o.key (some ptr)

def shardKeyDelete (s : Shard) (key : Bytes) : Shard :=
  match s.table key with
  | some ptr => (s.link key none).shardObjDestroy ptr
  | none => s

end Marking

section Serialize

/-- `snap_engine_tick` when the interval has elapsed: the bitmaps change roles. -/
def snapEngineTick (s : Shard) : Option Shard :=
  if s.isSnapshotting then none
  else
    some { s with
      isSnapshotting := true
      currentEpoch := s.currentEpoch + 1
      dirtyBits := s.snapDirtyBits
      slotBits := s.snapSlotBits
      snapDirtyBits := s.dirtyBits
      snapSlotBits := s.slotBits }

def dirtySlots (s : Shard) (lpage : Nat) : Option (List (Nat × Nat)) :=
  match slotsInPage (s.pages lpage) with
  | some (objSize, firstOff, slots) =>
    if slots = 0 then none
    else
      some (((List.range (min slots (snapModifiedSize * 8))).filter fun k => s.snapSlotBits lpage k).map fun k =>
        (k, lpage * lpageSize + (firstOff + k * objSize)))
  | none => none

def takeWord (s : Shard) (w : Writer) : Shard :=
  { s with
    snapDirtyBits := fun l => if l / 64 = w.word then false else s.snapDirtyBits l
    writer := some { w with
      word := w.word + 1
      pages := ((List.range 64).map (w.word * 64 + ·)).filter s.snapDirtyBits } }

def startPage (s : Shard) (w : Writer) (lpage : Nat) (rest : List Nat) : Shard :=
  if w.nrPages ≤ lpage then { s with writer := some { w with pages := [] } }
  else
    { s with
      writer := some { w with
        pages := rest
        page := (s.dirtySlots lpage).map fun slots => { lpage := lpage, slots := slots } } }

def writeSlot (s : Shard) (w : Writer) (p : PageWriter) (slot ptr : Nat) (rest : List (Nat × Nat)) : Shard :=
  { s with
    obj := Function.update s.obj ptr (s.obj ptr).visited
    writer := some { w with page := some { p with slots := rest, entries := p.entries ++ [(s.obj ptr).entry slot] } } }

def finishPage (s : Shard) (w : Writer) (p : PageWriter) : Shard :=
  { s with
    snapSlotBits := fun l k => if l = p.lpage then false else s.snapSlotBits l k
    writer := some { w with
      page := none
      records := if p.entries = [] then w.records else w.records ++ [{ lpageIdx := p.lpage, entries := p.entries }] } }

def snapSerializeEpoch (s : Shard) : Option (Shard × Option (List PageRecord)) :=
  if s.isSnapshotting then
    match s.writer with
    | none => some ({ s with writer := some { nrPages := s.nrPages } }, none)
    | some w =>
      match w.page, w.pages with
      | some p, _ =>
        match p.slots with
        | (slot, ptr) :: rest => some (s.writeSlot w p slot ptr rest, none)
        | [] => some (s.finishPage w p, none)
      | none, lpage :: rest => some (s.startPage w lpage rest, none)
      | none, [] =>
        if w.word < (w.nrPages + 63) / 64 then some (s.takeWord w, none)
        else some ({ s with isSnapshotting := false, writer := none }, some w.records)
  else none

inductive Serializes (s : Shard) : Shard → Option (List PageRecord) → Prop
  | start (writer : s.writer = none) : Serializes s { s with writer := some { nrPages := s.nrPages } } none
  | writeSlot {w : Writer} {p : PageWriter} {slot ptr : Nat} {rest : List (Nat × Nat)} (writer : s.writer = some w)
      (page : w.page = some p) (slots : p.slots = (slot, ptr) :: rest) : Serializes s (s.writeSlot w p slot ptr rest) none
  | finishPage {w : Writer} {p : PageWriter} (writer : s.writer = some w) (page : w.page = some p) (slots : p.slots = []) :
      Serializes s (s.finishPage w p) none
  | startPage {w : Writer} {lpage : Nat} {rest : List Nat} (writer : s.writer = some w) (page : w.page = none)
      (pages : w.pages = lpage :: rest) : Serializes s (s.startPage w lpage rest) none
  | takeWord {w : Writer} (writer : s.writer = some w) (page : w.page = none) (pages : w.pages = [])
      (more : w.word < (w.nrPages + 63) / 64) : Serializes s (s.takeWord w) none
  | finish {w : Writer} (writer : s.writer = some w) (page : w.page = none) (pages : w.pages = [])
      (last : ¬w.word < (w.nrPages + 63) / 64) :
      Serializes s { s with isSnapshotting := false, writer := none } (some w.records)

theorem serializes_iff {s s' : Shard} {file : Option (List PageRecord)} :
    s.snapSerializeEpoch = some (s', file) ↔ s.isSnapshotting = true ∧ s.Serializes s' file := by
  constructor
  · intro done
    unfold snapSerializeEpoch at done
    split at done
    next on =>
      refine ⟨on, ?_⟩
      split at done
      next writer => cases done; exact .start writer
      next w writer =>
        split at done
        next p page =>
          split at done
          next slots => cases done; exact .writeSlot writer page slots
          next slots => cases done; exact .finishPage writer page slots
        next page pages => cases done; exact .startPage writer page pages
        next page pages =>
          split at done
          next more => cases done; exact .takeWord writer page pages more
          next last => cases done; exact .finish writer page pages last
    · cases done
  · rintro ⟨on, does⟩
    unfold snapSerializeEpoch
    cases does <;> simp [*]

end Serialize

section Steps

/-- What happens to a shard. The commands and the ticks are the shard's own thread, `serialize` is a step of the
thread that writes the snapshot. -/
inductive Op
  | grow (more : Nat)
  | newSpan (span : SpanInfo)
  | reclaimSpan (span : SpanInfo)
  | set (key value : Bytes) (expireMs : Nat) (place : Place)
  | del (key : Bytes)
  | free (ptr : Nat)
  | tick
  | serialize
deriving DecidableEq

def step (s : Shard) : Op → Option (Shard × Option (List PageRecord))
  | .grow more => some ({ s with nrPages := s.nrPages + more }, none)
  | .newSpan span => (s.poolSpanInit span).map (·, none)
  | .reclaimSpan span => (s.poolSpanReclaim span).map (·, none)
  | .set key value expireMs place => (s.shardKeySet key value expireMs place).map (·, none)
  | .del key => some (s.shardKeyDelete key, none)
  | .free ptr => (s.memFree ptr).map (·, none)
  | .tick => s.snapEngineTick.map (·, none)
  | .serialize => s.snapSerializeEpoch

inductive Stepped (s : Shard) : Op → Shard → Option (List PageRecord) → Prop
  | grow (more : Nat) : Stepped s (.grow more) { s with nrPages := s.nrPages + more } none
  | newSpan {span : SpanInfo} {s' : Shard} (made : s.poolSpanInit span = some s') : Stepped s (.newSpan span) s' none
  | reclaimSpan {span : SpanInfo} {s' : Shard} (made : s.poolSpanReclaim span = some s') :
      Stepped s (.reclaimSpan span) s' none
  | set {key value : Bytes} {expireMs : Nat} {place : Place} {s' : Shard}
      (made : s.shardKeySet key value expireMs place = some s') : Stepped s (.set key value expireMs place) s' none
  | del (key : Bytes) : Stepped s (.del key) (s.shardKeyDelete key) none
  | free {ptr : Nat} {s' : Shard} (made : s.memFree ptr = some s') : Stepped s (.free ptr) s' none
  | tick {s' : Shard} (made : s.snapEngineTick = some s') : Stepped s .tick s' none
  | serialize {s' : Shard} {file : Option (List PageRecord)} (made : s.snapSerializeEpoch = some (s', file)) :
      Stepped s .serialize s' file

theorem stepped {s s' : Shard} {op : Op} {file : Option (List PageRecord)} (done : s.step op = some (s', file)) :
    s.Stepped op s' file := by
  cases op <;> simp only [step, Option.map_eq_some_iff, Option.some.injEq, Prod.mk.injEq] at done
  case grow more =>
    obtain ⟨rfl, rfl⟩ := done
    exact .grow more
  case del key =>
    obtain ⟨rfl, rfl⟩ := done
    exact .del key
  case serialize => exact .serialize done
  all_goals
    obtain ⟨_, made, rfl, rfl⟩ := done
    constructor
    exact made

end Steps

end Shard

end FreakV.Snapshot
