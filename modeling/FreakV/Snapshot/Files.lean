import FreakV.Key

namespace FreakV.Snapshot

structure Entry where
  slotIndex : Nat
  key : Bytes
  value : Bytes
  expireMs : Nat
  deleted : Bool
deriving DecidableEq

structure PageRecord where
  lpageIdx : Nat
  entries : List Entry
deriving DecidableEq

structure File where
  sessionId : Nat
  epoch : Nat
  records : List PageRecord
deriving DecidableEq

abbrev Pos := Nat × Nat

def PageRecord.slots (r : PageRecord) : List (Pos × Entry) := r.entries.map fun e => ((r.lpageIdx, e.slotIndex), e)

def File.slots (f : File) : List (Pos × Entry) := f.records.flatMap PageRecord.slots

def snapModifiedSize : Nat := 16
def maxEpochFiles : Nat := 4096

section Restore

variable (now : Nat)

def Entry.expired (e : Entry) : Bool := e.expireMs ≠ 0 && e.expireMs < now

-- `seen` is the set behind dedup_insert; `restored` lists the calls of shard_key_set.
structure Restoring where
  seen : List Pos := []
  restored : List Entry := []

def restoreEntry (st : Restoring) (slot : Pos × Entry) : Restoring :=
  if slot.1 ∈ st.seen then st
  else
    let st := { st with seen := slot.1 :: st.seen }
    if slot.2.deleted then st
    else if slot.2.expired now then st
    else { st with restored := st.restored ++ [slot.2] }

def firsts (seen : List Pos) : List (Pos × Entry) → List (Pos × Entry)
  | [] => []
  | slot :: rest => if slot.1 ∈ seen then firsts seen rest else slot :: firsts (slot.1 :: seen) rest

def restoreFile (st : Restoring) (f : File) : Restoring := f.slots.foldl (restoreEntry now) st

-- The order of epoch_file_cmp_desc; the epoch is part of the file's name.
def descending (deltas : List File) : List File := deltas.mergeSort fun a b => b.epoch ≤ a.epoch

/-- `snap_engine_restore`: what it hands to `shard_key_set`, for the delta files in the order of the directory. -/
def snapEngineRestore (base : Option File) (listing : List File) : List Entry :=
  let st := match base with
    | some f => restoreFile now {} f
    | none => {}
  ((descending (listing.take maxEpochFiles)).foldl (restoreFile now) st).restored

end Restore

abbrev KeyMap := Bytes → Option (Bytes × Nat)

def KeyMap.set (m : KeyMap) (e : Entry) : KeyMap := Function.update m e.key (some (e.value, e.expireMs))

def KeyMap.ofList (entries : List Entry) : KeyMap := entries.foldl KeyMap.set fun _ => none

section Compact

-- The bitmap of compact_dedup_t. Slots behind its end are never found in it.
def compactDedupMark (nrBits : Nat) (seen : List Nat) (pos : Pos) : List Nat × Bool :=
  let idx := pos.1 * snapModifiedSize * 8 + pos.2
  if nrBits ≤ idx then (seen, true)
  else if idx ∈ seen then (seen, false)
  else (idx :: seen, true)

def compactEntries (nrBits lpage : Nat) : List Nat → List Entry → List Nat × List Entry
  | seen, [] => (seen, [])
  | seen, e :: rest =>
    let (seen, firstSeen) := compactDedupMark nrBits seen (lpage, e.slotIndex)
    let (seen, kept) := compactEntries nrBits lpage seen rest
    (seen, if ¬firstSeen ∨ e.deleted then kept else e :: kept)

def compactRecords (nrBits : Nat) : List Nat → List PageRecord → List Nat × List PageRecord
  | seen, [] => (seen, [])
  | seen, r :: rest =>
    let (seen, kept) := compactEntries nrBits r.lpageIdx seen r.entries
    let (seen, records) := compactRecords nrBits seen rest
    (seen, if kept = [] then records else { r with entries := kept } :: records)

-- The pages that the bitmap is asked to cover, in 32 bits.
def dedupPages (nrPages : Nat) : Nat := max nrPages 64 * 2 % 2 ^ 32

def compactDedupInit (nrPages : Nat) : Nat := nrPages * snapModifiedSize * 8

def snapCompactDeltaIntoBase (sessionId nrPages : Nat) (delta : File) (base : Option File) : File :=
  let nrBits := compactDedupInit (dedupPages nrPages)
  let (seen, fresh) := compactRecords nrBits [] delta.records
  let kept := match base with
    | some f => (compactRecords nrBits seen f.records).2
    | none => []
  { sessionId := sessionId, epoch := delta.epoch, records := fresh ++ kept }

end Compact

end FreakV.Snapshot
