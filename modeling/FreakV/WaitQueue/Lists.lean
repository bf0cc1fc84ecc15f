import FreakV.LockManager
import FreakV.Lib.Transition

namespace FreakV

abbrev GroupId := Nat

namespace WaitQueue

structure Cmd where
  next : Option CmdId := none
  isMset : Bool := false
  txn : TxnId := default
  originShard : ShardId := 0
deriving DecidableEq

structure Group where
  head : Option CmdId := none
  tail : Option CmdId := none
  count : Nat := 0
  txn : TxnId := default
  closed : Bool := false
  originShard : ShardId := 0
  queueNext : Option GroupId := none
  queuePrev : Option GroupId := none
deriving DecidableEq

end WaitQueue

/-- The part of `struct lock_entry` that queues, with the groups and commands its pointers lead to. -/
structure WaitQueue where
  numShards : Nat
  holder : Option CmdId := none
  queueHead : Option GroupId := none
  queueTail : Option GroupId := none
  openGroups : ShardId → Option GroupId := fun _ => none
  groups : GroupId → WaitQueue.Group := fun _ => {}
  cmds : CmdId → WaitQueue.Cmd := fun _ => {}
  -- the group that the next allocation returns; no two live groups share an index
  nextGroup : GroupId := 0
  -- ghost: the commands that were added and not taken out yet, and those that a drain has executed, in order
  waiting : List CmdId := []
  executed : List CmdId := []

namespace WaitQueue

def updCmd (w : WaitQueue) (c : CmdId) (f : Cmd → Cmd) : WaitQueue :=
  { w with cmds := Function.update w.cmds c (f (w.cmds c)) }

def updGroup (w : WaitQueue) (g : GroupId) (f : Group → Group) : WaitQueue :=
  { w with groups := Function.update w.groups g (f (w.groups g)) }

def setNext (w : WaitQueue) (c : CmdId) (next : Option CmdId) : WaitQueue :=
  w.updCmd c fun cmd => { cmd with next := next }

def setQueueNext (w : WaitQueue) (g : GroupId) (next : Option GroupId) : WaitQueue :=
  w.updGroup g fun group => { group with queueNext := next }

def setQueuePrev (w : WaitQueue) (g : GroupId) (prev : Option GroupId) : WaitQueue :=
  w.updGroup g fun group => { group with queuePrev := prev }

def linkNext (w : WaitQueue) (prev : Option GroupId) (g : GroupId) : WaitQueue :=
  match prev with
  | some p => w.setQueueNext p (some g)
  | none => { w with queueHead := some g }

/-- What stands before `next`. At the end of the queue `wq_sorted_insert` leaves the tail as it is. -/
def linkPrev (w : WaitQueue) (next : Option GroupId) (g : GroupId) : WaitQueue :=
  match next with
  | some n => w.setQueuePrev n (some g)
  | none => w

def walk (groups : GroupId → Group) (txn : TxnId) : Nat → Option GroupId → Option (Option GroupId)
  | _, none => some none
  | 0, some _ => none
  | fuel + 1, some cur =>
    if txnIdCmp (groups cur).txn txn < 0 then walk groups txn fuel (groups cur).queueNext else some (some cur)

def wqSortedInsert (w : WaitQueue) (g : GroupId) : Option WaitQueue :=
  match w.queueHead with
  | none => some (({ w with queueHead := some g, queueTail := some g }.setQueuePrev g none).setQueueNext g none)
  | some _ =>
    match w.queueTail with
    | none => none
    | some tail =>
      if 0 ≤ txnIdCmp (w.groups g).txn (w.groups tail).txn then
        some { ((w.setQueuePrev g (some tail)).setQueueNext g none).setQueueNext tail (some g) with queueTail := some g }
      else
        (walk w.groups (w.groups g).txn w.nextGroup w.queueHead).map fun cur =>
          let prev := cur.bind fun c => (w.groups c).queuePrev
          ((((w.setQueueNext g cur).setQueuePrev g prev).linkNext prev g).linkPrev cur g)

def appendBehind (w : WaitQueue) (g : GroupId) (last cmd : CmdId) : WaitQueue :=
  ((w.setNext cmd none).setNext last (some cmd)).updGroup g fun group =>
    { group with tail := some cmd, count := group.count + 1 }

def append (w : WaitQueue) (g : GroupId) (cmd : CmdId) : Option WaitQueue :=
  (w.groups g).tail.map fun last => w.appendBehind g last cmd

def waitGroupAlloc (w : WaitQueue) (closed : Bool) (sid : ShardId) (txn : TxnId) (cmd : CmdId) : WaitQueue :=
  { (w.updGroup w.nextGroup fun _ =>
      { closed := closed, originShard := sid, txn := txn, head := some cmd, tail := some cmd, count := 1 }).setNext cmd none with
    nextGroup := w.nextGroup + 1 }

def setOpen (w : WaitQueue) (sid : ShardId) (g : Option GroupId) : WaitQueue :=
  { w with openGroups := Function.update w.openGroups sid g }

def lockWqAddRegular (w : WaitQueue) (cmd : CmdId) : Option WaitQueue :=
  let sid := (w.cmds cmd).originShard
  match w.openGroups sid with
  | none => some ((w.waitGroupAlloc false sid default cmd).setOpen sid (some w.nextGroup))
  | some og => w.append og cmd

def close (w : WaitQueue) (g : GroupId) (txn : TxnId) : WaitQueue :=
  w.updGroup g fun group => { group with txn := txn, closed := true }

def lockWqAddMset (w : WaitQueue) (cmd : CmdId) : Option WaitQueue :=
  let sid := (w.cmds cmd).originShard
  let txn := (w.cmds cmd).txn
  match w.openGroups sid with
  | some og => (w.append og cmd).bind fun w => ((w.close og txn).setOpen sid none).wqSortedInsert og
  | none => (w.waitGroupAlloc true sid txn cmd).wqSortedInsert w.nextGroup

def walkCmds (cmds : CmdId → Cmd) (stops : Cmd → Bool) : Nat → Option CmdId → Option (List CmdId × Option CmdId)
  | _, none => some ([], none)
  | 0, some _ => none
  | fuel + 1, some ci =>
    if stops (cmds ci) then some ([], some ci)
    else (walkCmds cmds stops fuel (cmds ci).next).map fun rest => (ci :: rest.1, rest.2)

def execute (w : WaitQueue) (cmds : List CmdId) : WaitQueue :=
  { w with executed := w.executed ++ cmds, waiting := w.waiting.filter (· ∉ cmds) }

def popGroup (w : WaitQueue) (g : GroupId) : WaitQueue :=
  match (w.groups g).queueNext with
  | some next => { w.setQueuePrev next none with queueHead := some next }
  | none => { w with queueHead := none, queueTail := none }

def takeAnchor (w : WaitQueue) (g : GroupId) (ci : CmdId) : WaitQueue :=
  let next := (w.cmds ci).next
  { (w.setNext ci none).updGroup g fun group =>
      { group with head := next, tail := if next = none then none else group.tail } with
    holder := some ci
    waiting := w.waiting.erase ci }

def promote (w : WaitQueue) (g : GroupId) (ci : CmdId) : WaitQueue :=
  if (w.cmds ci).next = none then (w.takeAnchor g ci).popGroup g else w.takeAnchor g ci

def drainOpen (w : WaitQueue) (sid : ShardId) : Option WaitQueue :=
  match w.openGroups sid with
  | none => some w
  | some og =>
    (walkCmds w.cmds (fun _ => false) (w.groups og).count (w.groups og).head).map fun found =>
      (w.setOpen sid none).execute found.1

def drainOpens : List ShardId → WaitQueue → Option WaitQueue
  | [], w => some w
  | sid :: rest, w => (w.drainOpen sid).bind (drainOpens rest)

/-- The loop of `mset_drain_waitqueue`; nothing when it takes more than `fuel` rounds. -/
def drainRounds : Nat → WaitQueue → Option WaitQueue
  | 0, _ => none
  | fuel + 1, w =>
    match w.queueHead with
    | some wg =>
      (walkCmds w.cmds Cmd.isMset (w.groups wg).count (w.groups wg).head).bind fun found =>
        match found.2 with
        | some ci => some ((w.execute found.1).promote wg ci)
        | none => drainRounds fuel ((w.execute found.1).popGroup wg)
    | none =>
      (drainOpens (List.range w.numShards) w).bind fun after =>
        if (List.range w.numShards).any fun sid => (w.openGroups sid).isSome then drainRounds fuel after else some after

def msetDrainWaitqueue (w : WaitQueue) : Option WaitQueue := w.drainRounds (w.nextGroup + 1)

inductive Event
  | addRegular (cmd : CmdId) (origin : ShardId)
  | addMset (cmd : CmdId) (origin : ShardId) (txn : TxnId)
  | drain
  -- PREPARE and FIN set the holder; a holder that is wounded is added to the queue as the MSET it is
  | hold (cmd : Option CmdId)
deriving DecidableEq

def fill (w : WaitQueue) (cmd : CmdId) (filled : Cmd) : WaitQueue := w.updCmd cmd fun _ => filled

def await (w : WaitQueue) (cmd : CmdId) : WaitQueue := { w with waiting := cmd :: w.waiting }

def step (w : WaitQueue) : Event → Option WaitQueue
  | .addRegular cmd origin => ((w.fill cmd { originShard := origin }).lockWqAddRegular cmd).map (·.await cmd)
  | .addMset cmd origin txn =>
    ((w.fill cmd { isMset := true, txn := txn, originShard := origin }).lockWqAddMset cmd).map (·.await cmd)
  | .drain => w.msetDrainWaitqueue
  | .hold cmd => some { w with holder := cmd }

def Allowed (w : WaitQueue) : Event → Prop
  | .addRegular cmd origin => cmd ∉ w.waiting ∧ origin < w.numShards
  | .addMset cmd origin txn =>
    cmd ∉ w.waiting ∧ origin < w.numShards ∧ ∀ other ∈ w.waiting, (w.cmds other).isMset = true → (w.cmds other).txn ≠ txn
  | .drain => True
  | .hold _ => True

instance (w : WaitQueue) : (event : Event) → Decidable (w.Allowed event)
  | .addRegular cmd origin => inferInstanceAs (Decidable (cmd ∉ w.waiting ∧ origin < w.numShards))
  | .addMset cmd origin txn =>
    inferInstanceAs (Decidable (cmd ∉ w.waiting ∧ origin < w.numShards ∧
      ∀ other ∈ w.waiting, (w.cmds other).isMset = true → (w.cmds other).txn ≠ txn))
  | .drain => .isTrue trivial
  | .hold _ => .isTrue trivial

end WaitQueue

end FreakV
