import FreakV.Commands.Model
import FreakV.Lib.Ledger
import FreakV.Lib.Transition

/-!
# The blocks that serving a connection takes from the slab allocators

One connection of the shared port, the shards that execute its commands, and every block that is taken from or given
back to a shard's `slab_allocator` on the way. The connection's buffers, the parser's arrays, the ring of slots and the
segments of the queues are not followed. Objects are not slab blocks.
-/

namespace FreakV.Serving

open Commands (Dispatcher Arg ProxyOp Request toupper)
open Net (ReplyType ascii)

structure Block where
  pool : Nat
  addr : Nat
deriving DecidableEq

def allAt (pool : Nat) (addrs : List Nat) : Multiset Block := (addrs : Multiset Nat).map (Block.mk pool)

def atPool (pool : Nat) (ptr : Option Nat) : Multiset Block := allAt pool ptr.toList

structure Ticket where
  owner : Nat
  seq : Nat
  sub : Nat
deriving DecidableEq

structure Job where
  ticket : Ticket
  req : Request
deriving DecidableEq

-- The replies that proxy_exec writes into a block of the shard's own pool.
def buffered : Request → Bool
  | .regular .type _ | .delPart _ | .dbsize => true
  | _ => false

structure Answer where
  ticket : Ticket
  replyType : ReplyType
  replyBuf : Option Nat
  typed : replyBuf.isSome = true → replyType = .buf
deriving DecidableEq

-- A place of multi_replies, and of multi_owners.
structure Part where
  owner : Nat := 0
  reply : Option Nat := none
deriving DecidableEq

structure Multi where
  replies : Nat
  replyLens : Nat
  kvObjs : Option Nat
  owners : Option Nat
  parts : List Part
  replied : Nat
deriving DecidableEq

structure MsetStat where
  addr : Nat
  batches : List Nat
  todo : List Nat
  total : Nat
  finAck : Nat := 0
deriving DecidableEq

inductive Mset
  -- pending_argv and pending_arglen of the connection, kept here with the slot they are for
  | held (argv arglen : Nat) (shards : List Nat)
  | running (stat : MsetStat)
deriving DecidableEq

structure Slot where
  done : Bool := false
  replyType : ReplyType := .none
  replyData : Option Nat := none
  shardOwner : Nat := 0
  argv : Option Nat := none
  arglen : Option Nat := none
  multi : Option Multi := none
  mset : Option Mset := none
deriving DecidableEq

structure Waiter where
  cmdInfo : Nat
  job : Job
deriving DecidableEq

structure MsetCmd where
  cmdInfo : Nat
  seq : Nat
  totalAcks : Nat
deriving DecidableEq

structure WaitGroup where
  addr : Nat
  waiting : List Waiter
  anchor : MsetCmd
deriving DecidableEq

structure LockEntry where
  shard : Nat
  openGroups : Nat
  holder : MsetCmd
  queue : List WaitGroup := []
  opened : Option (Nat × List Waiter) := none
deriving DecidableEq

-- MSG_CMD_MSET_FIN, which points to the stat of the MSET `seq`
structure FinMsg where
  seq : Nat
  stat : Nat
deriving DecidableEq

/-- Messages are bags: what is proved holds for whatever order they arrive in. Sequence numbers do not wrap. -/
structure State where
  live : Multiset Block
  next : Nat
  outSeq : Nat
  slots : List Slot := []
  jobs : Multiset Job := 0
  answers : Multiset Answer := 0
  releases : Multiset Block := 0
  entries : Multiset LockEntry := 0
  fins : Multiset FinMsg := 0

namespace State

def inSeq (s : State) : Nat := s.outSeq + s.slots.length

def slotAt (s : State) (seq : Nat) : Option Slot := if s.outSeq ≤ seq then s.slots[seq - s.outSeq]? else none

def setSlot (s : State) (seq : Nat) (slot : Slot) : State := { s with slots := s.slots.set (seq - s.outSeq) slot }

def newBlocks (s : State) (pool n : Nat) : Multiset Block := allAt pool ((List.range n).map (s.next + ·))

-- `n` calls of slab_obj_alloc or slab_obj_calloc
def alloc (s : State) (pool n : Nat) : State := { s with live := s.live + s.newBlocks pool n, next := s.next + n }

def free (s : State) (blocks : Multiset Block) : State := { s with live := s.live - blocks }

end State

section Dispatch

structure Env where
  -- the bucket of its first key is locked
  locked : Bool := false
  -- the reply was written to the write buffer, and copied from there to a block
  text : Bool := true
  -- the argument arrays are allocated, and the header of MGET, and the stat and the batches of an MSET
  arrays : Bool := true
  header : Bool := true
  stat : Bool := true
  -- mset_inflight is below mset_max_concurrent
  admitted : Bool := true
deriving DecidableEq

variable (d : Dispatcher) (s : State)

def State.enter (slot : Slot) (jobs : List Job) : State := { s with slots := s.slots ++ [slot], jobs := s.jobs + jobs }

-- resp_dispatch_proxy returns 0.
def State.answerHere (text : Bool) : State :=
  if text then
    (s.alloc d.self 1).enter { done := true, shardOwner := d.self, replyType := .buf, replyData := some s.next } []
  else s.enter { done := true, shardOwner := d.self } []

def State.forward (owner : Nat) (op : ProxyOp) (args : List Arg) (kept : Bool) : State :=
  (s.alloc d.self 2).enter
    { shardOwner := owner, argv := if kept then some s.next else none, arglen := if kept then some (s.next + 1) else none }
    [{ ticket := { owner := owner, seq := s.inSeq, sub := 0 }, req := .regular op args }]

def State.partJobs (part : Bytes → Request) (keys : List Arg) : List Job :=
  keys.zipIdx.map fun (key, i) =>
    { ticket := { owner := shardForKey key.text d.numShards, seq := s.inSeq, sub := i }, req := part key.text }

def State.mget (keys : List Arg) (header : Bool) : State :=
  (s.alloc d.self (if header then 5 else 4)).enter
    { shardOwner := d.self
      replyData := if header then some (s.next + 4) else none
      multi := some
        { replies := s.next, replyLens := s.next + 1, kvObjs := some (s.next + 2), owners := some (s.next + 3),
          parts := List.replicate keys.length {}, replied := 0 } }
    (s.partJobs d .mgetPart keys)

def State.del (keys : List Arg) : State :=
  (s.alloc d.self 3).enter
    { shardOwner := d.self
      multi := some
        { replies := s.next, replyLens := s.next + 1, kvObjs := none, owners := some (s.next + 2),
          parts := List.replicate keys.length {}, replied := 0 } }
    (s.partJobs d .delPart keys)

def State.dbsize : State :=
  let own := if d.self < d.numShards then 1 else 0
  (s.alloc d.self (2 + own)).enter
    { done := decide (d.numShards ≤ own)
      shardOwner := d.self
      multi := some
        { replies := s.next, replyLens := s.next + 1, kvObjs := none, owners := none,
          parts := (List.range d.numShards).map fun j =>
            { owner := j, reply := if j = d.self then some (s.next + 2) else none },
          replied := own } }
    (((List.range d.numShards).filter (· ≠ d.self)).map fun j =>
      { ticket := { owner := j, seq := s.inSeq, sub := j }, req := .dbsize })

def pairShards : List Arg → List Nat
  | key :: _ :: rest => shardForKey key.text d.numShards :: pairShards rest
  | _ => []

def batchCount (shards : List Nat) : Nat := ((List.range d.numShards).filter fun j => j ≠ d.self ∧ j ∈ shards).length

def newStat (shards : List Nat) : MsetStat :=
  { addr := s.next
    batches := (List.range (batchCount d shards)).map (s.next + 1 + ·)
    todo := shards
    total := shards.length }

def State.mset (env : Env) (shards : List Nat) : State :=
  if env.admitted then
    if env.stat then
      (s.alloc d.self (1 + batchCount d shards)).enter { mset := some (.running (newStat d s shards)) } []
    else s.answerHere d env.text
  else if env.arrays then (s.alloc d.self 2).enter { mset := some (.held s.next (s.next + 1) shards) } []
  else s.answerHere d env.text

-- The names that the fast paths of resp_dispatch_proxy know.
def fastName (args : List Arg) : Bool :=
  (args.head?.map fun name => name.text.map toupper) = some (ascii "GET") ||
    (args.head?.map fun name => name.text.map toupper) = some (ascii "SET")

def State.client (env : Env) (args : List Arg) : State :=
  match d.respDispatchProxy (fun _ => env.locked) args with
  | .nothing => s.answerHere d false
  | .here => s.answerHere d env.text
  | .execLocalKey op => if env.arrays then s.forward d d.self op args true else s.answerHere d env.text
  | .send owner op =>
    if env.arrays then s.forward d owner op args (!fastName args) else s.answerHere d env.text
  | .mget => s.mget d args.tail env.header
  | .del => s.del d args.tail
  | .dbsize => s.dbsize d
  | .mset =>
    if args.length < 3 ∨ args.length % 2 = 0 then s.answerHere d env.text
    else s.mset d env (pairShards d args.tail)

end Dispatch

namespace LockEntry

variable (e : LockEntry)

-- lock_wq_add_regular; the second block is for a new group. A command whose group cannot be allocated is never answered.
def addRegular (addr : Nat) (job : Job) : LockEntry :=
  match e.opened with
  | some (group, waiting) => { e with opened := some (group, waiting ++ [{ cmdInfo := addr, job := job }]) }
  | none => { e with opened := some (addr + 1, [{ cmdInfo := addr, job := job }]) }

-- lock_wq_add_mset. The transactions of one connection come in the order of their ids.
def addMset (addr seq : Nat) : LockEntry :=
  let cmd : MsetCmd := { cmdInfo := addr, seq := seq, totalAcks := 1 }
  match e.opened with
  | some (group, waiting) => { e with queue := e.queue ++ [{ addr := group, waiting := waiting, anchor := cmd }], opened := none }
  | none => { e with queue := e.queue ++ [{ addr := addr + 1, waiting := [], anchor := cmd }] }

def addedBlocks : Nat := if e.opened.isSome then 1 else 2

-- lock_wq_find_txn, and one more pair for the command it finds
def countIn (seq : Nat) : List WaitGroup → Option (List WaitGroup)
  | [] => none
  | group :: rest =>
    if group.anchor.seq = seq then
      some ({ group with anchor := { group.anchor with totalAcks := group.anchor.totalAcks + 1 } } :: rest)
    else (countIn seq rest).map (group :: ·)

def countAgain (seq : Nat) : Option LockEntry :=
  if e.holder.seq = seq then some { e with holder := { e.holder with totalAcks := e.holder.totalAcks + 1 } }
  else (countIn seq e.queue).map fun queue => { e with queue := queue }

end LockEntry

inductive Outcome
  | done (replyType : ReplyType) (room : Bool)
  | deferred (e : LockEntry)
deriving DecidableEq

inductive Prepared
  | failed
  | acquired
  | found (e : LockEntry)
deriving DecidableEq

namespace State

variable (d : Dispatcher) (s : State)

def reply (job : Job) (replyType : ReplyType) (room : Bool) : Option State :=
  if buffered job.req ∧ room then
    some { s.alloc job.ticket.owner 1 with
      answers := { ticket := job.ticket, replyType := .buf, replyBuf := some s.next, typed := fun _ => rfl } ::ₘ s.answers }
  else if buffered job.req ∨ replyType ≠ .buf then
    some { s with answers :=
      { ticket := job.ticket, replyType := if buffered job.req then .buf else replyType, replyBuf := none,
        typed := nofun } ::ₘ s.answers }
  else none

def exec (job : Job) (outcome : Outcome) : Option State :=
  if job ∈ s.jobs then
    let s := { s with jobs := s.jobs.erase job }
    match outcome with
    | .done replyType room => s.reply job replyType room
    | .deferred e =>
      if e ∈ s.entries ∧ e.shard = job.ticket.owner ∧ job.req.key.isSome then
        some { s.alloc e.shard e.addedBlocks with entries := e.addRegular s.next job ::ₘ s.entries.erase e }
      else none
  else none

-- net_remote_obj_release
def giveBack (blocks : Multiset Block) : State :=
  { s.free (blocks.filter fun b => b.pool = d.self) with releases := s.releases + blocks.filter fun b => b.pool ≠ d.self }

end State

def Multi.store (m : Multi) (a : Answer) : Multi :=
  { m with
    parts := m.parts.modify a.ticket.sub fun part =>
      { owner := if m.owners.isSome then a.ticket.owner else part.owner, reply := a.replyBuf }
    replied := m.replied + 1 }

def Slot.answer (slot : Slot) (a : Answer) : Slot :=
  match slot.multi with
  | some m =>
    if a.ticket.sub < m.parts.length then
      { slot with multi := some (m.store a), done := slot.done || decide (m.parts.length ≤ m.replied + 1) }
    else slot
  | none =>
    { slot with replyType := a.replyType, replyData := a.replyBuf, shardOwner := a.ticket.owner, done := true }

namespace Slot

variable (slot : Slot)

-- What net_slot_reset hands to net_remote_obj_release.
def released : Multiset Block :=
  (if slot.replyType = .buf then atPool slot.shardOwner slot.replyData else 0) +
    slot.multi.elim 0 fun m => (m.parts.map fun part => atPool part.owner part.reply).sum

def freed (self : Nat) : Multiset Block :=
  slot.multi.elim 0 (fun m => allAt self [m.replies, m.replyLens] + atPool self m.kvObjs + atPool self m.owners) +
    (atPool self slot.argv + atPool self slot.arglen)

end Slot

namespace State

variable (d : Dispatcher) (s : State)

def deliver (a : Answer) : Option State :=
  if a ∈ s.answers then
    let s := { s with answers := s.answers.erase a }
    match s.slotAt a.ticket.seq with
    | none => some (s.giveBack d (atPool a.ticket.owner a.replyBuf))
    | some slot => some (s.setSlot a.ticket.seq (slot.answer a))
  else none

def flush : Option State :=
  match s.slots with
  | [] => none
  | slot :: rest =>
    if slot.done then
      some (({ s with slots := rest, outSeq := s.outSeq + 1 }.giveBack d slot.released).free (slot.freed d.self))
    else none

-- MSG_SYS_RELEASE in shard_msg_drain
def release (b : Block) : Option State :=
  if b ∈ s.releases then some ({ s with releases := s.releases.erase b }.free {b}) else none

def setStat (seq : Nat) (slot : Slot) (stat : MsetStat) : State :=
  s.setSlot seq { slot with mset := some (.running stat) }

def prepareAt (seq target : Nat) : Prepared → Option State
  | .failed => some s
  | .acquired =>
    some { s.alloc target 2 with
      entries := { shard := target, openGroups := s.next + 1,
                   holder := { cmdInfo := s.next, seq := seq, totalAcks := 1 } } ::ₘ s.entries }
  | .found e =>
    if e ∈ s.entries ∧ e.shard = target then
      match e.countAgain seq with
      | some e' => some { s with entries := e' ::ₘ s.entries.erase e }
      | none => some { s.alloc target e.addedBlocks with entries := e.addMset s.next seq ::ₘ s.entries.erase e }
    else none

/-- `mset_prepare_key` for a pair whose key belongs to shard `target`. -/
def prepare (seq target : Nat) (outcome : Prepared) : Option State :=
  match s.slotAt seq with
  | some slot =>
    match slot.mset with
    | some (.running stat) =>
      if target ∈ stat.todo then
        (s.setStat seq slot { stat with todo := stat.todo.erase target }).prepareAt seq target outcome
      else none
    | _ => none
  | none => none

end State

namespace LockEntry

variable (e : LockEntry)

-- What the drain of mset_fin_one_cmd wakes. The commands are executed again.
def woken : List Waiter :=
  match e.queue with
  | group :: _ => group.waiting
  | [] => e.opened.elim [] Prod.snd

def passedOn : Option LockEntry :=
  match e.queue with
  | group :: rest => some { e with holder := group.anchor, queue := rest }
  | [] => none

def finFreed : Multiset Block :=
  allAt e.shard (e.holder.cmdInfo :: e.woken.map Waiter.cmdInfo) +
    match e.queue with
    | group :: _ => allAt e.shard [group.addr]
    | [] => allAt e.shard [e.openGroups] + e.opened.elim 0 fun group => allAt e.shard [group.1]

end LockEntry

namespace State

variable (d : Dispatcher) (s : State)

-- Steps 3 to 6 of mset_fin_one_cmd
def passOn (e : LockEntry) : State :=
  { s with
    jobs := s.jobs + (e.woken : Multiset Waiter).map Waiter.job
    entries := (e.passedOn.elim 0 fun e' => {e'}) + s.entries.erase e }.free e.finFreed

/-- `mset_fin_one_cmd` for the holder of a lock, once all pairs of its MSET are prepared: on FIN, on the coordinator's own
shard, or early. When that is, and when the ACK before it arrives, is left open. -/
def fin (e : LockEntry) : Option State :=
  match s.slotAt e.holder.seq with
  | some slot =>
    match slot.mset with
    | some (.running stat) =>
      if e ∈ s.entries ∧ stat.todo = [] then
        some ((s.setStat e.holder.seq slot { stat with finAck := stat.finAck + e.holder.totalAcks }).passOn e)
      else none
    | _ => none
  | none => none

-- A round of mset_send_fin_to_remotes: shard_heads of the shard is not empty.
def sendFin (e : LockEntry) : Option State :=
  match s.slotAt e.holder.seq with
  | some slot =>
    match slot.mset with
    | some (.running stat) =>
      if e ∈ s.entries ∧ e.shard ≠ d.self ∧ stat.todo = [] then
        some { s with fins := { seq := e.holder.seq, stat := stat.addr } ::ₘ s.fins }
      else none
    | _ => none
  | none => none

-- mset_on_fin has run the commands that it found in the stat, if any were left.
def takeFin (m : FinMsg) : Option State := if m ∈ s.fins then some { s with fins := s.fins.erase m } else none

/-- `mset_set_ok_reply` and `stat_free_real`: `fin_ack` has reached `total`, on the coordinator or by FIN_ACK. After a
FIN_ACK the stat is read once more, for its connection. -/
def finish (seq : Nat) : Option State :=
  match s.slotAt seq with
  | some slot =>
    match slot.mset with
    | some (.running stat) =>
      if stat.finAck = stat.total then
        some ((s.setSlot seq { slot with mset := none, done := true, replyType := .bufStatic, replyData := none }).free
          (allAt d.self (stat.addr :: stat.batches)))
      else none
    | _ => none
  | none => none

/-- `mset_pending_conn_drain` takes up an MSET that was held back. -/
def resume (seq : Nat) (room : Bool) : Option State :=
  match s.slotAt seq with
  | some slot =>
    match slot.mset with
    | some (.held argv arglen shards) =>
      if room then
        some (((s.alloc d.self (1 + batchCount d shards)).setStat seq slot (newStat d s shards)).free
          (allAt d.self [argv, arglen]))
      else
        some ((s.setSlot seq { slot with mset := none, done := true, replyType := .err, replyData := none }).free
          (allAt d.self [argv, arglen]))
    | _ => none
  | none => none

end State

inductive Action
  | client (env : Env) (args : List Arg)
  | exec (job : Job) (outcome : Outcome)
  | deliver (a : Answer)
  | flush
  | release (b : Block)
  | prepare (seq target : Nat) (outcome : Prepared)
  | fin (e : LockEntry)
  | sendFin (e : LockEntry)
  | takeFin (m : FinMsg)
  | finish (seq : Nat)
  | resume (seq : Nat) (room : Bool)

def State.step (d : Dispatcher) (s : State) : Action → Option State
  | .client env args => some (s.client d env args)
  | .exec job outcome => s.exec job outcome
  | .deliver a => s.deliver d a
  | .flush => s.flush d
  | .release b => s.release b
  | .prepare seq target outcome => s.prepare seq target outcome
  | .fin e => s.fin e
  | .sendFin e => s.sendFin d e
  | .takeFin m => s.takeFin m
  | .finish seq => s.finish d seq
  | .resume seq room => s.resume d seq room

def State.Settled (s : State) : Prop := s.slots = [] ∧ s.jobs = 0 ∧ s.answers = 0 ∧ s.releases = 0

instance (s : State) : Decidable s.Settled := inferInstanceAs (Decidable (_ ∧ _ ∧ _ ∧ _))

end FreakV.Serving
