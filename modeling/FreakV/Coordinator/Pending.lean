import FreakV.Engine
import FreakV.Net.Reactor
import FreakV.Lib.Transition

namespace FreakV.Coordinator

open EventLoop (ConnState)

structure Slot where
  state : SlotState := .empty
  -- `parent_cmd_id` is MSG_CMD_MSET_PART
  mset : Bool := false
  stat : Option StatId := none
  -- the reply is the error OOM
  oom : Bool := false
deriving DecidableEq

structure Conn where
  state : ConnState := .alive
  cap : Nat := pipelineInitCap
  slots : Nat → Slot := fun _ => {}
  -- `pending_reason` is CONN_PENDING_MSET_BP
  pendingReason : Bool := false
  pendingQueued : Bool := false
  pendingNext : Option ConnId := none
  pendingPipelineIdx : Nat := 0
  pendingArgs : List Bytes := []
  -- ghost: the number of the MSET among those that were held back
  ticket : Nat := 0

def Conn.setSlot (conn : Conn) (seq : Nat) (f : Slot → Slot) : Conn :=
  { conn with slots := Function.update conn.slots (seq % conn.cap) (f (conn.slots (seq % conn.cap))) }

end Coordinator

open Coordinator in
structure Coordinator where
  msetInflight : Nat := 0
  msetMaxConcurrent : Nat
  head : Option ConnId := none
  tail : Option ConnId := none
  len : Nat := 0
  enqueued : Nat := 0
  resumed : Nat := 0
  maxLen : Nat := 0
  conns : ConnId → Coordinator.Conn := fun _ => {}
  -- ghost: the stats that are allocated, and the number of the next one
  stats : List StatId := []
  nextStat : StatId := 0
  -- ghost: how many MSETs were held back, those taken off the list (have they been dispatched?), those cancelled
  tickets : Nat := 0
  taken : List (Nat × Bool) := []
  cancelled : List Nat := []

namespace Coordinator

/-- What a dispatch meets: do its allocations succeed, and which MSETs are completed before it returns? -/
structure DispatchEnv where
  statAlloc : Bool := true
  batchAlloc : Bool := true
  completed : List StatId := []
deriving DecidableEq

def setConn (s : Coordinator) (c : ConnId) (conn : Conn) : Coordinator :=
  { s with conns := Function.update s.conns c conn }

def updConn (s : Coordinator) (c : ConnId) (f : Conn → Conn) : Coordinator := s.setConn c (f (s.conns c))

def setNext (s : Coordinator) (c : ConnId) (next : Option ConnId) : Coordinator :=
  s.updConn c fun conn => { conn with pendingNext := next }

def setQueued (s : Coordinator) (c : ConnId) (queued : Bool) : Coordinator :=
  s.updConn c fun conn => { conn with pendingQueued := queued }

def link (s : Coordinator) (prev next : Option ConnId) : Coordinator :=
  match prev with
  | some p => s.setNext p next
  | none => { s with head := next }

def statFreeReal (s : Coordinator) (stat : StatId) : Option Coordinator :=
  if stat ∈ s.stats then some { s with msetInflight := s.msetInflight - 1, stats := s.stats.erase stat } else none

def complete : List StatId → Coordinator → Option Coordinator
  | [], s => some s
  | stat :: rest, s => (s.statFreeReal stat).bind (complete rest)

def pendingStateFree (s : Coordinator) (c : ConnId) : Coordinator :=
  s.updConn c fun conn => { conn with pendingReason := false, pendingPipelineIdx := 0, pendingArgs := [] }

inductive Found
  | behind (prev : Option ConnId)
  | missing
deriving DecidableEq

def search (next : ConnId → Option ConnId) (c : ConnId) : Nat → Option ConnId → Option ConnId → Option Found
  | _, _, none => some .missing
  | 0, _, some _ => none
  | fuel + 1, prev, some cur => if cur = c then some (.behind prev) else search next c fuel (some cur) (next cur)

def unlink (s : Coordinator) (c : ConnId) : Found → Coordinator
  | .missing => s
  | .behind prev =>
    { s.link prev (s.conns c).pendingNext with tail := if s.tail = some c then prev else s.tail, len := s.len - 1 }

def dropPending (s : Coordinator) (c : ConnId) : Coordinator :=
  let conn := s.conns c
  let s := if conn.pendingReason then
      { s.updConn c fun conn' => conn'.setSlot conn.pendingPipelineIdx fun slot =>
          if slot.state = .pending ∧ slot.mset = true ∧ slot.stat = none then { slot with state := .done } else slot with
        cancelled := s.cancelled ++ [conn.ticket] }
    else s
  s.pendingStateFree c

/-- `mset_pending_conn_cancel`; a list of `len` connections is searched in `len` steps. -/
def pendingConnCancel (s : Coordinator) (c : ConnId) : Option Coordinator :=
  if (s.conns c).pendingQueued then
    (search (fun d => (s.conns d).pendingNext) c s.len none s.head).map fun found =>
      (((s.unlink c found).setNext c none).setQueued c false).dropPending c
  else some (s.dropPending c)

def markPending (s : Coordinator) (c : ConnId) (args : List Bytes) (seq : Nat) : Coordinator :=
  { s.updConn c fun conn =>
      { conn.setSlot seq fun slot => { slot with state := .pending, mset := true, stat := none } with
        pendingReason := true
        pendingPipelineIdx := seq
        pendingArgs := args
        ticket := s.tickets } with
    tickets := s.tickets + 1 }

def append (s : Coordinator) (c : ConnId) : Coordinator :=
  { (((s.setNext c none).link s.tail (some c)).setQueued c true) with
    tail := some c
    len := s.len + 1
    enqueued := s.enqueued + 1
    maxLen := max s.maxLen (s.len + 1) }

def pendingConnEnqueue (s : Coordinator) (c : ConnId) (args : List Bytes) (seq : Nat) (alloc : Bool) :
    Coordinator × Bool :=
  if (s.conns c).pendingReason then (s, false)
  else if ¬alloc then (s, false)
  else
    let s := s.markPending c args seq
    if (s.conns c).pendingQueued then (s, true) else (s.append c, true)

def allocStat (s : Coordinator) : Coordinator :=
  { s with msetInflight := s.msetInflight + 1, stats := s.stats ++ [s.nextStat], nextStat := s.nextStat + 1 }

def coordinatorDispatchArgv (s : Coordinator) (c : ConnId) (seq : Nat) (env : DispatchEnv) :
    Option (Coordinator × Bool) :=
  -- without memory for the stat the counter is taken back
  if ¬env.statAlloc then some (s, false)
  else
    let stat := s.nextStat
    let s := s.allocStat.updConn c fun conn => conn.setSlot seq fun slot => { slot with stat := some stat, mset := true }
    if ¬env.batchAlloc then
      let s := s.updConn c fun conn => conn.setSlot seq fun slot => { slot with stat := none }
      (s.statFreeReal stat).map (·, false)
    else (complete env.completed s).map (·, true)

def coordinatorDispatch (s : Coordinator) (c : ConnId) (args : List Bytes) (seq : Nat) (alloc : Bool) (env : DispatchEnv) :
    Option Coordinator :=
  if s.msetMaxConcurrent ≤ s.msetInflight then some (s.pendingConnEnqueue c args seq alloc).1
  else (s.coordinatorDispatchArgv c seq env).map Prod.fst

def pop (s : Coordinator) (c : ConnId) : Coordinator :=
  let next := (s.conns c).pendingNext
  { (s.setNext c none).setQueued c false with
    head := next
    tail := if next = none then none else s.tail
    len := s.len - 1 }

def resume (s : Coordinator) (c : ConnId) (env : DispatchEnv) : Option Coordinator :=
  let conn := s.conns c
  ((s.pendingStateFree c).coordinatorDispatchArgv c conn.pendingPipelineIdx env).map fun (s, ok) =>
    let s := { s with resumed := s.resumed + 1, taken := s.taken ++ [(conn.ticket, ok)] }
    if ok then s
    else s.updConn c fun conn' => conn'.setSlot conn.pendingPipelineIdx fun slot => { slot with state := .localReply, oom := true }

def pendingConnDrain : List DispatchEnv → Coordinator → Option Coordinator
  | [], s => some s
  | env :: rest, s =>
    if s.msetInflight < s.msetMaxConcurrent then
      match s.head with
      | none => some s
      | some c =>
        if (s.conns c).state = .dead ∨ (s.conns c).pendingReason = false then
          pendingConnDrain rest ((s.pop c).pendingStateFree c)
        else ((s.pop c).resume c env).bind (pendingConnDrain rest)
    else some s

inductive Event
  | dispatch (c : ConnId) (args : List Bytes) (seq : Nat) (alloc : Bool) (env : DispatchEnv)
  | complete (stat : StatId)
  -- the client has closed its side
  | hangUp (c : ConnId)
  | markDead (c : ConnId)
  -- the memory of the connection may then serve for a new one
  | free (c : ConnId)
  | drain (envs : List DispatchEnv)
deriving DecidableEq

def step (s : Coordinator) : Event → Option Coordinator
  -- a dead connection is not read any more
  | .dispatch c args seq alloc env =>
    if (s.conns c).state = .dead then none else s.coordinatorDispatch c args seq alloc env
  | .complete stat => s.statFreeReal stat
  | .hangUp c =>
    some (s.updConn c fun conn => if conn.state = .alive then { conn with state := .closing } else conn)
  | .markDead c => (s.pendingConnCancel c).map fun s => s.updConn c fun conn => { conn with state := .dead }
  | .free c => (s.pendingConnCancel c).map fun s => s.setConn c {}
  | .drain envs => pendingConnDrain envs s

def Event.Succeeds : Event → Prop
  | .dispatch _ _ _ alloc env => alloc = true ∧ env.statAlloc = true ∧ env.batchAlloc = true
  | .drain envs => ∀ env ∈ envs, env.statAlloc = true ∧ env.batchAlloc = true
  | _ => True

instance : DecidablePred Event.Succeeds := fun event => by
  cases event <;> (unfold Event.Succeeds; infer_instance)

abbrev Run (max : Nat) (s : Coordinator) : Prop :=
  Transition.Reaches step (fun _ event => event.Succeeds) { msetMaxConcurrent := max } s

end FreakV.Coordinator
