import FreakV.State

namespace FreakV

inductive SlotState
  | empty
  | localReply
  | pending
  | done
deriving DecidableEq

-- kv_obj_ptr of a slot is a reply object or, between dispatch and FIN of an MSET, its stat.
inductive SlotPtr
  | null
  | stat (stat : StatId)
  | obj (obj : ObjId)
deriving DecidableEq

structure PipelineSlot where
  state : SlotState := .empty
  kvObjPtr : SlotPtr := .null
  reply : Option Reply := none
  shardOwner : ShardId := 0
  isMulti : Bool := false
  multiParts : Nat := 0
  multiReplied : Nat := 0
  multiReplies : List (Nat × Reply) := []
deriving DecidableEq

def pipelineInitCap : Nat := 128

structure NetConn where
  owner : ShardId
  inSeq : Nat := 0
  outSeq : Nat := 0
  cap : Nat := pipelineInitCap
  slots : Nat → PipelineSlot := fun _ => {}
  -- pending_pipeline_idx and the pairs of an MSET held back by mset_max_concurrent
  pending : Option (Nat × List Pair) := none
  -- ghost: the clock value of the connection's latest transaction
  clock : Nat := 0

/-- Locals of `mset_prepare_key` that live across an early commit or a wound decision. -/
structure Prepare where
  stat : StatId
  cmd : CmdId
  le : LeId
  key : Bytes
  keyIsNew : Bool
deriving DecidableEq

inductive Frame
  -- mset_coordinator_dispatch_argv, pass 2 with these pairs to go
  | dispatch (stat : StatId) (rest : List Pair)
  | prepareBatch (stat : StatId) (origin : ShardId) (rest : List Pair)
  -- mset_prepare_key after mset_try_early_commit returned
  | afterEarly (p : Prepare)
  -- mset_prepare_key with can_preempt set, before the compare-exchange on the incumbent's ack
  | wound (p : Prepare)
  | runFin (queue : List StatId) (nProcessed : Nat)
  | earlyCommit (stat : StatId) (nProcessed : Nat)
  -- the parts of a client command that are still to be executed or sent
  | parts (rest : List RegularReq)
  | proxyExec (m : RegularReq)
  -- mset_check_lock_defer after mset_try_early_commit returned true
  | afterDeferEarly (m : RegularReq)
deriving DecidableEq

structure Shard where
  table : Bytes → Option Bucket := fun _ => none
  msetInflight : Nat := 0
  msetPendingConns : List ConnId := []
  opsCompleted : Nat := 0
  crossShardReceived : Nat := 0
  stack : List Frame := []

instance : Inhabited Shard := ⟨{}⟩

/-- What a run has shown so far; read by no modelled function. -/
inductive Event
  | start (rid : Nat) (key : Bytes)
  | exec (rid : Nat) (op : RegularOp) (key : Bytes) (origin : ShardId) (arrival : Nat) (read : Option ObjId)
  | commit (cmd : CmdId) (stat : StatId) (key : Bytes) (origin : ShardId) (arrival : Nat) (obj : ObjId)
  | prepareFailed (stat : StatId)
  | okReply (stat : StatId) (shard : ShardId)
  | statFree (stat : StatId) (shard : ShardId)
deriving DecidableEq

structure Engine where
  numShards : Nat
  msetMaxConcurrent : Nat
  shards : ShardId → Shard
  stats : StatId → MsetStat
  cmds : CmdId → CmdInfo
  les : LeId → LockEntry
  objs : ObjId → KvObj
  conns : ConnId → NetConn
  -- queues sender receiver is a FIFO, oldest message first
  queues : ShardId → ShardId → List SpscMessage
  nextStat : Nat
  nextCmd : Nat
  nextLe : Nat
  nextObj : Nat
  nextReq : Nat
  nextArrival : Nat
  history : List Event
  -- the process has read memory it must not read
  fault : Bool

def Engine.init (numShards msetMaxConcurrent : Nat) (owner : ConnId → ShardId) : Engine :=
  { numShards := numShards
    msetMaxConcurrent := msetMaxConcurrent
    shards := fun _ => {}
    stats := fun _ => default
    cmds := fun _ => default
    les := fun _ => default
    objs := fun _ => default
    conns := fun conn => { owner := owner conn }
    queues := fun _ _ => []
    nextStat := 0
    nextCmd := 0
    nextLe := 0
    nextObj := 0
    nextReq := 0
    nextArrival := 0
    history := []
    fault := false }

namespace Engine

def updShard (e : Engine) (s : ShardId) (f : Shard → Shard) : Engine :=
  { e with shards := Function.update e.shards s (f (e.shards s)) }

def setStat (e : Engine) (stat : StatId) (v : MsetStat) : Engine :=
  { e with stats := Function.update e.stats stat v }

def setCmd (e : Engine) (cmd : CmdId) (v : CmdInfo) : Engine :=
  { e with cmds := Function.update e.cmds cmd v }

def setLe (e : Engine) (le : LeId) (v : LockEntry) : Engine :=
  { e with les := Function.update e.les le v }

def setObj (e : Engine) (obj : ObjId) (v : KvObj) : Engine :=
  { e with objs := Function.update e.objs obj v }

def setConn (e : Engine) (conn : ConnId) (v : NetConn) : Engine :=
  { e with conns := Function.update e.conns conn v }

def send (e : Engine) (s : ShardId) (messages : ShardId → List SpscMessage) : Engine :=
  { e with queues := Function.update e.queues s fun d => e.queues s d ++ messages d }

def sendTo (e : Engine) (s d : ShardId) (m : SpscMessage) : Engine :=
  e.send s fun d' => if d' = d then [m] else []

def record (e : Engine) (event : Event) : Engine :=
  { e with history := e.history ++ [event] }

def setStack (e : Engine) (s : ShardId) (stack : List Frame) : Engine :=
  e.updShard s fun sh => { sh with stack := stack }

def pushFrame (e : Engine) (s : ShardId) (frame : Frame) : Engine :=
  e.setStack s (frame :: (e.shards s).stack)

def setBucket (e : Engine) (s : ShardId) (key : Bytes) (b : Option Bucket) : Engine :=
  e.updShard s fun sh => { sh with table := Function.update sh.table key b }

def addOps (e : Engine) (s : ShardId) : Engine :=
  e.updShard s fun sh => { sh with opsCompleted := sh.opsCompleted + 1 }

end Engine

end FreakV
