import FreakV.Prepare
import FreakV.Lib.Transition

namespace FreakV

inductive ClientCmd
  | mset (pairs : List (Bytes × Bytes))
  | single (op : RegularOp) (key : Bytes)
  | del (keys : List Bytes)
deriving DecidableEq

inductive Action
  | client (conn : ConnId) (cmd : ClientCmd) (clock : Nat)
  -- `receiver` pops the oldest message from `sender`
  | recv (sender receiver : ShardId)
  -- the shard's thread takes one step inside the function it is executing
  | work (s : ShardId) (env : StepEnv)
  | flush (conn : ConnId)
  -- mset_pending_conn_drain takes up the oldest held-back MSET
  | resume (s : ShardId) (clock : Nat)
deriving DecidableEq

def numberPairs (pairs : List (Bytes × Bytes)) : List Pair :=
  pairs.zipIdx.map fun (kv, i) => { key := kv.1, val := kv.2, subIdx := i }

namespace Engine

def shardFor (e : Engine) (key : Bytes) : ShardId := shardForKey key e.numShards

def batchFor (e : Engine) (pairs : List Pair) (d : ShardId) : List Pair :=
  pairs.filter fun p => e.shardFor p.key == d

def sendBatches (e : Engine) (s : ShardId) (stat : StatId) : Engine :=
  e.send s fun d =>
    if d < e.numShards ∧ d ≠ s ∧ e.batchFor (e.stats stat).pairs d ≠ [] then
      [.msetKeyBatch stat (e.batchFor (e.stats stat).pairs d)]
    else []

def msetCoordinatorDispatch (e : Engine) (s : ShardId) (conn : ConnId) (seq : Nat) (pairs : List Pair)
    (clock : Nat) : Engine :=
  let stat := e.nextStat
  let e := e.setStat stat
    { ack := 0, finAck := 0, total := pairs.length,
      txn := { timestampNs := clock, connPtr := conn, pipelineIdx := seq },
      connPtr := conn, pipelineIdx := seq, coordinatorId := s, shardHeads := fun _ => [], pairs := pairs,
      freed := false }
  let e := { e with nextStat := stat + 1 }
  let e := e.updShard s fun sh => { sh with msetInflight := sh.msetInflight + 1 }
  let e := e.updSlot conn seq fun slot => { slot with kvObjPtr := .stat stat }
  (e.updConn conn fun c => { c with clock := clock }).pushFrame s (.dispatch stat pairs)

-- The coordinator's fin_ack reaches total here, or the last shard tells it so.
def addFinAck (e : Engine) (s : ShardId) (stat : StatId) (n : Nat) : Engine :=
  if n = 0 then e
  else
    let st := e.stats stat
    let e := e.setStat stat { st with finAck := st.finAck + n }
    if st.finAck + n ≠ st.total then e
    else if st.coordinatorId = s then (e.msetSetOkReply s stat).statFreeReal s stat
    else e.sendTo s st.coordinatorId (.msetFinAck stat)

/-- Take the first command off the stat's list and commit it. Committing a command that does not hold
its lock would free it under the wait group that points to it; there the result is `none`. -/
def commitHead (e : Engine) (s : ShardId) (stat : StatId) (cmd : CmdId) (env : StepEnv) :
    Option (Engine × Option StatId) :=
  match (e.cmds cmd).le with
  | some l =>
    if (e.les l).holder = some cmd then some ((e.popHead s stat).msetFinOneCmd s cmd l env) else none
  | none => none

def runFinStep (e : Engine) (s : ShardId) (rest : List Frame) (queue : List StatId) (n : Nat)
    (env : StepEnv) : Engine :=
  match queue with
  | [] => e.setStack s rest
  | stat :: more =>
    -- a FIN that comes late reads a stat that has been freed
    if (e.stats stat).freed then e.crash
    else match (e.stats stat).shardHeads s with
    | [] => (e.setStack s (.runFin more 0 :: rest)).addFinAck s stat n
    | cmd :: _ =>
      let acks := (e.cmds cmd).totalAcks
      match e.commitHead s stat cmd env with
      | none => e.crash
      | some (e, none) => e.setStack s (.runFin queue (n + acks) :: rest)
      | some (e, some ready) =>
        (e.msetSendFinToRemotes s ready).setStack s (.runFin (queue ++ [ready]) (n + acks) :: rest)

def earlyCommitStep (e : Engine) (s : ShardId) (rest : List Frame) (stat : StatId) (n : Nat)
    (env : StepEnv) : Engine :=
  match (e.stats stat).shardHeads s with
  | [] => (e.setStack s rest).addFinAck s stat n
  | cmd :: _ =>
    let acks := (e.cmds cmd).totalAcks
    match e.commitHead s stat cmd env with
    | none => e.crash
    | some (e, none) => e.setStack s (.earlyCommit stat (n + acks) :: rest)
    | some (e, some ready) => (e.setStack s (.earlyCommit stat (n + acks) :: rest)).msetBroadcastFin s ready

def runRegular (e : Engine) (s : ShardId) (m : RegularReq) (env : StepEnv) : Engine :=
  match e.proxyRun s m env.now with
  | (e, reply) => (e.addOps s).msetCompleteRegularReply s m reply

-- mset_check_lock_defer answers false when it has no memory, and the command runs on the locked key.
def deferRegular (e : Engine) (s : ShardId) (m : RegularReq) (l : LeId) (env : StepEnv) : Engine :=
  if env.cmdInfoAlloc then e.lockWqAddRegular l m env.waitGroupAlloc else e.runRegular s m env

def proxyExec (e : Engine) (s : ShardId) (m : RegularReq) (env : StepEnv) : Engine :=
  match e.lockHolder s m.key with
  | none => e.runRegular s m env
  | some l =>
    match (e.les l).holder with
    | none => e.runRegular s m env
    | some holder =>
      let stat := (e.cmds holder).stat
      if (e.stats stat).ack < (e.stats stat).total then e.deferRegular s m l env
      else (e.pushFrame s (.afterDeferEarly m)).pushFrame s (.earlyCommit stat 0)

def afterDeferEarly (e : Engine) (s : ShardId) (m : RegularReq) (env : StepEnv) : Engine :=
  match e.lockHolder s m.key with
  | none => e.runRegular s m env
  | some l => e.deferRegular s m l env

def arrive (e : Engine) (s : ShardId) (m : RegularReq) : Engine :=
  ({ e with nextArrival := e.nextArrival + 1 } : Engine).pushFrame s
    (.proxyExec { m with arrival := e.nextArrival })

def workStep (e : Engine) (s : ShardId) (frame : Frame) (rest : List Frame) (env : StepEnv) : Engine :=
  match frame with
  | .dispatch stat [] => (e.setStack s rest).sendBatches s stat
  | .dispatch stat (p :: pairs) =>
    let e := e.setStack s (.dispatch stat pairs :: rest)
    if e.shardFor p.key = s then e.msetPrepareKey s stat p s env else e
  | .prepareBatch _ _ [] => e.setStack s rest
  | .prepareBatch stat origin (p :: pairs) =>
    (e.setStack s (.prepareBatch stat origin pairs :: rest)).msetPrepareKey s stat p origin env
  | .afterEarly p => (e.setStack s rest).prepareAfterEarly s p env
  | .wound p => (e.setStack s rest).prepareWound s p env
  | .runFin queue n => e.runFinStep s rest queue n env
  | .earlyCommit stat n => e.earlyCommitStep s rest stat n env
  | .parts [] => e.setStack s rest
  | .parts (m :: ms) =>
    let e := e.setStack s (.parts ms :: rest)
    if e.shardFor m.key = s then e.arrive s m else e.sendTo s (e.shardFor m.key) (.req m)
  | .proxyExec m => (e.setStack s rest).proxyExec s m env
  | .afterDeferEarly m => (e.setStack s rest).afterDeferEarly s m env

def countReceived (e : Engine) (s : ShardId) : Engine :=
  e.updShard s fun sh => { sh with crossShardReceived := sh.crossShardReceived + 1 }

def msetOnAck (e : Engine) (s : ShardId) (conn : ConnId) (pipelineIdx : Nat) : Engine :=
  match ((e.conns conn).slot pipelineIdx).kvObjPtr with
  | .null => e
  | .stat stat =>
    (e.updSlot conn pipelineIdx fun slot => { slot with kvObjPtr := .null }).msetBroadcastFin s stat
  -- a reply object is read as a mset_stat
  | .obj _ => e.crash

def msetOnFinAck (e : Engine) (s : ShardId) (stat : StatId) : Engine :=
  (e.msetSetOkReply s stat).statFreeReal s stat

def handle (e : Engine) (s sender : ShardId) : SpscMessage → Engine
  | .req m => (e.countReceived s).arrive s m
  | .msetKeyBatch stat entries => (e.countReceived s).pushFrame s (.prepareBatch stat sender entries)
  | .msetFin stat => (e.countReceived s).msetRunFin s stat
  | .msetAck conn pipelineIdx _ => e.msetOnAck s conn pipelineIdx
  | .msetFinAck stat => e.msetOnFinAck s stat
  | .reply r => e.proxyReply s sender r
  | .release obj => e.objUnref obj

def setQueue (e : Engine) (sender receiver : ShardId) (messages : List SpscMessage) : Engine :=
  { e with queues := Function.update e.queues sender (Function.update (e.queues sender) receiver messages) }

def idle (e : Engine) (s : ShardId) : Bool := decide (s < e.numShards) && (e.shards s).stack.isEmpty

def clientMset (e : Engine) (s : ShardId) (conn : ConnId) (seq : Nat) (pairs : List Pair) (clock : Nat) :
    Option Engine :=
  let e := e.updSlot conn seq fun slot => { slot with state := .pending }
  if e.msetMaxConcurrent ≤ (e.shards s).msetInflight then
    some ((e.updConn conn fun c => { c with pending := some (seq, pairs) }).updShard s fun sh =>
      { sh with msetPendingConns := sh.msetPendingConns ++ [conn] })
  else if (e.conns conn).clock ≤ clock then some (e.msetCoordinatorDispatch s conn seq pairs clock)
  else none

def clientRequest (e : Engine) (s : ShardId) (conn : ConnId) (seq : Nat) (op : RegularOp) (keys : List Bytes)
    (multi : Bool) : Engine :=
  let requests : List RegularReq := keys.zipIdx.map fun (key, i) =>
    { op := op, key := key, origin := s, conn := conn, pipelineIdx := seq, subIdx := i, rid := e.nextReq + i,
      arrival := 0 }
  let e := e.updSlot conn seq fun slot =>
    { slot with state := .pending, isMulti := multi, multiParts := if multi then keys.length else 0 }
  let started := requests.map fun (m : RegularReq) => Event.start m.rid m.key
  let e := { e with nextReq := e.nextReq + keys.length, history := e.history ++ started }
  e.pushFrame s (.parts requests)

def clientStep (e : Engine) (conn : ConnId) (cmd : ClientCmd) (clock : Nat) : Option Engine :=
  let c := e.conns conn
  let e' := e.updConn conn NetConn.enqueue
  match cmd with
  | .mset pairs =>
    if pairs = [] then none else e'.clientMset c.owner conn c.inSeq (numberPairs pairs) clock
  | .single op key =>
    if op = .mgetPart ∨ op = .delPart then none
    else some (e'.clientRequest c.owner conn c.inSeq op [key] false)
  | .del keys => if keys = [] then none else some (e'.clientRequest c.owner conn c.inSeq .delPart keys true)

def resumeStep (e : Engine) (s : ShardId) (clock : Nat) : Option Engine :=
  match (e.shards s).msetPendingConns with
  | [] => none
  | conn :: conns =>
    match (e.conns conn).pending with
    | none => none
    | some (seq, pairs) =>
      if (e.shards s).msetInflight < e.msetMaxConcurrent ∧ (e.conns conn).clock ≤ clock then
        let e := e.updShard s fun sh => { sh with msetPendingConns := conns }
        let e := e.updConn conn fun c => { c with pending := none }
        some (e.msetCoordinatorDispatch s conn seq pairs clock)
      else none

def step (e : Engine) (action : Action) : Option Engine :=
  if e.fault then none
  else
    match action with
    | .client conn cmd clock =>
      if e.idle (e.conns conn).owner && (e.conns conn).pending.isNone then e.clientStep conn cmd clock
      else none
    | .recv sender receiver =>
      if e.idle receiver then
        match e.queues sender receiver with
        | [] => none
        | m :: messages => some ((e.setQueue sender receiver messages).handle receiver sender m)
      else none
    | .work s env =>
      match (e.shards s).stack with
      | [] => none
      | frame :: rest => some (e.workStep s frame rest env)
    | .flush conn => if e.idle (e.conns conn).owner then e.flushSlot conn else none
    | .resume s clock => if e.idle s then e.resumeStep s clock else none

end Engine

end FreakV
