import FreakV.LockManager
import FreakV.Pipeline

namespace FreakV

/-- What re-reading a request finds once `proxy_exec` has written the reply over it. -/
inductive Misread
  | fault
  | nothing
  | key (key : Bytes)
deriving DecidableEq

structure StepEnv where
  now : Nat := 0
  allocNewObj : Bool := true
  htPut : Bool := true
  cmdInfoAlloc : Bool := true
  lockInsert : Bool := true
  waitGroupAlloc : Bool := true
  misread : Misread := .nothing
deriving DecidableEq

namespace Engine

def updStat (e : Engine) (stat : StatId) (f : MsetStat → MsetStat) : Engine :=
  e.setStat stat (f (e.stats stat))

def updCmd (e : Engine) (cmd : CmdId) (f : CmdInfo → CmdInfo) : Engine :=
  e.setCmd cmd (f (e.cmds cmd))

def updLe (e : Engine) (l : LeId) (f : LockEntry → LockEntry) : Engine :=
  e.setLe l (f (e.les l))

def crash (e : Engine) : Engine := { e with fault := true }

def msetSetOkReply (e : Engine) (s : ShardId) (stat : StatId) : Engine :=
  let st := e.stats stat
  (e.updSlot st.connPtr st.pipelineIdx fun slot =>
    { slot with state := .localReply, reply := some .ok, kvObjPtr := .null }).record (.okReply stat s)

def statFreeReal (e : Engine) (s : ShardId) (stat : StatId) : Engine :=
  ((e.updShard s fun sh => { sh with msetInflight := sh.msetInflight - 1 }).updStat stat fun st =>
    { st with freed := true }).record (.statFree stat s)

def trySendAck (e : Engine) (s : ShardId) (stat : StatId) : Engine × Option StatId :=
  let st := e.stats stat
  let e := e.setStat stat { st with ack := st.ack + 1 }
  if st.ack + 1 ≠ st.total then (e, none)
  else if st.coordinatorId = s then (e, some stat)
  else (e.sendTo s st.coordinatorId (.msetAck st.connPtr st.pipelineIdx stat), none)

def msetSendFinToRemotes (e : Engine) (s : ShardId) (stat : StatId) : Engine :=
  let st := e.stats stat
  if st.coordinatorId ≠ s then e
  else e.send s fun d => if d < e.numShards ∧ d ≠ s ∧ st.shardHeads d ≠ [] then [.msetFin stat] else []

def msetRunFin (e : Engine) (s : ShardId) (stat : StatId) : Engine :=
  (e.msetSendFinToRemotes s stat).pushFrame s (.runFin [stat] 0)

def msetBroadcastFin (e : Engine) (s : ShardId) (stat : StatId) : Engine :=
  let st := e.stats stat
  (e.updSlot st.connPtr st.pipelineIdx fun slot => { slot with kvObjPtr := .null }).msetRunFin s stat

/-- The end of `mset_prepare_key` for an acknowledged pair, and what its callers do with the result. -/
def ackPair (e : Engine) (s : ShardId) (stat : StatId) : Engine :=
  match (e.addOps s).trySendAck s stat with
  | (e, some ready) => e.msetBroadcastFin s ready
  | (e, none) => e

-- proxy_exec leaves the reply where the request was. What mset_reanchor_lock_after_regular then takes
-- for the key of a part request is the connection, with the reply buffer's address as its length; of
-- the other commands it reads arglen through kv_obj_ptr, which is NULL unless a GET found its key.
def rereadKey (m : RegularReq) (reply : Reply) (env : StepEnv) : Misread :=
  match m.op with
  | .mgetPart => .nothing
  | .delPart => env.misread
  | _ => if reply.kvObjPtr.isSome ∨ env.misread = .nothing then .nothing else .fault

def msetReanchorLockAfterRegular (e : Engine) (s : ShardId) (l : LeId) (m : RegularReq) (reply : Reply)
    (env : StepEnv) : Engine :=
  match rereadKey m reply env with
  | .fault => e.crash
  | .nothing => e
  | .key key =>
    match e.htBucketGet s key with
    | none => e
    | some cur => (e.updLe l fun le => { le with objPtr := cur }).htBucketSetLockStatus s key true

def lockHolder (e : Engine) (s : ShardId) (key : Bytes) : Option LeId :=
  match (e.shards s).table key with
  | none => none
  | some b =>
    if b.locked then
      (e.lockManagerLookup s b.obj (hash56 key)).filter fun l => (e.les l).holder.isSome
    else none

-- One regular command of the drain. The key's own entry has no holder now, so the lock check lets it
-- pass; a second held entry for the key would send proxy_exec back into the wait queue or into a
-- nested commit, and the model stops there.
def drainRegular (e : Engine) (s : ShardId) (l : LeId) (env : StepEnv) (m : RegularReq) : Engine :=
  match e.lockHolder s m.key with
  | some _ => e.crash
  | none =>
    match e.proxyRun s m env.now with
    | (e, reply) =>
      ((e.addOps s).msetReanchorLockAfterRegular s l m reply env).msetCompleteRegularReply s m reply

def drainRegulars (e : Engine) (s : ShardId) (l : LeId) (env : StepEnv) (ms : List RegularReq) : Engine :=
  ms.foldl (fun e m => e.drainRegular s l env m) e

def msetDrainWaitqueue (e : Engine) (s : ShardId) (l : LeId) (env : StepEnv) : Engine × Option StatId :=
  match (e.les l).queue with
  | group :: rest =>
    let e := (e.updLe l fun le => { le with queue := rest }).drainRegulars s l env group.regulars
    let e := e.updLe l fun le => { le with holder := some group.anchor }
    let e := e.updCmd group.anchor fun c => { c with oldObj := e.htBucketGet s (e.objs c.newObj).key }
    e.trySendAck s (e.cmds group.anchor).stat
  | [] =>
    let waiting := (List.range e.numShards).flatMap (e.les l).openGroups
    ((e.updLe l fun le => { le with openGroups := fun _ => [] }).drainRegulars s l env waiting, none)

-- Steps 1 and 3 of mset_fin_one_cmd: put the new object in place and let go of the lock.
def finSwap (e : Engine) (s : ShardId) (cmd : CmdId) (l : LeId) : Engine :=
  let c := e.cmds cmd
  let key := (e.objs c.newObj).key
  let e := if e.htBucketGet s key = some c.newObj then e
    else ((e.shardBucketPut s c.newObj 0).updLe l fun le => { le with objPtr := c.newObj }).objDestroyOpt
      c.oldObj
  (e.updLe l fun le => { le with holder := none }).record
    (.commit cmd c.stat key c.originShard c.arrival c.newObj)

-- Steps 5 and 6: the lock bit, and the entry's end when nobody was promoted. A drain that promotes
-- nobody has emptied all groups, so has_waiters is false there.
def finRelease (e : Engine) (s : ShardId) (cmd : CmdId) (l : LeId) : Engine :=
  let c := e.cmds cmd
  let key := (e.objs c.newObj).key
  let e := match (e.les l).holder with
    | some _ => e.htBucketSetLockStatus s key true
    | none => (e.htBucketSetLockStatus s key false).lockManagerRemove s (e.les l).objPtr c.hash56
  e.updCmd cmd fun c => { c with done := true }

def msetFinOneCmd (e : Engine) (s : ShardId) (cmd : CmdId) (l : LeId) (env : StepEnv) :
    Engine × Option StatId :=
  match (e.finSwap s cmd l).msetDrainWaitqueue s l env with
  | (e, ready) => (e.finRelease s cmd l, ready)

end Engine

end FreakV
