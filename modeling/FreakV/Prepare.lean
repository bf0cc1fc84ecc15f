import FreakV.MsetExec

namespace FreakV.Engine

def failPair (e : Engine) (s : ShardId) (stat : StatId) : Engine :=
  (e.record (.prepareFailed stat)).ackPair s stat

def rollbackTentative (e : Engine) (s : ShardId) (key : Bytes) (keyIsNew : Bool) (newObj : ObjId) :
    Engine :=
  if keyIsNew then
    match e.htBucketGet s key with
    | some tentative => (e.htBucketDelete s key).objDestroy tentative
    | none => e.objDestroy newObj
  else e.objDestroy newObj

def linkCmd (e : Engine) (s : ShardId) (stat : StatId) (p : Pair) (origin : ShardId) (newObj : ObjId)
    (oldObj : Option ObjId) : Engine :=
  let e' := e.setCmd e.nextCmd
    { stat := stat, le := none, newObj := newObj, oldObj := oldObj, subIdx := p.subIdx, totalAcks := 1,
      hash56 := hash56 p.key, originShard := origin, shard := s, arrival := e.nextArrival, done := false }
  let e' := e'.updStat stat fun st =>
    { st with shardHeads := Function.update st.shardHeads s (e.nextCmd :: st.shardHeads s) }
  { e' with nextCmd := e.nextCmd + 1, nextArrival := e.nextArrival + 1 }

def popHead (e : Engine) (s : ShardId) (stat : StatId) : Engine :=
  e.updStat stat fun st => { st with shardHeads := Function.update st.shardHeads s (st.shardHeads s).tail }

def unlinkCmd (e : Engine) (s : ShardId) (stat : StatId) (cmd : CmdId) : Engine :=
  (e.popHead s stat).updCmd cmd fun c => { c with totalAcks := 0, done := true }

def dupAtHolder (e : Engine) (s : ShardId) (stat : StatId) (p : Pair) (newObj : ObjId) (l : LeId)
    (incumbent : CmdId) : Engine :=
  let inc := e.cmds incumbent
  let e := if inc.oldObj = none then
      (e.shardBucketPut s newObj 0).updLe l fun le => { le with objPtr := newObj }
    else e
  let e := (e.objDestroy inc.newObj).updCmd incumbent fun c =>
    { c with newObj := newObj, subIdx := p.subIdx, totalAcks := c.totalAcks + 1 }
  e.ackPair s stat

def dupInQueue (e : Engine) (s : ShardId) (stat : StatId) (p : Pair) (newObj : ObjId) (dup : CmdId) :
    Engine :=
  let d := e.cmds dup
  let e := if d.oldObj = none then
      match e.htBucketGet s p.key with
      | some tentative =>
        let e := ((e.htBucketDelete s p.key).objDestroy tentative).shardBucketPut s newObj 0
        if tentative = d.newObj then e else e.objDestroy d.newObj
      | none => (e.shardBucketPut s newObj 0).objDestroy d.newObj
    else e.objDestroy d.newObj
  let e := e.updCmd dup fun c =>
    { c with newObj := newObj, subIdx := p.subIdx, totalAcks := c.totalAcks + 1 }
  e.ackPair s stat

/-- Case A: no lock entry for the key. The command is linked once it has its entry; the source links it
first, and unlinks and frees it when there is no room for the entry. -/
def prepareFree (e : Engine) (s : ShardId) (stat : StatId) (p : Pair) (origin : ShardId)
    (objPtr : Option ObjId) (newObj lockKey : ObjId) (env : StepEnv) : Engine :=
  if ¬env.cmdInfoAlloc then (e.rollbackTentative s p.key objPtr.isNone newObj).failPair s stat
  else
    let cmd := e.nextCmd
    match e.lockManagerInsert s lockKey (hash56 p.key) cmd env.lockInsert with
    | (e, none) => (e.rollbackTentative s p.key objPtr.isNone newObj).failPair s stat
    | (e, some l) =>
      (((e.linkCmd s stat p origin newObj objPtr).updCmd cmd fun c =>
        { c with le := some l }).htBucketSetLockStatus s p.key true).ackPair s stat

/-- The last branch of `mset_prepare_key`: the command waits for the lock. -/
def prepareWait (e : Engine) (s : ShardId) (p : Prepare) (env : StepEnv) : Engine :=
  let e := if p.keyIsNew then e.htBucketDelete s p.key else e
  ((e.updCmd p.cmd fun c => { c with le := some p.le }).lockWqAddMset p.le p.cmd
    env.waitGroupAlloc).addOps s

def canPreempt (e : Engine) (cmd incumbent : CmdId) : Bool :=
  let inc := e.stats (e.cmds incumbent).stat
  decide (inc.ack < inc.total) && (e.cmdTxn cmd).connPtr != (e.cmdTxn incumbent).connPtr &&
    decide (txnIdCmp (e.cmdTxn cmd) (e.cmdTxn incumbent) < 0)

def woundOrWait (e : Engine) (s : ShardId) (p : Prepare) (env : StepEnv) : Engine :=
  match (e.les p.le).holder with
  | some incumbent =>
    if e.canPreempt p.cmd incumbent then e.pushFrame s (.wound p) else e.prepareWait s p env
  | none => e.prepareWait s p env

def prepareContended (e : Engine) (s : ShardId) (stat : StatId) (p : Pair) (origin : ShardId)
    (objPtr : Option ObjId) (newObj : ObjId) (l : LeId) (env : StepEnv) : Engine :=
  if ¬env.cmdInfoAlloc then (e.rollbackTentative s p.key objPtr.isNone newObj).failPair s stat
  else
    let prepare : Prepare :=
      { stat := stat, cmd := e.nextCmd, le := l, key := p.key, keyIsNew := objPtr.isNone }
    let e := e.linkCmd s stat p origin newObj objPtr
    match (e.les l).holder with
    | some incumbent =>
      let inc := (e.cmds incumbent).stat
      if (e.stats inc).ack = (e.stats inc).total then
        (e.pushFrame s (.afterEarly prepare)).pushFrame s (.earlyCommit inc 0)
      else e.woundOrWait s prepare env
    | none => e.woundOrWait s prepare env

def prepareLock (e : Engine) (s : ShardId) (stat : StatId) (p : Pair) (origin : ShardId)
    (objPtr : Option ObjId) (newObj lockKey : ObjId) (env : StepEnv) : Engine :=
  match e.lockManagerLookup s lockKey (hash56 p.key) with
  | none => e.prepareFree s stat p origin objPtr newObj lockKey env
  | some l =>
    match (e.les l).holder.filter fun incumbent => txnIdEq (e.stats stat).txn (e.cmdTxn incumbent) with
    | some incumbent => e.dupAtHolder s stat p newObj l incumbent
    | none =>
      match e.lockWqFindTxn l (e.stats stat).txn with
      | some dup => e.dupInQueue s stat p newObj dup
      | none => e.prepareContended s stat p origin objPtr newObj l env

def msetPrepareKey (e : Engine) (s : ShardId) (stat : StatId) (p : Pair) (origin : ShardId)
    (env : StepEnv) : Engine :=
  if ¬env.allocNewObj then e.failPair s stat
  else
    let newObj := e.nextObj
    match e.htBucketGet s p.key with
    | some obj => (e.allocObj p.key p.val (some stat)).prepareLock s stat p origin (some obj) newObj obj env
    | none =>
      let e := e.allocObj p.key p.val (some stat)
      if ¬env.htPut then (e.objDestroy newObj).failPair s stat
      else (e.shardBucketPut s newObj 0).prepareLock s stat p origin none newObj newObj env

def lockTarget (e : Engine) (s : ShardId) (p : Prepare) : Engine × ObjId :=
  match e.htBucketGet s p.key with
  | some cur => (e.updCmd p.cmd fun c => { c with oldObj := some cur }, cur)
  | none =>
    let newObj := (e.cmds p.cmd).newObj
    ((e.shardBucketPut s newObj 0).updCmd p.cmd fun c => { c with oldObj := none }, newObj)

/-- `mset_prepare_key` once the early commit of the incumbent is over. -/
def prepareAfterEarly (e : Engine) (s : ShardId) (p : Prepare) (env : StepEnv) : Engine :=
  match (e.les p.le).holder with
  | some _ => e.woundOrWait s p env
  | none =>
    let (e, lockKey) := e.lockTarget s p
    match e.lockManagerInsert s lockKey (hash56 p.key) p.cmd env.lockInsert with
    | (e, none) => (e.unlinkCmd s p.stat p.cmd).failPair s p.stat
    | (e, some l) =>
      ((e.updCmd p.cmd fun c => { c with le := some l }).htBucketSetLockStatus s p.key true).ackPair s p.stat

def woundHolder (e : Engine) (p : Prepare) (incumbent : CmdId) (env : StepEnv) : Engine :=
  let inc := e.cmds incumbent
  let e := e.updStat inc.stat fun st => { st with ack := st.ack - 1 }
  let e := e.updCmd p.cmd fun c => { c with oldObj := inc.oldObj, le := some p.le }
  let e := e.updCmd incumbent fun i => { i with oldObj := some (e.cmds p.cmd).newObj }
  (e.lockWqAddMset p.le incumbent env.waitGroupAlloc).updLe p.le fun le => { le with holder := some p.cmd }

def prepareWound (e : Engine) (s : ShardId) (p : Prepare) (env : StepEnv) : Engine :=
  match (e.les p.le).holder with
  | none => e.prepareWait s p env
  | some incumbent =>
    let st := e.stats (e.cmds incumbent).stat
    if 0 < st.ack ∧ st.ack < st.total then (e.woundHolder p incumbent env).ackPair s p.stat
    else e.prepareWait s p env

end FreakV.Engine
