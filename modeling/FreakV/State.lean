import FreakV.Txn
import FreakV.Key

namespace FreakV

abbrev ShardId := Nat
abbrev ConnId := Nat
abbrev StatId := Nat
abbrev CmdId := Nat
abbrev LeId := Nat
abbrev ObjId := Nat

structure KvObj where
  key : Bytes := []
  val : Bytes := []
  refcount : Nat := 0
  markedDeletion : Bool := false
  -- ghost: the MSET whose value this is
  writer : Option StatId := none
deriving DecidableEq, Repr, Inhabited

structure Bucket where
  obj : ObjId
  expire : Nat
  locked : Bool
deriving DecidableEq

structure Pair where
  key : Bytes
  val : Bytes
  subIdx : Nat
deriving DecidableEq

inductive SetFlags
  | always
  | nx
  | xx
deriving DecidableEq

inductive SetTtl
  | none
  | span (ms : Nat)
  | keep
deriving DecidableEq

inductive RegularOp
  | get
  | mgetPart
  | exists
  | strlen
  | type
  | ttl (ms : Bool)
  | set (val : Bytes) (flags : SetFlags) (ttl : SetTtl)
  -- EXPIRE and PEXPIRE, in milliseconds from the execution time
  | expireIn (ms : Int)
  -- EXPIREAT and PEXPIREAT, in milliseconds
  | expireAt (ms : Nat)
  | persist
  | delPart
deriving DecidableEq

structure RegularReq where
  op : RegularOp
  key : Bytes
  origin : ShardId
  conn : ConnId
  pipelineIdx : Nat
  subIdx : Nat
  -- ghost: the request's number, and its place in the order in which commands reached shards
  rid : Nat
  arrival : Nat
deriving DecidableEq

inductive Reply
  | err (text : String)
  | nil
  | ok
  | int (n : Int)
  | kvObj (obj : ObjId)
  | buf (text : String)
deriving DecidableEq

def Reply.kvObjPtr : Reply → Option ObjId
  | .kvObj obj => some obj
  | _ => none

structure ReplyMsg where
  op : RegularOp
  conn : ConnId
  pipelineIdx : Nat
  subIdx : Nat
  reply : Reply
deriving DecidableEq

inductive SpscMessage
  | req (m : RegularReq)
  | msetKeyBatch (stat : StatId) (entries : List Pair)
  | msetFin (stat : StatId)
  -- `about` is ghost: MSET_ACK carries only the connection and the pipeline index
  | msetAck (conn : ConnId) (pipelineIdx : Nat) (about : StatId)
  | msetFinAck (stat : StatId)
  | reply (r : ReplyMsg)
  | release (obj : ObjId)
deriving DecidableEq

structure MsetStat where
  ack : Nat
  finAck : Nat
  total : Nat
  txn : TxnId
  connPtr : ConnId
  pipelineIdx : Nat
  coordinatorId : ShardId
  shardHeads : ShardId → List CmdId
  pairs : List Pair
  -- ghost: stat_free_real has run
  freed : Bool

instance : Inhabited MsetStat :=
  ⟨{ ack := 0, finAck := 0, total := 0, txn := default, connPtr := 0, pipelineIdx := 0,
     coordinatorId := 0, shardHeads := fun _ => [], pairs := [], freed := false }⟩

structure CmdInfo where
  stat : StatId
  le : Option LeId
  newObj : ObjId
  oldObj : Option ObjId
  subIdx : Nat
  totalAcks : Nat
  hash56 : Nat
  originShard : ShardId
  -- ghost: the shard it lives on, its place in arrival order, and whether it has been freed
  shard : ShardId
  arrival : Nat
  done : Bool
deriving DecidableEq, Repr, Inhabited

structure WaitGroup where
  regulars : List RegularReq
  anchor : CmdId
deriving DecidableEq

/-- `struct lock_entry`; an open group without commands is a NULL `open_groups` slot. -/
structure LockEntry where
  live : Bool
  shard : ShardId
  objPtr : ObjId
  hash56 : Nat
  holder : Option CmdId
  queue : List WaitGroup
  openGroups : ShardId → List RegularReq

instance : Inhabited LockEntry :=
  ⟨{ live := false, shard := 0, objPtr := 0, hash56 := 0, holder := none, queue := [],
     openGroups := fun _ => [] }⟩

end FreakV
