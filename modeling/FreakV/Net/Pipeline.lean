import FreakV.Key
import FreakV.Lib.Window

namespace FreakV.Net

open Window

inductive SlotState
  | empty
  | localReply
  | pending
  | done
deriving DecidableEq

inductive ReplyType
  | none
  | ok
  | nil
  | int
  | err
  | buf
  | pong
  | kvObj
  | bufStatic
deriving DecidableEq

inductive Parent
  | none
  | mgetPart
  | msetPart
  | delPart
  | dbsize
deriving DecidableEq

-- What net_slot_write_to_wbuf reads of the shard of its reactor.
structure OwnShard where
  id : Nat := 0
  used : UInt64 := 0
deriving DecidableEq

/-- `struct net_pipeline_slot`. A buffer stands for its pointer and length, an object for its value. -/
structure PipelineSlot where
  state : SlotState := .empty
  replyType : ReplyType := .none
  replyInt : Int := 0
  replyData : Option Bytes := none
  kvObj : Option Bytes := none
  isMulti : Bool := false
  parent : Parent := .none
  multiParts : Nat := 0
  multiReplied : Nat := 0
  multiReplies : List (Option Bytes) := []
  -- there is no such array for DEL and DBSIZE
  multiKvObjs : Option (List (Option Bytes)) := none
  -- The shard as it will be when the slot is written, which happens once.
  own : OwnShard := {}
deriving DecidableEq

structure Reply where
  replyType : ReplyType
  replyInt : Int := 0
  replyBuf : Option Bytes := none
  kvObj : Option Bytes := none
  subIdx : Nat := 0
deriving DecidableEq

def ascii (text : String) : Bytes := text.toList.map fun c => UInt8.ofNat c.toNat

def digitsOf (n : Nat) : Bytes := ascii (toString n)

namespace PipelineSlot

section Serialize

def skipBlanks : Bytes → Bytes
  | b :: rest => if b = 32 ∨ (9 ≤ b ∧ b ≤ 13) then skipBlanks rest else b :: rest
  | [] => []

def leadingNumber (val : Nat) : Bytes → Nat
  | b :: rest => if 48 ≤ b ∧ b ≤ 57 then leadingNumber (val * 10 + (b.toNat - 48)) rest else val
  | [] => val

def strtoll (text : Bytes) : Int :=
  match skipBlanks text with
  | 45 :: rest => max (-(leadingNumber 0 rest : Int)) (-2 ^ 63)
  | 43 :: rest => min (leadingNumber 0 rest : Int) (2 ^ 63 - 1)
  | rest => min (leadingNumber 0 rest : Int) (2 ^ 63 - 1)

def partCount : Option Bytes → Int
  | some reply => if 3 < reply.length then strtoll ((reply.drop 1).take (min (reply.length - 3) 31)) else 0
  | none => 0

def delSum (slot : PipelineSlot) : Int :=
  slot.multiReplies.foldl (fun sum part => (sum + partCount part).bmod (2 ^ 64)) 0

-- For a reply of its own that is missing, the shard counts its table.
def dbsizeCount (own : OwnShard) (j : Nat) (part : Option Bytes) : Int :=
  if part.any fun reply => 3 < reply.length then partCount part
  else if j = own.id then (own.used.toNat : Int).bmod (2 ^ 64)
  else 0

def dbsizeSum (slot : PipelineSlot) : Int :=
  slot.multiReplies.zipIdx.foldl (fun sum part => (sum + dbsizeCount slot.own part.2 part.1).bmod (2 ^ 64)) 0

def countLine (total : Int) : Bytes := ascii ":" ++ digitsOf (total % 2 ^ 64).toNat ++ ascii "\r\n"

def bulk (value : Bytes) : Bytes := ascii "$" ++ digitsOf value.length ++ ascii "\r\n" ++ value ++ ascii "\r\n"

def mgetPart (reply kvObj : Option Bytes) : Bytes :=
  match reply, kvObj with
  | some data, _ => data
  | none, some value => bulk value
  | none, none => ascii "$-1\r\n"

def serialize (slot : PipelineSlot) : Bytes :=
  if slot.isMulti then
    match slot.parent with
    | .msetPart => slot.replyData.getD []
    | .delPart => countLine slot.delSum
    | .dbsize => countLine slot.dbsizeSum
    | _ =>
      let objs := slot.multiKvObjs.getD []
      slot.replyData.getD [] ++ (slot.multiReplies.zipWith mgetPart objs).flatten
  else
    match slot.replyType with
    | .ok => ascii "+OK\r\n"
    | .nil => ascii "$-1\r\n"
    | .pong => ascii "+PONG\r\n"
    | .int => ascii ":" ++ (if slot.replyInt < 0 then ascii "-" else []) ++ digitsOf slot.replyInt.natAbs ++ ascii "\r\n"
    | .err => ascii "-ERR " ++ slot.replyData.getD [] ++ ascii "\r\n"
    | .buf | .bufStatic => slot.replyData.getD []
    | .kvObj => (slot.kvObj.map bulk).getD []
    | .none => []

end Serialize

def Complete (slot : PipelineSlot) : Prop := slot.state = .localReply ∨ slot.state = .done

instance (slot : PipelineSlot) : Decidable slot.Complete := inferInstanceAs (Decidable (_ ∨ _))

def fill (slot : PipelineSlot) (m : Reply) (state : SlotState) : PipelineSlot :=
  { slot with
    replyType := m.replyType
    replyInt := m.replyInt
    replyData := m.replyBuf
    kvObj := m.kvObj
    state := state }

def storePart (slot : PipelineSlot) (m : Reply) : PipelineSlot :=
  if m.subIdx < slot.multiParts then
    { slot with
      multiReplies := slot.multiReplies.set m.subIdx m.replyBuf
      multiKvObjs := slot.multiKvObjs.map fun objs => objs.set m.subIdx m.kvObj
      multiReplied := slot.multiReplied + 1 }
  else slot

def finish (slot : PipelineSlot) : PipelineSlot :=
  if slot.multiParts ≤ slot.multiReplied then { slot with state := .done } else slot

def answer (slot : PipelineSlot) (m : Reply) : PipelineSlot :=
  if slot.isMulti then
    if m.subIdx < slot.multiParts then (slot.storePart m).finish else slot
  else slot.fill m .done

def msetOk (slot : PipelineSlot) : PipelineSlot :=
  { slot with
    state := .localReply
    replyType := .bufStatic
    replyData := some (ascii "+OK\r\n")
    kvObj := none }

end PipelineSlot

inductive Dispatch
  -- `resp_dispatch` has filled the slot or written `text`
  | answered (reply : Reply) (text : Bytes)
  -- `proxy_exec_local_key`
  | executed (reply : Reply)
  | sent
  | mset
  -- MGET, DEL and DBSIZE, with the parts that are answered in the call
  | multi (parent : Parent) (parts : Nat) (answers : List Reply) (own : OwnShard := {})
deriving DecidableEq

def PipelineSlot.dispatch (slot : PipelineSlot) : Dispatch → PipelineSlot
  | .answered reply text =>
    let slot := slot.fill reply .localReply
    if text ≠ [] then { slot with replyData := some text, replyType := .buf } else slot
  | .executed reply => slot.fill reply .done
  | .sent => { slot with state := .pending }
  | .mset => { slot with state := .pending, parent := .msetPart, kvObj := none }
  | .multi parent parts answers own =>
    let slot :=
      { slot with
        state := .pending
        isMulti := true
        parent := parent
        multiParts := parts
        multiReplied := 0
        replyData := if parent = .mgetPart then some (ascii "*" ++ digitsOf parts ++ ascii "\r\n") else slot.replyData
        multiReplies := List.replicate parts none
        multiKvObjs := if parent = .mgetPart then some (List.replicate parts none) else none
        own := own }
    (answers.foldl storePart slot).finish

structure ProxyPipeline where
  slots : Nat → PipelineSlot
  cap : UInt32
  inSeq : UInt32
  outSeq : UInt32

namespace ProxyPipeline

def slot (pp : ProxyPipeline) (seq : UInt32) : PipelineSlot := pp.slots (place pp.cap seq)

def setSlot (pp : ProxyPipeline) (seq : UInt32) (slot : PipelineSlot) : ProxyPipeline :=
  { pp with slots := Function.update pp.slots (place pp.cap seq) slot }

def copySlots (pp : ProxyPipeline) (newCap : UInt32) : Nat → UInt32 → (Nat → PipelineSlot) → Nat → PipelineSlot
  | 0, _, ns => ns
  | rounds + 1, seq, ns =>
    if seq = pp.inSeq then ns
    else copySlots pp newCap rounds (seq + 1) (Function.update ns (place newCap seq) (pp.slot seq))

def pipelineResize (pp : ProxyPipeline) : ProxyPipeline :=
  { pp with
    slots := pp.copySlots (pp.cap * 2) (pp.inSeq - pp.outSeq).toNat pp.outSeq fun _ => {}
    cap := pp.cap * 2 }

def pipelineEnqueue (pp : ProxyPipeline) : ProxyPipeline × UInt32 :=
  let pp := if pp.inSeq - pp.outSeq = pp.cap then pp.pipelineResize else pp
  ({ pp with inSeq := pp.inSeq + 1 }.setSlot pp.inSeq {}, pp.inSeq)

end ProxyPipeline

/-- A connection. `wbuf` keeps the bytes that were written to the socket. -/
structure Conn where
  proxy : ProxyPipeline
  wbuf : Bytes

namespace Conn

/-- The loop of `net_pipeline_try_flush`, which ends after `in - out` rounds at the latest. -/
def flushRounds : Nat → Conn → Conn
  | 0, c => c
  | rounds + 1, c =>
    if c.proxy.outSeq = c.proxy.inSeq then c
    else
      let slot := c.proxy.slot c.proxy.outSeq
      if slot.Complete then
        flushRounds rounds
          { proxy := { c.proxy.setSlot c.proxy.outSeq {} with outSeq := c.proxy.outSeq + 1 }
            wbuf := c.wbuf ++ slot.serialize }
      else c

def pipelineTryFlush (c : Conn) : Conn := flushRounds (c.proxy.inSeq - c.proxy.outSeq).toNat c

def updSlot (c : Conn) (seq : UInt32) (f : PipelineSlot → PipelineSlot) : Conn :=
  { c with proxy := c.proxy.setSlot seq (f (c.proxy.slot seq)) }

/-- The part of `net_reactor_proxy_reply_callback` that is not about MSET. -/
def proxyReplyCallback (c : Conn) (seq : UInt32) (m : Reply) : Conn :=
  if (seq - c.proxy.outSeq).toInt32 < 0 ∨ ¬(seq - c.proxy.inSeq).toInt32 < 0 then c
  else c.updSlot seq fun slot => slot.answer m

end Conn

inductive Op
  | enqueue
  | dispatch (seq : UInt32) (d : Dispatch)
  | reply (seq : UInt32) (m : Reply)
  | deferredReply (seq : UInt32) (m : Reply)
  | msetOk (seq : UInt32)
  | flush
deriving DecidableEq

def Conn.step (c : Conn) : Op → Conn
  | .enqueue => { c with proxy := c.proxy.pipelineEnqueue.1 }
  | .dispatch seq d => c.updSlot seq fun slot => slot.dispatch d
  | .reply seq m => c.proxyReplyCallback seq m
  | .deferredReply seq m => c.updSlot seq fun slot => slot.answer m
  | .msetOk seq => c.updSlot seq PipelineSlot.msetOk
  | .flush => c.pipelineTryFlush

end FreakV.Net
