import FreakV.Store

namespace FreakV

def NetConn.slot (c : NetConn) (seq : Nat) : PipelineSlot := c.slots (seq % c.cap)

def NetConn.setSlot (c : NetConn) (seq : Nat) (slot : PipelineSlot) : NetConn :=
  { c with slots := Function.update c.slots (seq % c.cap) slot }

def NetConn.resize (c : NetConn) : NetConn :=
  let moved := (List.range (c.inSeq - c.outSeq)).foldl (fun slots i =>
    Function.update slots ((c.outSeq + i) % (c.cap * 2)) (c.slot (c.outSeq + i))) fun _ => {}
  { c with slots := moved, cap := c.cap * 2 }

def NetConn.enqueue (c : NetConn) : NetConn :=
  let c := if c.inSeq - c.outSeq = c.cap then c.resize else c
  ({ c with inSeq := c.inSeq + 1 } : NetConn).setSlot c.inSeq {}

def PipelineSlot.answer (slot : PipelineSlot) (subIdx : Nat) (reply : Reply) (owner : ShardId) :
    PipelineSlot :=
  if slot.isMulti then
    if subIdx < slot.multiParts then
      { slot with
        multiReplies := slot.multiReplies ++ [(subIdx, reply)]
        multiReplied := slot.multiReplied + 1
        state := if slot.multiParts ≤ slot.multiReplied + 1 then .done else slot.state }
    else slot
  else
    { slot with
      reply := some reply
      kvObjPtr := match reply.kvObjPtr with
        | some obj => .obj obj
        | none => .null
      shardOwner := owner
      state := .done }

namespace Engine

def updConn (e : Engine) (conn : ConnId) (f : NetConn → NetConn) : Engine :=
  e.setConn conn (f (e.conns conn))

def updSlot (e : Engine) (conn : ConnId) (seq : Nat) (f : PipelineSlot → PipelineSlot) : Engine :=
  e.updConn conn fun c => c.setSlot seq (f (c.slot seq))

/-- Hand the reply of `m` to its client: `mset_complete_regular_reply`, and the same for a command
that was not deferred. -/
def msetCompleteRegularReply (e : Engine) (s : ShardId) (m : RegularReq) (reply : Reply) : Engine :=
  if m.origin = s then
    e.updSlot m.conn m.pipelineIdx fun slot => slot.answer m.subIdx reply s
  else
    e.sendTo s m.origin (.reply { op := m.op, conn := m.conn, pipelineIdx := m.pipelineIdx,
                                  subIdx := m.subIdx, reply := reply })

def proxyReply (e : Engine) (s sender : ShardId) (r : ReplyMsg) : Engine :=
  let c := e.conns r.conn
  if r.pipelineIdx < c.outSeq ∨ c.inSeq ≤ r.pipelineIdx then
    -- the slot is gone: the reply object goes back to its shard
    match r.reply.kvObjPtr with
    | some obj => e.sendTo s sender (.release obj)
    | none => e
  else e.updSlot r.conn r.pipelineIdx fun slot => slot.answer r.subIdx r.reply sender

/-- One round of `net_pipeline_try_flush`: write out the oldest slot if it is answered. -/
def flushSlot (e : Engine) (conn : ConnId) : Option Engine :=
  let c := e.conns conn
  let slot := c.slot c.outSeq
  if c.outSeq < c.inSeq ∧ (slot.state = .localReply ∨ slot.state = .done) then
    let e := match slot.kvObjPtr with
      | .obj obj =>
        if slot.shardOwner = c.owner then e.objUnref obj
        else e.sendTo c.owner slot.shardOwner (.release obj)
      | _ => e
    some (e.updConn conn fun c => { c.setSlot c.outSeq {} with outSeq := c.outSeq + 1 })
  else none

end Engine

end FreakV
