import FreakV.Net.Pipeline

/-!
# The master flush loop of a reactor

Of the buffers only the lengths are kept. What `write` answers to a connection and what a call of `handle_read_resp`
meets (bytes that arrive, commands that they complete) is up to the environment. A connection that waits with an MSET is
not taken up again inside the loop.
-/

namespace FreakV.EventLoop

open Net

inductive ConnState
  | alive
  | closing
  | dead
deriving DecidableEq

structure Conn where
  fd : Bool := true
  state : ConnState := .alive
  -- `pending_reason` is not CONN_PENDING_NONE
  paused : Bool := false
  -- `rbuf_len - resp.rbuf_parsed`
  unparsed : Nat := 0
  wbufLen : Nat := 0
  wbufSent : Nat := 0
  slots : List PipelineSlot := []

inductive Answer
  -- any positive count that is not more than asked for
  | sent (n : Nat)
  | again
  | error
deriving DecidableEq

inductive Fate
  | parsed
  -- the dispatcher has answered 3: an MSET has to wait
  | paused
  | dead
deriving DecidableEq

/-- What one call of `handle_read_resp` meets: does the peer hang up, the slots of the commands that were completed,
the bytes written without a slot, the bytes left over, the way the call ends, and the slots of connections that were
waiting for one of the commands. -/
structure Heard where
  hangup : Bool := false
  slots : List PipelineSlot := []
  direct : Nat := 0
  unparsed : Nat
  fate : Fate := .parsed
  answered : List (Nat × Nat × PipelineSlot) := []

namespace Conn

def flushSlots : List PipelineSlot → Nat → List PipelineSlot × Nat
  | [], len => ([], len)
  | slot :: rest, len =>
    if slot.Complete then flushSlots rest (len + slot.serialize.length) else (slot :: rest, len)

def pipelineTryFlush (c : Conn) : Conn :=
  { c with slots := (flushSlots c.slots c.wbufLen).1, wbufLen := (flushSlots c.slots c.wbufLen).2 }

def output (c : Conn) : Nat := c.pipelineTryFlush.wbufLen - c.wbufSent

def reads (c : Conn) : Bool := c.fd && !c.paused && 0 < c.unparsed

def hangsUp (c : Conn) (heard : Heard) : Bool := heard.hangup && c.state = .alive

def hear (c : Conn) (heard : Heard) : Conn :=
  { c with
    state := if c.hangsUp heard then .closing else c.state
    slots := c.slots ++ heard.slots
    wbufLen := c.wbufLen + heard.direct
    unparsed := heard.unparsed }

def writeDone (c : Conn) : Conn := { c with wbufLen := 0, wbufSent := 0 }

def cancel (c : Conn) : Conn :=
  if c.paused then
    { c with
      paused := false
      slots := c.slots.dropLast ++ c.slots.getLast?.toList.map fun slot => { slot with state := .done } }
  else c

inductive Written
  | drained
  | again
  | error
deriving DecidableEq

/-- The loop of `net_write_handler`. `k` counts the calls of `write` for this connection; every call that does not end
the loop sends a byte at least. -/
def writeLoop (answer : Nat → Answer) : Nat → Nat → Conn → Conn × Nat × Written
  | 0, k, c => (c, k, .again)
  | fuel + 1, k, c =>
    let c := if c.wbufLen ≤ c.wbufSent then c.writeDone.pipelineTryFlush else c
    if c.wbufLen ≤ c.wbufSent then (c.writeDone, k, .drained)
    else
      match answer k with
      | .sent n => writeLoop answer fuel (k + 1) { c with wbufSent := c.wbufSent + min (n + 1) (c.wbufLen - c.wbufSent) }
      | .again => (c, k + 1, .again)
      | .error => (c, k + 1, .error)

end Conn

/-- `struct reactor`. A connection that was freed is gone from `conns`; `list_type` is the list that holds it. `calls`
counts the calls of `write`, `heard` is what the environment has in store, and `attempted` are the connections that the
loop has tried to flush. -/
structure Reactor where
  conns : Nat → Option Conn
  dirty : List Nat
  dead : List Nat := []
  calls : Nat → Nat := fun _ => 0
  heard : List Heard := []
  attempted : List Nat := []

namespace Reactor

def setConn (r : Reactor) (id : Nat) (c : Conn) : Reactor := { r with conns := Function.update r.conns id (some c) }

def listRemove (r : Reactor) (id : Nat) : Reactor := { r with dirty := r.dirty.erase id, dead := r.dead.erase id }

def markDirty (r : Reactor) (id : Nat) : Reactor :=
  if id ∈ r.dirty then r else { r with dirty := id :: r.dirty, dead := r.dead.erase id }

def markDead (r : Reactor) (id : Nat) (c : Conn) : Reactor :=
  if id ∈ r.dead then r
  else
    let r := (r.listRemove id).setConn id { c.cancel with fd := false, state := .dead }
    { r with dead := id :: r.dead }

def connTryFree (r : Reactor) (id : Nat) (c : Conn) : Reactor :=
  if c.slots ≠ [] then r
  else if c.state = .closing ∧ c.wbufSent < c.wbufLen then r
  else { r.listRemove id with conns := Function.update r.conns id none }

def answerSlot (r : Reactor) (answer : Nat × Nat × PipelineSlot) : Reactor :=
  match r.conns answer.1 with
  | some c => (r.setConn answer.1 { c with slots := c.slots.set answer.2.1 answer.2.2 }).markDirty answer.1
  | none => r

def readDone (r : Reactor) (id : Nat) (fate : Fate) (c : Conn) : Reactor :=
  match fate with
  | .dead => r.markDead id c
  | .paused => (r.setConn id { c with paused := true }).markDirty id
  | .parsed =>
    if c.state = .dead then r
    else
      let c := c.pipelineTryFlush
      let r := r.setConn id c
      if c.slots ≠ [] ∨ 0 < c.wbufLen then r.markDirty id else r

def handleReadResp (r : Reactor) (id : Nat) (c : Conn) : Reactor :=
  let heard := r.heard.headD { unparsed := c.unparsed }
  let r := { r with heard := r.heard.tail }.setConn id (c.hear heard)
  let r := if c.hangsUp heard then r.markDirty id else r
  let r := heard.answered.foldl answerSlot r
  match r.conns id with
  | none => r
  | some c => r.readDone id heard.fate c

def writeEnds (r : Reactor) (id : Nat) (c : Conn) : Conn.Written → Reactor
  | .drained =>
    match c.state with
    | .alive => r.listRemove id
    | .closing => r.connTryFree id c
    | .dead => r
  | .again => r.markDirty id
  | .error => r.markDead id c

def writeHandler (write : Nat → Nat → Answer) (r : Reactor) (id : Nat) (c : Conn) : Reactor :=
  let (c, k, written) := c.writeLoop (write id) (c.output + 1) (r.calls id)
  { r.setConn id c with calls := Function.update r.calls id k }.writeEnds id c written

/-- The last check of a round. Nothing stands for the use of a connection that has been freed. -/
def roundEnds (r : Reactor) (id : Nat) : Option Reactor :=
  match r.conns id with
  | none => none
  | some c => if c.state = .closing then some (r.connTryFree id c) else some r

def flushConn (write : Nat → Nat → Answer) (r : Reactor) (id : Nat) (c : Conn) : Option Reactor :=
  let c := c.pipelineTryFlush
  let r := { r.setConn id c with attempted := id :: r.attempted }
  let r := if c.fd = true ∧ c.wbufSent < c.wbufLen then r.writeHandler write id c else r
  r.roundEnds id

def round (write : Nat → Nat → Answer) (r : Reactor) : Option Reactor :=
  match r.dirty with
  | [] => some r
  | id :: _ =>
    match r.conns id with
    | none => none
    | some c =>
      let r := r.listRemove id
      if c.reads then
        let r := r.handleReadResp id c
        match r.conns id with
        | none => none
        | some c => if c.state = .dead then some { r with attempted := id :: r.attempted } else r.flushConn write id c
      else r.flushConn write id c

def rounds (write : Nat → Nat → Answer) : Nat → Reactor → Option Reactor
  | 0, r => some r
  | n + 1, r => (r.round write).bind (rounds write n)

end Reactor

end FreakV.EventLoop
