import FreakV.Key

namespace FreakV.Resp

/-- `struct net_buf`. `data` is what reads have put into it so far, with the bytes a rewind has left behind. -/
structure NetBuf where
  cap : Nat
  data : Bytes
deriving DecidableEq

structure Slice where
  buf : Nat
  off : Nat
  len : Nat
deriving DecidableEq

inductive ParseState
  | arrayLen
  | bulkLen
  | bulkData
deriving DecidableEq

inductive Status
  | alive
  | dead
  | hung
deriving DecidableEq

inductive Fate
  | answered
  | sent
  | paused
deriving DecidableEq

structure Env where
  bufAlloc : Nat → Bool
  argvAlloc : Nat → Bool
  slotAlloc : Nat → Bool
  fate : Nat → Fate

/-- `struct net_conn` and its `struct resp_parser`. `argv` holds the `argc_got` arguments of the current command,
`enqueued` counts the calls of `net_pipeline_enqueue`. -/
structure Conn where
  bufs : Nat → NetBuf
  nb : Nat
  rbufLen : Nat
  rbufParsed : Nat
  cmdStart : Nat
  state : ParseState
  argcExpected : Int
  argv : List Slice
  argvCap : Int
  bulkLen : Int
  enqueued : Nat
  status : Status
  pending : Bool

/-- What the parser does that others can see. A dispatch carries the bytes its slices hold at that moment, and the
buffer with the number of bytes received in it. -/
inductive Event
  | store (idx : Nat) (cap : Int)
  | dispatch (argv : List Slice) (text : List Bytes) (nb received : Nat) (fate : Fate)
  | pong
deriving DecidableEq

-- int and size_t
def toInt (x : Int) : Int := x.bmod (2 ^ 32)
def toSize (x : Int) : Nat := (x % 2 ^ 64).toNat

def respRbufInit : Nat := 4096

namespace Conn

def accept : Conn :=
  { bufs := fun _ => { cap := respRbufInit, data := [] }, nb := 0, rbufLen := 0, rbufParsed := 0, cmdStart := 0,
    state := .arrayLen, argcExpected := 0, argv := [], argvCap := 0, bulkLen := 0, enqueued := 0, status := .alive,
    pending := false }

def buf (c : Conn) : NetBuf := c.bufs c.nb

def received (c : Conn) : Bytes := c.buf.data.take c.rbufLen

def text (c : Conn) (s : Slice) : Bytes := ((c.bufs s.buf).data.drop s.off).take s.len

def markDead (c : Conn) : Conn := { c with status := .dead }

-- The loop of net_rbuf_grow. Sizes stay far below the range of size_t.
def growCap : Nat → Nat → Nat → Nat
  | 0, newcap, _ => newcap
  | fuel + 1, newcap, minCap => if newcap < minCap then growCap fuel (newcap * 2) minCap else newcap

def moveBuffer (c : Conn) (newcap : Nat) : Conn :=
  { c with
    bufs := Function.update c.bufs (c.nb + 1) { cap := newcap, data := c.received.drop c.cmdStart }
    nb := c.nb + 1
    argv := c.argv.map fun s => { s with buf := c.nb + 1, off := s.off - c.cmdStart }
    rbufLen := c.rbufLen - c.cmdStart
    rbufParsed := c.rbufParsed - c.cmdStart
    cmdStart := 0 }

def rbufGrow (env : Env) (c : Conn) (need : Nat) : Conn :=
  if c.rbufLen + need ≤ c.buf.cap then c
  else
    let partialLen := c.rbufLen - c.cmdStart
    let minCap := partialLen + need
    let newcap := growCap minCap (if c.buf.cap ≠ 0 then c.buf.cap * 2 else respRbufInit) minCap
    if env.bufAlloc (c.nb + 1) then c.moveBuffer newcap else c.markDead

def makeRoom (env : Env) (c : Conn) : Conn :=
  if c.buf.cap - c.rbufLen < 1024 then c.rbufGrow env 4096 else c

def append (c : Conn) (bytes : Bytes) : Conn :=
  let data := c.buf.data.take c.rbufLen ++ bytes ++ c.buf.data.drop (c.rbufLen + bytes.length)
  { c with bufs := Function.update c.bufs c.nb { c.buf with data := data }, rbufLen := c.rbufLen + bytes.length }

def readLoop (env : Env) : List Bytes → Conn → Option Conn
  | [], c => some (c.makeRoom env)
  | bytes :: rest, c =>
    let c := c.makeRoom env
    if c.status = .dead then some c
    else if bytes = [] ∨ c.buf.cap - c.rbufLen < bytes.length then none
    else readLoop env rest (c.append bytes)

def parserReset (c : Conn) : Conn :=
  let c :=
    if c.rbufLen ≤ c.rbufParsed then { c with rbufLen := 0, rbufParsed := 0, cmdStart := 0 }
    else { c with cmdStart := c.rbufParsed }
  { c with state := .arrayLen, argcExpected := 0, argv := [], bulkLen := 0 }

end Conn

/-- The value of a length line, and how many bytes it takes with its CRLF. Any byte from '0' on counts as a digit,
and the last received byte is never looked at as one. -/
def readNumber (val : Int) (used : Nat) : Bytes → Option (Int × Nat)
  | b :: c :: rest =>
    if 48 ≤ b then readNumber (toInt (val * 10 + ((b.toNat : Int) - 48))) (used + 1) (c :: rest)
    else if b = 13 ∧ c = 10 then some (val, used + 2)
    else none
  | _ => none

-- The loop of resp_argv_ensure; once the capacity has become 0 it never ends.
def doubleUntil : Nat → Int → Int → Option Int
  | 0, _, _ => none
  | fuel + 1, newcap, needed => if newcap < needed then doubleUntil fuel (toInt (newcap * 2)) needed else some newcap

def argvEnsure (argvCap needed : Int) : Option Int :=
  if needed ≤ argvCap then some argvCap
  else doubleUntil 33 (if argvCap ≠ 0 then toInt (argvCap * 2) else 8) needed

def toLower (b : UInt8) : UInt8 := if 65 ≤ b ∧ b ≤ 90 then b + 32 else b

structure Round where
  conn : Conn
  events : List Event := []
  again : Bool

namespace Conn

def pipelineEnqueue (env : Env) (c : Conn) : Conn × Option Nat :=
  if env.slotAlloc c.enqueued then
    let seq := c.enqueued % 2 ^ 32
    ({ c with enqueued := c.enqueued + 1 }, if seq = 2 ^ 32 - 1 then none else some seq)
  else (c, none)

def inlinePing (env : Env) (c : Conn) (rest : Bytes) : Round :=
  if (rest.take 4).map toLower = [112, 105, 110, 103] then
    let (c, _) := c.pipelineEnqueue env
    let blank := (rest.drop 4).takeWhile fun b => b = 13 || b = 10
    { conn := { c with rbufParsed := c.rbufParsed + 4 + blank.length }, events := [.pong], again := true }
  else { conn := c.markDead, again := false }

def parseArrayLen (env : Env) (c : Conn) (rest : Bytes) : Round :=
  if rest.take 2 = [13, 10] then { conn := { c with rbufParsed := c.rbufParsed + 2 }, again := true }
  else if rest.head? = some 13 then { conn := c, again := false }
  else
    let c := { c with cmdStart := c.rbufParsed }
    if rest.head? ≠ some 42 then c.inlinePing env rest
    else
      match readNumber 0 0 rest.tail with
      | none => { conn := c, again := false }
      | some (val, used) =>
        let c := { c with rbufParsed := c.rbufParsed + 1 + used, argcExpected := val, argv := [] }
        match argvEnsure c.argvCap val with
        | none => { conn := { c with status := .hung }, again := false }
        | some newcap =>
          if newcap ≠ c.argvCap ∧ ¬env.argvAlloc c.enqueued then { conn := c.markDead, again := false }
          else { conn := { c with argvCap := newcap, state := .bulkLen }, again := true }

def parseBulkLen (c : Conn) (rest : Bytes) : Round :=
  if rest.head? ≠ some 36 then { conn := c.markDead, again := false }
  else
    match readNumber 0 0 rest.tail with
    | none => { conn := c, again := false }
    | some (val, used) =>
      { conn := { c with rbufParsed := c.rbufParsed + 1 + used, bulkLen := val, state := .bulkData }, again := true }

def commandComplete (env : Env) (c : Conn) : Round :=
  match c.pipelineEnqueue env with
  | (c', none) => { conn := c'.markDead, again := false }
  | (c', some _) =>
    let fate := env.fate c.enqueued
    { conn := { c'.parserReset with pending := c'.pending || fate = .paused }
      events := [.dispatch c.argv (c.argv.map c.text) c.nb c.rbufLen fate]
      again := fate ≠ .paused }

def parseBulkData (env : Env) (c : Conn) (rest : Bytes) : Round :=
  let need := (toSize c.bulkLen + 2) % 2 ^ 64
  if rest.length < need then { conn := c, again := false }
  else
    let stored := Event.store c.argv.length c.argvCap
    let c := { c with
      argv := c.argv ++ [Slice.mk c.nb c.rbufParsed (toSize c.bulkLen)]
      rbufParsed := c.rbufParsed + need }
    if c.argcExpected ≤ c.argv.length then
      let round := c.commandComplete env
      { round with events := stored :: round.events }
    else { conn := { c with state := .bulkLen }, events := [stored], again := true }

def parseRound (env : Env) (c : Conn) : Round :=
  let rest := c.received.drop c.rbufParsed
  match c.state with
  | .arrayLen => c.parseArrayLen env rest
  | .bulkLen => c.parseBulkLen rest
  | .bulkData => c.parseBulkData env rest

def parseRounds (env : Env) : Nat → Conn → Conn × List Event
  | 0, c => (c, [])
  | fuel + 1, c =>
    if c.rbufParsed < c.rbufLen then
      let round := c.parseRound env
      if round.again then
        let (c, events) := parseRounds env fuel round.conn
        (c, round.events ++ events)
      else (round.conn, round.events)
    else (c, [])

def work (c : Conn) : Nat := 2 * (c.rbufLen - c.rbufParsed) + (if c.state = .bulkData then 1 else 0)

def parseLoop (env : Env) (c : Conn) : Conn × List Event := c.parseRounds env (c.work + 1)

end Conn

inductive ReadEnd
  | drained
  | error
deriving DecidableEq

def Conn.handleRead (env : Env) (c : Conn) (reads : List Bytes) (ending : ReadEnd) : Option (Conn × List Event) :=
  if c.status ≠ .alive ∨ c.pending then none
  else
    (c.readLoop env reads).map fun c =>
      if c.status = .dead then (c, [])
      else
        match ending with
        | .error => (c.markDead, [])
        | .drained => c.parseLoop env

inductive Act
  | read (reads : List Bytes) (ending : ReadEnd)
  | resume
deriving DecidableEq

def Conn.act (env : Env) (c : Conn) : Act → Option (Conn × List Event)
  | .read reads ending => c.handleRead env reads ending
  | .resume => if c.pending then some ({ c with pending := false }, []) else none

def Conn.step (env : Env) (c : Conn) (a : Act) : Option Conn := (c.act env a).map Prod.fst

end FreakV.Resp
