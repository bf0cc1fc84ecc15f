import FreakV.Lib.Transition
import Mathlib.Data.Nat.Bitwise

/-!
# The queue between two shards

One producer and one consumer share a ring of segments. Every step below is one access to what they share, together with
the private work up to the next such access.
-/

namespace FreakV.Spsc

variable {α : Type}

def spscSegSize : Nat := 4096

def spscSegMask : Nat := spscSegSize - 1

def sizes : Nat := 2 ^ 64

structure Segment (α : Type) where
  next : Nat
  slots : Nat → α

/-- Segments are named in the order in which the slab hands them out: the first `nrSegs` belong to the queue, and what
the others hold is what happens to be in that memory. -/
structure Queue (α : Type) where
  head : Nat
  pSeg : Nat
  tail : Nat
  cSeg : Nat
  cSegShared : Nat
  segs : Nat → Segment α
  nrSegs : Nat

def spscQueueInit (memory : Nat → Segment α) : Queue α where
  head := 0
  pSeg := 0
  tail := 0
  cSeg := 0
  cSegShared := 0
  segs := Function.update memory 0 { memory 0 with next := 0 }
  nrSegs := 1

def crosses (counter : Nat) : Bool :=
  0 < counter && counter &&& spscSegMask = 0

inductive Producer (α : Type) where
  | idle
  | loadNext (msg : α) (h : Nat)
  | loadShared (msg : α) (h nextSeg : Nat)
  | alloc (msg : α) (h nextSeg : Nat)
  | storeNext (msg : α) (h newSeg : Nat)
  | storeSlot (msg : α) (h : Nat)
  | storeHead (msg : α) (h : Nat)

inductive Consumer (α : Type) where
  | idle
  | loadHead (t : Nat)
  | loadNext (t : Nat)
  | storeShared (t : Nat)
  | loadSlot (t : Nat)
  | storeTail (t : Nat) (out : α)

inductive Outcome (α : Type) where
  | running
  | pushed (msg : α)
  | refused
  | popped (msg : α)
  | empty

structure Machine (α : Type) where
  queue : Queue α
  producer : Producer α
  consumer : Consumer α

namespace Queue

def setNext (q : Queue α) (seg next : Nat) : Queue α :=
  { q with segs := Function.update q.segs seg { q.segs seg with next := next } }

def setSlot (q : Queue α) (seg i : Nat) (msg : α) : Queue α :=
  { q with segs := Function.update q.segs seg { q.segs seg with slots := Function.update (q.segs seg).slots i msg } }

def push (q : Queue α) (room : Bool) : Producer α → Option (Queue α × Producer α × Outcome α)
  | .idle => none
  | .loadNext msg h => some (q, .loadShared msg h (q.segs q.pSeg).next, .running)
  | .loadShared msg h nextSeg =>
    if nextSeg = q.cSegShared then some (q, .alloc msg h nextSeg, .running)
    else some ({ q with pSeg := nextSeg }, .storeSlot msg h, .running)
  | .alloc msg h nextSeg =>
    if room then
      some ({ q with nrSegs := q.nrSegs + 1 }.setNext q.nrSegs nextSeg, .storeNext msg h q.nrSegs, .running)
    else some (q, .idle, .refused)
  | .storeNext msg h newSeg => some ({ q.setNext q.pSeg newSeg with pSeg := newSeg }, .storeSlot msg h, .running)
  | .storeSlot msg h => some (q.setSlot q.pSeg (h &&& spscSegMask) msg, .storeHead msg h, .running)
  | .storeHead msg h => some ({ q with head := (h + 1) % sizes }, .idle, .pushed msg)

def pop (q : Queue α) : Consumer α → Option (Queue α × Consumer α × Outcome α)
  | .idle => none
  | .loadHead t =>
    if t = q.head then some (q, .idle, .empty)
    else if crosses t then some (q, .loadNext t, .running)
    else some (q, .loadSlot t, .running)
  | .loadNext t => some ({ q with cSeg := (q.segs q.cSeg).next }, .storeShared t, .running)
  | .storeShared t => some ({ q with cSegShared := q.cSeg }, .loadSlot t, .running)
  | .loadSlot t => some (q, .storeTail t ((q.segs q.cSeg).slots (t &&& spscSegMask)), .running)
  | .storeTail t out => some ({ q with tail := (t + 1) % sizes }, .idle, .popped out)

end Queue

inductive Action (α : Type) where
  | callPush (msg : α)
  | push (room : Bool)
  | callPop
  | pop

namespace Machine

def init (memory : Nat → Segment α) : Machine α := ⟨spscQueueInit memory, .idle, .idle⟩

def step (m : Machine α) : Action α → Option (Machine α × Outcome α)
  | .callPush msg =>
    match m.producer with
    | .idle =>
      let h := m.queue.head
      some ({ m with producer := if crosses h then .loadNext msg h else .storeSlot msg h }, .running)
    | _ => none
  | .push room =>
    (m.queue.push room m.producer).map fun (q, producer, outcome) =>
      ({ m with queue := q, producer := producer }, outcome)
  | .callPop =>
    match m.consumer with
    | .idle => some ({ m with consumer := .loadHead m.queue.tail }, .running)
    | _ => none
  | .pop =>
    (m.queue.pop m.consumer).map fun (q, consumer, outcome) => ({ m with queue := q, consumer := consumer }, outcome)

def turn (m : Machine α) : Action α :=
  match m.consumer with
  | .idle => .callPop
  | _ => .pop

def popAlone : Nat → Machine α → Option (α × Machine α)
  | 0, _ => none
  | fuel + 1, m =>
    match m.step m.turn with
    | some (m', .popped msg) => some (msg, m')
    | some (m', .running) => popAlone fuel m'
    | _ => none

def drain : Nat → Machine α → List α
  | 0, _ => []
  | n + 1, m =>
    match m.popAlone 6 with
    | some (msg, m') => msg :: drain n m'
    | none => []

def count (m : Machine α) : Nat := (m.queue.head + sizes - m.queue.tail) % sizes

def content (m : Machine α) : List α := m.drain m.count

end Machine

/-- A machine with its past: the messages of the pushes and pops that have returned, the segment each message was put
into, and how many pushes had returned when the present pop was called. -/
structure Run (α : Type) where
  machine : Machine α
  pushed : List α := []
  popped : List α := []
  placed : List Nat := []
  before : Nat := 0

namespace Run

def init (memory : Nat → Segment α) : Run α := { machine := .init memory }

def record (s : Run α) : Outcome α → Run α
  | .pushed msg => { s with pushed := s.pushed ++ [msg], placed := s.placed ++ [s.machine.queue.pSeg] }
  | .popped msg => { s with popped := s.popped ++ [msg] }
  | _ => s

def called (s : Run α) : Action α → Run α
  | .callPop => { s with before := s.pushed.length }
  | _ => s

def step (s : Run α) (a : Action α) : Option (Run α) :=
  (s.machine.step a).map fun (m, outcome) => { s.called a with machine := m }.record outcome

end Run

end FreakV.Spsc
