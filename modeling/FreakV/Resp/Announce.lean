import FreakV.Commands.Model
import FreakV.Resp.Bounds
import FreakV.Shards

namespace FreakV.Resp

open Commands (Dispatcher Arg)
open Shards

/-- The other side of the dispatcher, asked by the number of an event in the call: locks, the allocation of the argument
arrays, and the owners of objects and buffers that are given back while the event is handled (by the slots that are
flushed for an inline PING, and by replies that come too late during MGET). -/
structure Link where
  dispatcher : Dispatcher
  isLocked : Nat → Bytes → Bool
  arrays : Nat → Bool
  releases : Nat → List Nat

namespace Link

variable (link : Link)

-- MGET and MSET gather a mask of their own and flush it before they return.
def targets (k : Nat) (args : List Arg) : List Nat :=
  let d := link.dispatcher
  match d.respDispatchProxy (link.isLocked k) args with
  | .send owner _ => if link.arrays k then [owner] else []
  | .del => (args.tail.map fun key => shardForKey key.text d.numShards).filter (· ≠ d.self)
  | .dbsize => (List.range d.numShards).filter (· ≠ d.self)
  | _ => []

def pushed (k : Nat) : Event → List Nat
  | .store _ _ => []
  | .pong => link.releases k
  | .dispatch _ text _ _ _ => link.targets k (text.map fun bytes => { text := bytes }) ++ link.releases k

def pushes : Nat → List Event → List Nat
  | _, [] => []
  | k, e :: rest => link.pushed k e ++ pushes (k + 1) rest

end Link

structure Return where
  conn : Conn
  mask : WakeMask
  signalled : List Nat
  sent : List Nat

/-- A call of `handle_read_resp`. A connection that dies or has to wait for an MSET leaves it at once; otherwise the slots
are flushed and the shards are woken. -/
def Conn.handleReadResp (env : Env) (link : Link) (mask : WakeMask) (c : Conn) (reads : List Bytes) (ending : ReadEnd) :
    Option Return :=
  match c.handleRead env reads ending with
  | none => none
  | some (c', events) =>
    let sent := link.pushes 0 events
    if c'.status = .hung then none
    else if c'.status = .dead ∨ c'.pending then
      some { conn := c', mask := sent.foldl shardSendMsgDeferred mask, signalled := [], sent := sent }
    else
      let sent := sent ++ link.releases events.length
      some { conn := c', mask := 0#64, signalled := shardFlushWakeup (sent.foldl shardSendMsgDeferred mask), sent := sent }

def Return.Announced (r : Return) : Prop := r.mask = 0#64 ∧ ∀ shard ∈ r.sent, shard ∈ r.signalled

namespace Conn

variable (env : Env)

def runsShort (c : Conn) : Bool := c.buf.cap - c.rbufLen < 1024 && !env.bufAlloc (c.nb + 1)

def readsThrough : List Bytes → Conn → Bool
  | [], c => !c.runsShort env
  | bytes :: rest, c => !c.runsShort env && readsThrough rest ((c.makeRoom env).append bytes)

def breaksOff (c : Conn) : Bool :=
  let rest := c.received.drop c.rbufParsed
  match c.state with
  | .arrayLen =>
    if rest.take 2 = [13, 10] ∨ rest.head? = some 13 then false
    else if rest.head? ≠ some 42 then (rest.take 4).map toLower ≠ [112, 105, 110, 103]
    else
      match readNumber 0 0 rest.tail with
      | none => false
      | some (val, _) =>
        match argvEnsure c.argvCap val with
        | none => false
        | some newcap => newcap ≠ c.argvCap && !env.argvAlloc c.enqueued
  | .bulkLen => rest.head? ≠ some 36
  | .bulkData =>
    (toSize c.bulkLen + 2) % 2 ^ 64 ≤ rest.length && c.argcExpected ≤ c.argv.length + 1 &&
      (!env.slotAlloc c.enqueued || c.enqueued % 2 ^ 32 = 2 ^ 32 - 1 || env.fate c.enqueued = .paused)

def parsesThrough : Nat → Conn → Bool
  | 0, _ => true
  | fuel + 1, c =>
    if c.rbufParsed < c.rbufLen then
      !c.breaksOff env && (!(c.parseRound env).again || parsesThrough fuel (c.parseRound env).conn)
    else true

def Undisturbed (c : Conn) (reads : List Bytes) (ending : ReadEnd) : Prop :=
  c.readsThrough env reads = true ∧ ending = .drained ∧
    ∀ d, c.readLoop env reads = some d → d.parsesThrough env (d.work + 1) = true

def Early (c : Conn) : Prop := c.status = .dead ∨ c.pending = true

end Conn

section Mask

theorem deferred_bit (mask : WakeMask) (dest : Nat) : (shardSendMsgDeferred mask dest).getLsbD (dest % 64) = true := by
  have within : dest % 64 < 64 := Nat.mod_lt _ (by decide)
  simp [shardSendMsgDeferred, within]

theorem deferreds_mono (sent : List Nat) {mask : WakeMask} {i : Nat} (set : mask.getLsbD i = true) :
    (sent.foldl shardSendMsgDeferred mask).getLsbD i = true := by
  induction sent generalizing mask with
  | nil => exact set
  | cons dest rest ih => exact ih (by simp [shardSendMsgDeferred, set])

theorem deferreds_bit (mask : WakeMask) {sent : List Nat} {shard : Nat} (there : shard ∈ sent) :
    (sent.foldl shardSendMsgDeferred mask).getLsbD (shard % 64) = true := by
  induction sent generalizing mask with
  | nil => cases there
  | cons dest rest ih =>
    obtain rfl | there := List.mem_cons.1 there
    · exact deferreds_mono rest (deferred_bit mask _)
    · exact ih _ there

theorem deferreds_eq_zero (mask : WakeMask) (sent : List Nat) :
    sent.foldl shardSendMsgDeferred mask = 0#64 ↔ mask = 0#64 ∧ sent = [] := by
  constructor
  · intro empty
    have none : sent = [] := by
      refine List.eq_nil_iff_forall_not_mem.2 fun shard there => ?_
      have set := deferreds_bit mask there
      simp [empty] at set
    rw [none] at empty
    exact ⟨empty, none⟩
  · rintro ⟨rfl, rfl⟩
    rfl

theorem flush_signals (mask : WakeMask) (sent : List Nat) :
    (∀ shard ∈ sent, shard ∈ shardFlushWakeup (sent.foldl shardSendMsgDeferred mask)) ↔ ∀ shard ∈ sent, shard < maxShards := by
  have members := (flushLoop_spec 64 (sent.foldl shardSendMsgDeferred mask) fun i low => by omega).2
  constructor
  · intro signalled shard there
    have set := (members shard).1 (signalled shard there)
    refine Nat.lt_of_not_le fun large => ?_
    have clear := BitVec.getLsbD_of_ge (sent.foldl shardSendMsgDeferred mask) shard large
    rw [set] at clear
    cases clear
  · intro small shard there
    have set := deferreds_bit mask there
    have same : shard % 64 = shard := Nat.mod_eq_of_lt (small shard there)
    rw [same] at set
    exact (members shard).2 set

end Mask

namespace Conn

variable {env : Env} {c : Conn}

structure Breaks (env : Env) (c : Conn) (round : Round) : Prop where
  early : round.conn.Early ↔ c.breaksOff env = true
  goes : round.again = true → round.conn.status = .alive ∧ round.conn.pending = false

theorem breaks_arrayLen (fresh : c.state = .arrayLen) (alive : c.status = .alive) (free : c.pending = false) :
    Breaks env c (c.parseArrayLen env (c.received.drop c.rbufParsed)) := by
  unfold parseArrayLen inlinePing pipelineEnqueue
  constructor
  all_goals simp only [breaksOff, fresh, Early]
  all_goals grind [markDead]

theorem breaks_bulkLen (length : c.state = .bulkLen) (alive : c.status = .alive) (free : c.pending = false) :
    Breaks env c (c.parseBulkLen (c.received.drop c.rbufParsed)) := by
  unfold parseBulkLen
  constructor
  · simp only [breaksOff, length, Early]
    grind [markDead]
  · grind

theorem breaks_bulkData (data : c.state = .bulkData) (alive : c.status = .alive) (free : c.pending = false) :
    Breaks env c (c.parseBulkData env (c.received.drop c.rbufParsed)) := by
  unfold parseBulkData commandComplete pipelineEnqueue
  constructor
  all_goals simp only [breaksOff, data, Early]
  all_goals grind [markDead, parserReset_status]

theorem breaks_parseRound (alive : c.status = .alive) (free : c.pending = false) : Breaks env c (c.parseRound env) := by
  unfold Conn.parseRound
  dsimp only
  split
  next fresh => exact breaks_arrayLen fresh alive free
  next length => exact breaks_bulkLen length alive free
  next data => exact breaks_bulkData data alive free

theorem parseRounds_early (env : Env) (fuel : Nat) (alive : c.status = .alive) (free : c.pending = false) :
    (c.parseRounds env fuel).1.Early ↔ c.parsesThrough env fuel = false := by
  induction fuel generalizing c with
  | zero => simp [parseRounds, parsesThrough, Early, alive, free]
  | succ fuel ih =>
    have breaks : Breaks env c (c.parseRound env) := breaks_parseRound alive free
    rw [parseRounds, parsesThrough]
    split
    next unparsed =>
      dsimp only
      split
      next again =>
        -- A round after which the loop goes on has not broken the call off.
        obtain ⟨alive', free'⟩ := breaks.goes again
        have fine : c.breaksOff env = false := by
          rw [← Bool.not_eq_true, ← breaks.early]
          simp [Early, alive', free']
        simpa [again, fine] using ih alive' free'
      next stops => simpa [stops] using breaks.early
    · simp [Early, alive, free]

theorem makeRoom_dead (alive : c.status = .alive) : (c.makeRoom env).status = .dead ↔ c.runsShort env = true := by
  unfold makeRoom rbufGrow runsShort
  grind [markDead, moveBuffer]

theorem makeRoom_pending (env : Env) (c : Conn) : (c.makeRoom env).pending = c.pending := by
  unfold makeRoom rbufGrow
  grind [markDead, moveBuffer]

theorem makeRoom_alive (alive : c.status = .alive) (enough : c.runsShort env = false) : (c.makeRoom env).status = .alive := by
  unfold runsShort at enough
  unfold makeRoom rbufGrow
  grind [markDead, moveBuffer]

theorem readLoop_through {reads : List Bytes} {d : Conn} (alive : c.status = .alive) (read : c.readLoop env reads = some d) :
    d.pending = c.pending ∧ (if c.readsThrough env reads then d.status = .alive else d.status = .dead) := by
  induction reads generalizing c with
  | nil =>
    cases read
    refine ⟨makeRoom_pending env c, ?_⟩
    cases short : c.runsShort env
    · simpa [readsThrough, short] using makeRoom_alive alive short
    · simpa [readsThrough, short] using (makeRoom_dead alive).2 short
  | cons bytes rest ih =>
    simp only [readLoop] at read
    cases short : c.runsShort env
    · have lives := makeRoom_alive alive short
      rw [if_neg (by simp [lives])] at read
      split at read
      · cases read
      · have lives : ((c.makeRoom env).append bytes).status = .alive := lives
        obtain ⟨same, ends⟩ := ih lives read
        refine ⟨same.trans (makeRoom_pending env c), ?_⟩
        simpa [readsThrough, short] using ends
    · have dies := (makeRoom_dead alive).2 short
      rw [if_pos dies] at read
      cases read
      exact ⟨makeRoom_pending env c, by simpa [readsThrough, short] using dies⟩

theorem handleRead_early {reads : List Bytes} {ending : ReadEnd} {c' : Conn} {events : List Event}
    (handled : c.handleRead env reads ending = some (c', events)) : ¬c'.Early ↔ c.Undisturbed env reads ending := by
  unfold handleRead at handled
  split at handled
  · cases handled
  next starts =>
    have alive : c.status = .alive := by
      by_contra other
      exact starts (.inl other)
    have free : c.pending = false := by
      cases waiting : c.pending
      · rfl
      · exact absurd (.inr waiting) starts
    obtain ⟨d, read, result⟩ := Option.map_eq_some_iff.1 handled
    obtain ⟨same, ends⟩ := readLoop_through alive read
    have only : c.Undisturbed env reads ending ↔
        c.readsThrough env reads = true ∧ ending = .drained ∧ d.parsesThrough env (d.work + 1) = true := by
      simp [Undisturbed, read]
    rw [only]
    cases through : c.readsThrough env reads
    · have dead : d.status = .dead := by simpa [through] using ends
      rw [if_pos dead] at result
      cases result
      simp [Early, dead]
    · have lives : d.status = .alive := by simpa [through] using ends
      rw [if_neg (by simp [lives])] at result
      cases ending with
      | error =>
        cases result
        simp [Early, markDead]
      | drained =>
        have early := parseRounds_early env (d.work + 1) lives (same.trans free)
        have last : (d.parseRounds env (d.work + 1)).1 = c' := congrArg Prod.fst result
        rw [last] at early
        simp [early]

end Conn

section Calls

variable {env : Env} {link : Link} {mask : WakeMask} {c : Conn} {reads : List Bytes} {ending : ReadEnd} {r : Return}

def Announces (env : Env) (link : Link) (mask : WakeMask) (c : Conn) (reads : List Bytes) (ending : ReadEnd) : Prop :=
  ∀ c' events, c.handleRead env reads ending = some (c', events) →
    (c.Undisturbed env reads ending ∧ ∀ shard ∈ link.pushes 0 events ++ link.releases events.length, shard < maxShards) ∨
    (mask = 0#64 ∧ link.pushes 0 events = [] ∧ ¬c.Undisturbed env reads ending)

theorem announced_iff (returns : c.handleReadResp env link mask reads ending = some r) :
    r.Announced ↔ Announces env link mask c reads ending := by
  unfold Conn.handleReadResp at returns
  split at returns
  · cases returns
  next c' events handled =>
    have disturbed := Conn.handleRead_early handled
    have only : Announces env link mask c reads ending ↔
        (c.Undisturbed env reads ending ∧ ∀ shard ∈ link.pushes 0 events ++ link.releases events.length, shard < maxShards) ∨
        (mask = 0#64 ∧ link.pushes 0 events = [] ∧ ¬c.Undisturbed env reads ending) := by
      simp [Announces, handled]
    rw [only, ← disturbed]
    dsimp only at returns
    split at returns
    · cases returns
    · split at returns
      next early =>
        cases returns
        have early : c'.Early := early
        simp only [Return.Announced, deferreds_eq_zero, early, not_true_eq_false, false_and, false_or, not_false_eq_true, and_true]
        constructor
        · exact And.left
        · rintro ⟨empty, quiet⟩
          exact ⟨⟨empty, quiet⟩, fun shard there => by simp [quiet] at there⟩
      next late =>
        cases returns
        have late : ¬c'.Early := late
        simp only [Return.Announced, flush_signals, late, not_false_eq_true, not_true_eq_false, true_and, and_false, or_false]

def quietLink (self : Nat) : Link :=
  { dispatcher := { self := self, numShards := 2 }, isLocked := fun _ _ => false, arrays := fun _ => true, releases := fun _ => [] }

def getRequest : Bytes := [42, 50, 13, 10, 36, 51, 13, 10, 71, 69, 84, 13, 10, 36, 49, 13, 10, 107, 13, 10]

def other : Nat := 1 - shardForKey [107] 2

def readOnce (bytes : Bytes) : Option Return :=
  Conn.accept.handleReadResp (Conn.plentiful fun _ => .sent) (quietLink other) 0#64 [bytes] .drained

theorem announced_get : ∃ r, readOnce getRequest = some r ∧ r.sent ≠ [] ∧
    (r.Announced ↔ Announces (Conn.plentiful fun _ => .sent) (quietLink other) 0#64 Conn.accept [getRequest] .drained) := by
  have ran : ((readOnce getRequest).map fun r => r.sent.length) = some 1 := by decide +kernel
  obtain ⟨r, returns, one⟩ := Option.map_eq_some_iff.1 ran
  exact ⟨r, returns, fun none => by simp [none] at one, announced_iff returns⟩

/-- GET of a key of the other shard and then a byte that starts no request: the connection is closed, and the request
stays in the queue with its bit in the mask. -/
theorem request_not_announced : ∃ r, readOnce (getRequest ++ [120]) = some r ∧
    r.sent = [shardForKey [107] 2] ∧ r.signalled = [] ∧ r.mask ≠ 0#64 ∧ ¬r.Announced := by
  have ran : ((readOnce (getRequest ++ [120])).map fun r => (r.sent, r.signalled, decide (r.mask = 0#64))) =
      some ([shardForKey [107] 2], [], false) := by decide +kernel
  obtain ⟨r, returns, fields⟩ := Option.map_eq_some_iff.1 ran
  simp only [Prod.mk.injEq, decide_eq_false_iff_not] at fields
  obtain ⟨sent, silent, left⟩ := fields
  exact ⟨r, returns, sent, silent, left, fun announced => left announced.1⟩

end Calls

end FreakV.Resp
