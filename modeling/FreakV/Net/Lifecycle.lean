import FreakV.Lib.Transition
import FreakV.Net.SlowClient

/-!
# The life of a connection

A run of `net_reactor_run`, cut into the handlers of its events, the rounds of the master flush loop and the dead-list
loop. The order of these pieces is not prescribed.
-/

namespace FreakV.EventLoop

open Net

namespace Reactor

def markClosing (r : Reactor) (id : Nat) (c : Conn) : Reactor :=
  if c.state = .alive then (r.setConn id { c with state := .closing }).markDirty id else r

/-- `net_read_handler`. The connection is marked dirty whatever has become of it. -/
def readHandler (r : Reactor) (id : Nat) (c : Conn) (heard : Heard) : Reactor :=
  if c.paused then r else ({ r with heard := [heard] }.handleReadResp id c).markDirty id

def reap : List Nat → Reactor → Option Reactor
  | [], r => some r
  | id :: rest, r =>
    match r.conns id with
    | none => none
    | some c => reap rest (r.connTryFree id c)

def onEvent (r : Reactor) (id : Nat) (handler : Conn → Reactor) : Reactor :=
  match r.conns id with
  | none => r
  | some c => if c.state = .dead then r else handler c

def waits (r : Reactor) (id index : Nat) : Bool :=
  (r.conns id).any fun c => c.slots[index]?.any fun slot => !decide slot.Complete

end Reactor

inductive Input
  -- a new connection, and whether epoll takes its descriptor
  | accept (registered : Bool)
  | readable (id : Nat) (heard : Heard)
  | writable (id : Nat)
  -- EPOLLERR or EPOLLHUP
  | error (id : Nat)
  -- EPOLLRDHUP
  | hangup (id : Nat)
  -- the reply to a request of a slot, with what it makes of the slot; also a FIN_ACK and a deferred command
  | reply (id index : Nat) (slot : PipelineSlot)
  -- MSET_ACK
  | ack (id : Nat)
  -- mset_pending_conn_drain has come to the connection
  | resume (id : Nat) (answered : List (Nat × Nat × PipelineSlot))
  -- one round of the master flush, and what it meets if it reads
  | flush (heard : Heard)
  | reap

def Input.accepts : Input → Nat
  | .accept _ => 1
  | _ => 0

/-- `accepted` counts the connections so far, and `freed` lists the ones for which `net_conn_free` was executed. -/
structure Loop where
  reactor : Reactor := { conns := fun _ => none, dirty := [] }
  accepted : Nat := 0
  freed : List Nat := []

namespace Loop

section Step

variable (write : Nat → Nat → Answer)

/-- Nothing stands for the use of a connection that has been freed. A reply that no slot waits for is not on its way:
every request has one reply, and its slot is not complete without it. -/
def act (l : Loop) : Input → Option Reactor
  | .accept registered =>
    let r := l.reactor.setConn l.accepted {}
    some (if registered then r else r.markDead l.accepted {})
  | .readable id heard => some (l.reactor.onEvent id fun c => l.reactor.readHandler id c heard)
  | .writable id => some (l.reactor.onEvent id fun c => l.reactor.writeHandler write id c)
  | .error id => some (l.reactor.onEvent id fun c => l.reactor.markDead id c)
  | .hangup id => some (l.reactor.onEvent id fun c => l.reactor.markClosing id c)
  | .reply id index slot =>
    if l.reactor.waits id index then some (l.reactor.answerSlot (id, index, slot)) else some l.reactor
  | .ack id => if (l.reactor.conns id).isSome then some (l.reactor.markDirty id) else none
  | .resume id answered =>
    match l.reactor.conns id with
    | none => some l.reactor
    | some c =>
      if c.paused ∧ c.state ≠ .dead then
        some ((answered.foldl Reactor.answerSlot (l.reactor.setConn id { c with paused := false })).markDirty id)
      else some l.reactor
  | .flush heard => { l.reactor with heard := [heard] }.round write
  | .reap => l.reactor.reap l.reactor.dead

def lost (l : Loop) (r : Reactor) : List Nat :=
  (List.range l.accepted).filter fun id => (l.reactor.conns id).isSome && (r.conns id).isNone

def step (l : Loop) (input : Input) : Option Loop :=
  (l.act write input).map fun r =>
    { reactor := r
      accepted := l.accepted + input.accepts
      freed := l.freed ++ l.lost r }

end Step

end Loop

namespace Loop

variable {write : Nat → Nat → Answer} {l : Loop}

def Orderly (write : Nat → Nat → Answer) (l : Loop) : Input → Prop
  | .ack id => l.reactor.conns id ≠ none
  | .flush heard => ∀ id rest c c', l.reactor.dirty = id :: rest → l.reactor.conns id = some c →
      Reactor.found { l.reactor with heard := [heard] } id c = some c' → ¬ Dangles write l.reactor id c'
  | _ => True

structure Sound (l : Loop) : Prop where
  wf : l.reactor.WF
  dead : ∀ id ∈ l.reactor.dead, l.reactor.conns id ≠ none
  fresh : ∀ id, l.accepted ≤ id → l.reactor.conns id = none
  once : l.freed.Nodup
  gone : ∀ id ∈ l.freed, id < l.accepted ∧ l.reactor.conns id = none

theorem sound_start : Sound {} :=
  ⟨⟨.nil, .nil, by simp, by simp, by simp⟩, by simp, by simp, .nil, by simp⟩

end Loop

section Events

open Reactor

variable {r : Reactor} {id : Nat} {c : Conn}

theorem reap_spec (list : List Nat) (wf : r.WF) (once : list.Nodup) (live : ∀ j ∈ list, r.conns j ≠ none) :
    ∃ r', r.reap list = some r' ∧ Acts r r' := by
  induction list generalizing r with
  | nil => exact ⟨r, rfl, .refl wf⟩
  | cons id rest ih =>
    obtain ⟨c, here⟩ := Option.ne_none_iff_exists'.1 (live id List.mem_cons_self)
    obtain ⟨new, later⟩ := List.nodup_cons.1 once
    have first := acts_connTryFree wf id c
    have still (j : Nat) (there : j ∈ rest) : (r.connTryFree id c).conns j ≠ none := by
      have other : j ≠ id := fun same => new (same ▸ there)
      have known := live j (List.mem_cons_of_mem _ there)
      obtain same | ⟨-, freed⟩ := connTryFree_cases r id c
      · rwa [same]
      · simpa [freed, other] using known
    obtain ⟨r', reaped, acts⟩ := ih first.wf later still
    exact ⟨r', by simp only [Reactor.reap, here, reaped], first.trans acts⟩

theorem Reactor.onEvent_rule {motive : Reactor → Prop} {handler : Conn → Reactor} (same : motive r)
    (handled : ∀ c, r.conns id = some c → c.state ≠ .dead → motive (handler c)) : motive (r.onEvent id handler) := by
  unfold Reactor.onEvent
  split
  · exact same
  next c here =>
    split
    · exact same
    next alive => exact handled c here alive

theorem acts_readHandler (wf : r.WF) (here : r.conns id = some c) (heard : Heard) : Acts r (r.readHandler id c heard) := by
  unfold Reactor.readHandler
  split
  · exact .refl wf
  · have live : r.conns id ≠ none := by simp [here]
    have read := (reads_handleReadResp (wf.hearing [heard]) here).markDirty live
    exact ⟨read.wf, read.gone, read.known⟩

theorem acts_markClosing (wf : r.WF) (here : r.conns id = some c) : Acts r (r.markClosing id c) := by
  have live : r.conns id ≠ none := by simp [here]
  unfold Reactor.markClosing
  split
  next alive =>
    have matching : id ∈ r.dead → ConnState.closing = .dead := fun listed => by
      have dead := wf.killed id listed c here
      rw [alive] at dead
      cases dead
    have closing : Reads id r (r.setConn id { c with state := .closing }) :=
      reads_setConn wf live ⟨(wf.conns id c here).fits, fun dead => by cases dead⟩ matching
    exact (closing.markDirty live).toActs
  · exact .refl wf

theorem acts_resume (wf : r.WF) (here : r.conns id = some c) (answered : List (Nat × Nat × PipelineSlot)) :
    Acts r ((answered.foldl Reactor.answerSlot (r.setConn id { c with paused := false })).markDirty id) := by
  have ok := wf.conns id c here
  have live : r.conns id ≠ none := by simp [here]
  have stored : Reads id r (r.setConn id { c with paused := false }) :=
    reads_setConn wf live ⟨ok.fits, ok.closed⟩ fun listed => wf.killed id listed c here
  exact ((stored.trans (reads_answers stored.wf answered)).markDirty live).toActs

end Events

namespace Loop

open Reactor

variable {write : Nat → Nat → Answer} {l l' : Loop}

theorem act_ne_none_iff (sound : l.Sound) (input : Input) : l.act write input ≠ none ↔ Orderly write l input := by
  cases input with
  | ack id =>
    simp only [act, Orderly, Option.isSome_iff_ne_none]
    split <;> simp_all
  | reply id index slot =>
    simp only [act, Orderly, iff_true]
    split <;> simp
  | resume id answered =>
    simp only [act, Orderly, iff_true]
    split
    · simp
    · split <;> simp
  | reap =>
    obtain ⟨r, reaped, -⟩ := reap_spec l.reactor.dead sound.wf sound.wf.dead sound.dead
    simp [act, Orderly, reaped]
  | flush heard =>
    have wf := sound.wf.hearing [heard]
    simp only [act, Orderly]
    constructor
    · intro defined id rest c c' top here found dangles
      exact defined (round_dangles wf top here found (dangles.congr rfl))
    · intro safe
      obtain empty | ⟨id, rest, top⟩ : l.reactor.dirty = [] ∨ ∃ id rest, l.reactor.dirty = id :: rest := by
        cases l.reactor.dirty <;> simp
      · simp [Reactor.round, empty]
      · obtain ⟨c, here⟩ := Option.ne_none_iff_exists'.1 (sound.wf.live id (by simp [top]))
        obtain ⟨r, moved, -⟩ | ⟨c', found, dangles⟩ :=
          round_cases write wf top here
        · exact moved ▸ Option.some_ne_none r
        · have again : Dangles write l.reactor id c' := dangles.congr rfl
          exact absurd again (safe id rest c c' top here found)
  | _ => simp [act, Orderly]

theorem acts_of_act (sound : l.Sound) {input : Input} (quiet : ∀ registered, input ≠ .accept registered) {r : Reactor}
    (acted : l.act write input = some r) : Acts l.reactor r := by
  have wf := sound.wf
  cases input with
  | accept registered => exact absurd rfl (quiet registered)
  | readable id heard =>
    cases acted
    exact onEvent_rule (.refl wf) fun c here _ => acts_readHandler wf here heard
  | writable id =>
    cases acted
    exact onEvent_rule (.refl wf) fun c here _ => acts_writeHandler write wf here
  | error id =>
    cases acted
    exact onEvent_rule (.refl wf) fun c here _ => (reads_markDead wf (by simp [here]) (wf.conns id c here)).toActs
  | hangup id =>
    cases acted
    exact onEvent_rule (.refl wf) fun c here _ => acts_markClosing wf here
  | reply id index slot =>
    simp only [act] at acted
    split at acted
    · cases acted
      have answers : Reads id l.reactor (l.reactor.answerSlot (id, index, slot)) := reads_answerSlot wf _
      exact answers.toActs
    · cases acted
      exact .refl wf
  | ack id =>
    simp only [act] at acted
    split at acted
    next present =>
      cases acted
      have same : Reads id l.reactor l.reactor := .refl wf
      exact (same.markDirty (Option.isSome_iff_ne_none.1 present)).toActs
    · cases acted
  | resume id answered =>
    simp only [act] at acted
    split at acted
    · cases acted
      exact .refl wf
    next c here =>
      split at acted
      · cases acted
        exact acts_resume wf here answered
      · cases acted
        exact .refl wf
  | flush heard =>
    obtain ⟨wf', gone, known⟩ := acts_round (wf.hearing [heard]) acted
    exact ⟨wf', gone, known⟩
  | reap =>
    obtain ⟨r', reaped, acts⟩ := reap_spec l.reactor.dead wf wf.dead sound.dead
    obtain rfl : r' = r := Option.some.inj (reaped.symm.trans acted)
    exact acts

theorem act_accept (sound : l.Sound) {registered : Bool} {r : Reactor}
    (acted : l.act write (.accept registered) = some r) :
    r.WF ∧ (∀ id ∈ r.dead, r.conns id ≠ none) ∧ (∀ id, r.conns id = none ↔ l.reactor.conns id = none ∧ id ≠ l.accepted) := by
  have absent := sound.fresh l.accepted (Nat.le_refl _)
  have off : l.accepted ∉ l.reactor.dead := fun listed => sound.dead _ listed absent
  have made : Conn.Ok {} := ⟨.inr ⟨rfl, rfl⟩, by simp⟩
  have wf : (l.reactor.setConn l.accepted {}).WF := sound.wf.setConn made fun listed => absurd listed off
  have conns (c : Conn) (id : Nat) : Function.update l.reactor.conns l.accepted (some c) id = none ↔
      l.reactor.conns id = none ∧ id ≠ l.accepted := by
    by_cases same : id = l.accepted <;> simp [same]
  cases registered with
  | true =>
    cases acted
    exact ⟨wf, fun id listed => setConn_ne_none (sound.dead id listed), conns {}⟩
  | false =>
    cases acted
    have apart : l.accepted ∉ (l.reactor.setConn l.accepted {}).dead := off
    have live : (l.reactor.setConn l.accepted {}).conns l.accepted ≠ none := by simp [Reactor.setConn]
    have marks := reads_markDead wf live made
    refine ⟨marks.wf, marks.known fun id listed => setConn_ne_none (sound.dead id listed), fun id => ?_⟩
    simp only [Bool.false_eq_true, if_false, Reactor.markDead, if_neg apart]
    simpa [Reactor.setConn, Reactor.listRemove] using conns _ id

theorem mem_lost {r : Reactor} {id : Nat} :
    id ∈ l.lost r ↔ id < l.accepted ∧ l.reactor.conns id ≠ none ∧ r.conns id = none := by
  simp [lost, Option.isSome_iff_ne_none, Option.isNone_iff_eq_none]

theorem Sound.log (sound : l.Sound) {r : Reactor} {accepted : Nat} (grows : l.accepted ≤ accepted)
    (gone : ∀ id < l.accepted, l.reactor.conns id = none → r.conns id = none) :
    (l.freed ++ l.lost r).Nodup ∧ ∀ id ∈ l.freed ++ l.lost r, id < accepted ∧ r.conns id = none := by
  have distinct : (l.lost r).Nodup := List.nodup_range.filter _
  refine ⟨List.nodup_append.2 ⟨sound.once, distinct, ?_⟩, fun id listed => ?_⟩
  · rintro id before j now rfl
    exact (mem_lost.1 now).2.1 (sound.gone id before).2
  · obtain before | now := List.mem_append.1 listed
    · obtain ⟨small, absent⟩ := sound.gone id before
      exact ⟨Nat.lt_of_lt_of_le small grows, gone id small absent⟩
    · obtain ⟨small, -, absent⟩ := mem_lost.1 now
      exact ⟨Nat.lt_of_lt_of_le small grows, absent⟩

theorem Sound.step (sound : l.Sound) {input : Input} (moved : l.step write input = some l') : l'.Sound := by
  simp only [Loop.step, Option.map_eq_some_iff] at moved
  obtain ⟨r, acted, rfl⟩ := moved
  by_cases accepts : ∃ registered, input = .accept registered
  · obtain ⟨registered, rfl⟩ := accepts
    obtain ⟨wf, dead, conns⟩ := act_accept sound acted
    obtain ⟨once, gone⟩ := sound.log (Nat.le_succ l.accepted)
      fun id small absent => (conns id).2 ⟨absent, Nat.ne_of_lt small⟩
    refine ⟨wf, dead, fun id large => (conns id).2 ⟨sound.fresh id (Nat.le_of_succ_le large), ?_⟩, once, gone⟩
    exact Nat.ne_of_gt large
  · have quiet (registered : Bool) : input ≠ .accept registered := fun same => accepts ⟨registered, same⟩
    have acts := acts_of_act sound quiet acted
    obtain ⟨once, gone⟩ := sound.log (Nat.le_refl _) fun id _ absent => acts.gone id absent
    have none : input.accepts = 0 := by
      cases input with
      | accept registered => exact absurd rfl (quiet registered)
      | _ => rfl
    rw [none]
    exact ⟨acts.wf, acts.known sound.dead, fun id large => acts.gone id (sound.fresh id large), once, gone⟩

open Transition in
theorem freed_once (write : Nat → Nat → Answer) {l : Loop} (reached : Reaches (Loop.step write) (Orderly write) {} l) :
    l.freed.Nodup ∧ (∀ id ∈ l.freed, l.reactor.conns id = none) ∧
      ∀ input, l.step write input ≠ none ↔ Orderly write l input := by
  have sound : l.Sound := reached.invariant sound_start fun before _ moved => before.step moved
  refine ⟨sound.once, fun id listed => (sound.gone id listed).2, fun input => ?_⟩
  rw [← act_ne_none_iff sound input, Loop.step, Ne, Option.map_eq_none_iff]

def harmless : Input → Bool
  | .ack _ | .flush _ => false
  | _ => true

theorem orderly_of_harmless (l : Loop) (input : Input) (plain : harmless input = true) : Orderly write l input := by
  cases input with
  | ack id => cases plain
  | flush heard => cases plain
  | _ => trivial

def resetByPeer : List Input := [.accept true, .error 0, .reap]

theorem freed_once_reset_by_peer : ∃ l : Loop, l.freed = [0] ∧ l.reactor.conns 0 = none ∧
    ∀ input, l.step (fun _ _ => .again) input ≠ none ↔ Orderly (fun _ _ => .again) l input := by
  have runs : (Transition.follow (Loop.step fun _ _ => .again) (fun _ => harmless) resetByPeer {}).map Loop.freed =
      some [0] := by decide
  obtain ⟨l, followed, freed⟩ := Option.map_eq_some_iff.1 runs
  obtain ⟨-, gone, steps⟩ := freed_once _ (Transition.follow_reaches orderly_of_harmless followed)
  exact ⟨l, freed, gone 0 (by simp [freed]), steps⟩

def okReply : PipelineSlot := { state := .localReply, replyType := .buf, replyData := some [43, 79, 75, 13, 10] }

def lastWords : List Input := [.accept true, .readable 0 { hangup := true, slots := [okReply], unparsed := 0 }]

theorem closing_connection_used_after_free :
    (Transition.follow (Loop.step fun _ _ => .sent 4) (fun _ _ => true) lastWords {}).isSome = true ∧
    (Transition.follow (Loop.step fun _ _ => .sent 4) (fun _ _ => true) (lastWords ++ [.flush { unparsed := 0 }]) {}).isNone =
      true := by
  decide

end Loop

end FreakV.EventLoop
