import FreakV.Net.Lifecycle

namespace FreakV.EventLoop

open Net

section Settled

variable {c : Conn}

def Conn.sent (c : Conn) : List PipelineSlot := if c.paused then c.slots.dropLast else c.slots

def Conn.Settled (c : Conn) : Prop := c.slots = [] ∨ ∃ slot ∈ c.sent, ¬slot.Complete

theorem Conn.Settled.cancel (settled : c.Settled) : Conn.Settled { c.cancel with fd := false, state := .dead } := by
  unfold Conn.cancel
  split
  next paused =>
    obtain empty | ⟨slot, there, waits⟩ := settled
    · exact .inl (by simp [empty])
    · refine .inr ⟨slot, ?_, waits⟩
      rw [Conn.sent, if_pos paused] at there
      simp [Conn.sent, there]
  · exact settled

-- A connection that dies of a failed write is settled when it dies.
def Conn.FailsSettled (c : Conn) (answer : Nat → Answer) (calls : Nat) : Prop :=
  (c.writeLoop answer (c.output + 1) calls).2.2 = .error → (c.writeLoop answer (c.output + 1) calls).1.Settled

end Settled

section Held

variable {r r' : Reactor} {id : Nat} {c : Conn}

def Reactor.Alive (r : Reactor) (id : Nat) : Prop := ∀ c, r.conns id = some c → c.state ≠ .dead

structure Reactor.Held (r : Reactor) : Prop where
  listed : ∀ id c, r.conns id = some c → c.state = .dead → id ∈ r.dead ∧ c.Settled
  alive : ∀ id ∈ r.dirty, r.Alive id

namespace Reactor

theorem Alive.of_eq (alive : c.state ≠ .dead) (here : r.conns id = some c) : r.Alive id := fun _ there =>
  Option.some.inj (here.symm.trans there) ▸ alive

theorem Alive.setConn {j : Nat} (alive : r.Alive j) (fine : c.state ≠ .dead) : (r.setConn id c).Alive j := by
  intro d there
  obtain ⟨-, rfl⟩ | ⟨-, there⟩ := setConn_cases there
  · exact fine
  · exact alive d there

theorem Alive.markDirty {j : Nat} (alive : r.Alive j) : (r.markDirty id).Alive j := by
  rwa [Alive, conns_markDirty]

namespace Held

theorem setConn (held : r.Held) (fine : c.state ≠ .dead) : (r.setConn id c).Held := by
  refine ⟨fun j d there dead => ?_, fun j there => (held.alive j there).setConn fine⟩
  obtain ⟨-, rfl⟩ | ⟨-, there⟩ := setConn_cases there
  · exact absurd dead fine
  · exact held.listed j d there dead

theorem listRemove (held : r.Held) (alive : r.Alive id) : (r.listRemove id).Held := by
  refine ⟨fun j d there dead => ?_, fun j there => held.alive j (List.mem_of_mem_erase there)⟩
  have other : j ≠ id := fun same => alive d (same ▸ there) dead
  obtain ⟨listed, settled⟩ := held.listed j d there dead
  exact ⟨(List.mem_erase_of_ne other).2 listed, settled⟩

theorem markDirty (held : r.Held) (alive : r.Alive id) : (r.markDirty id).Held := by
  unfold Reactor.markDirty
  split
  · exact held
  · refine ⟨fun j d there dead => ?_, fun j there => ?_⟩
    · have other : j ≠ id := fun same => alive d (same ▸ there) dead
      obtain ⟨listed, settled⟩ := held.listed j d there dead
      exact ⟨(List.mem_erase_of_ne other).2 listed, settled⟩
    · obtain rfl | there := List.mem_cons.1 there
      · exact alive
      · exact held.alive j there

theorem markDead (held : r.Held) (wf : r.WF) (settled : c.Settled) : (r.markDead id c).Held := by
  unfold Reactor.markDead
  split
  · exact held
  · refine ⟨fun j d there dead => ?_, fun j there => ?_⟩
    · obtain ⟨rfl, rfl⟩ | ⟨other, there⟩ := setConn_cases there
      · exact ⟨List.mem_cons_self, settled.cancel⟩
      · obtain ⟨listed, settled⟩ := held.listed j d there dead
        exact ⟨List.mem_cons_of_mem _ ((List.mem_erase_of_ne other).2 listed), settled⟩
    · obtain ⟨other, there⟩ := wf.dirty.mem_erase_iff.1 there
      intro d known
      exact held.alive j there d ((setConn_other other).symm.trans known)

theorem connTryFree (held : r.Held) (id : Nat) (c : Conn) : (r.connTryFree id c).Held := by
  obtain same | ⟨-, freed⟩ := connTryFree_cases r id c
  · rwa [same]
  · have old {j : Nat} {d : Conn} (there : Function.update r.conns id none j = some d) : j ≠ id ∧ r.conns j = some d := by
      by_cases same : j = id
      · simp [same] at there
      · exact ⟨same, by simpa [same] using there⟩
    rw [freed]
    refine ⟨fun j d there dead => ?_, fun j there d known => ?_⟩
    · obtain ⟨other, there⟩ := old there
      obtain ⟨listed, settled⟩ := held.listed j d there dead
      exact ⟨(List.mem_erase_of_ne other).2 listed, settled⟩
    · exact held.alive j (List.mem_of_mem_erase there) d (old known).2

end Held

def Spared (r : Reactor) (answered : List (Nat × Nat × PipelineSlot)) : Prop := ∀ answer ∈ answered, r.Alive answer.1

theorem Alive.answerSlot {j : Nat} (alive : r.Alive j) (answer : Nat × Nat × PipelineSlot) :
    (r.answerSlot answer).Alive j := by
  unfold Reactor.answerSlot
  split
  next c here =>
    intro d there
    rw [conns_markDirty] at there
    obtain ⟨rfl, rfl⟩ | ⟨-, there⟩ := setConn_cases there
    · exact alive c here
    · exact alive d there
  · exact alive

theorem Held.answerSlot (held : r.Held) {answer : Nat × Nat × PipelineSlot} (alive : r.Alive answer.1) :
    (r.answerSlot answer).Held := by
  unfold Reactor.answerSlot
  split
  next c here =>
    have fine : Conn.state { c with slots := c.slots.set answer.2.1 answer.2.2 } ≠ .dead := alive c here
    exact (held.setConn fine).markDirty (.of_eq fine (setConn_self _ _ _))
  · exact held

theorem Held.answers (held : r.Held) {answered : List (Nat × Nat × PipelineSlot)} (spared : r.Spared answered) :
    (answered.foldl Reactor.answerSlot r).Held ∧ ∀ j, r.Alive j → (answered.foldl Reactor.answerSlot r).Alive j := by
  induction answered generalizing r with
  | nil => exact ⟨held, fun _ alive => alive⟩
  | cons answer rest ih =>
    have first := held.answerSlot (spared answer List.mem_cons_self)
    have later : (r.answerSlot answer).Spared rest := fun other there =>
      (spared other (List.mem_cons_of_mem _ there)).answerSlot answer
    obtain ⟨held', alive⟩ := ih first later
    exact ⟨held', fun j known => alive j (known.answerSlot answer)⟩

theorem hear_alive (alive : c.state ≠ .dead) (heard : Heard) : (c.hear heard).state ≠ .dead := by
  simp only [Conn.hear]
  split
  · simp
  · exact alive

theorem Held.listened (held : r.Held) (id : Nat) (alive : c.state ≠ .dead) {heard : Heard} (spared : r.Spared heard.answered) :
    (r.listened id c heard).Held ∧ (r.listened id c heard).Alive id := by
  have fine := hear_alive alive heard
  have stored : (r.setConn id (c.hear heard)).Held := held.setConn fine
  have lives : (r.setConn id (c.hear heard)).Alive id := .of_eq fine (setConn_self _ _ _)
  have others : (r.setConn id (c.hear heard)).Spared heard.answered := fun answer there =>
    (spared answer there).setConn fine
  unfold Reactor.listened
  split
  · obtain ⟨held', keeps⟩ := (stored.markDirty lives).answers fun answer there => (others answer there).markDirty
    exact ⟨held', keeps id lives.markDirty⟩
  · obtain ⟨held', keeps⟩ := stored.answers others
    exact ⟨held', keeps id lives⟩

theorem Held.readDone (held : r.Held) (wf : r.WF) (alive : c.state ≠ .dead) {fate : Fate}
    (settles : fate = .dead → c.Settled) :
    (r.readDone id fate c).Held ∧ (fate ≠ .dead → (r.readDone id fate c).Alive id) := by
  cases fate with
  | dead => exact ⟨held.markDead wf (settles rfl), fun live => absurd rfl live⟩
  | paused =>
    have fine : Conn.state { c with paused := true } ≠ .dead := alive
    have lives : (r.setConn id { c with paused := true }).Alive id := .of_eq fine (setConn_self _ _ _)
    exact ⟨(held.setConn fine).markDirty lives, fun _ => lives.markDirty⟩
  | parsed =>
    have fine : c.pipelineTryFlush.state ≠ .dead := alive
    have lives : (r.setConn id c.pipelineTryFlush).Alive id := .of_eq fine (setConn_self _ _ _)
    simp only [Reactor.readDone, if_neg alive]
    split
    · exact ⟨(held.setConn fine).markDirty lives, fun _ => lives.markDirty⟩
    · exact ⟨held.setConn fine, fun _ => lives⟩

def Settles (r : Reactor) (id : Nat) (c : Conn) (heard : Heard) : Prop :=
  heard.fate = .dead → ∀ d, (listened { r with heard := [] } id c heard).conns id = some d → d.Settled

theorem Held.handleReadResp (held : r.Held) (wf : r.WF) (here : r.conns id = some c) (alive : c.state ≠ .dead) {heard : Heard}
    (spared : r.Spared heard.answered) (settles : r.Settles id c heard) :
    (Reactor.handleReadResp { r with heard := [heard] } id c).Held ∧
    (heard.fate ≠ .dead → (Reactor.handleReadResp { r with heard := [heard] } id c).Alive id) := by
  have quiet : Reactor.Held { r with heard := [] } := ⟨held.listed, held.alive⟩
  obtain ⟨held', lives⟩ := quiet.listened id alive spared
  rw [handleReadResp_eq _ id c heard rfl]
  split
  · exact ⟨held', fun _ => lives⟩
  next d there =>
    exact held'.readDone (reads_listened (wf.hearing []) here heard).wf (lives d there) fun dead => settles dead d there

theorem Held.writeEnds (held : r.Held) (wf : r.WF) (here : r.conns id = some c) (alive : c.state ≠ .dead)
    {written : Conn.Written} (settles : written = .error → c.Settled) : (r.writeEnds id c written).Held := by
  have lives : r.Alive id := .of_eq alive here
  cases written with
  | again => exact held.markDirty lives
  | error => exact held.markDead wf (settles rfl)
  | drained =>
    simp only [Reactor.writeEnds]
    split
    · exact held.listRemove lives
    · exact held.connTryFree id c
    · exact held

theorem Held.writeHandler {write : Nat → Nat → Answer} (held : r.Held) (wf : r.WF) (here : r.conns id = some c)
    (alive : c.state ≠ .dead) (settles : c.FailsSettled (write id) (r.calls id)) : (r.writeHandler write id c).Held := by
  have ok := wf.conns id c here
  obtain ⟨after, state⟩ := writeLoop_ok (write id) (c.output + 1) (r.calls id) ok.within ok.closed (Nat.lt_succ_self _)
  unfold Reactor.writeHandler
  unfold Conn.FailsSettled at settles
  generalize c.writeLoop (write id) (c.output + 1) (r.calls id) = result at after state settles ⊢
  obtain ⟨d, k, written⟩ := result
  dsimp only at after state settles ⊢
  have fine : d.state ≠ .dead := state ▸ alive
  have stored : (r.setConn id d).WF := wf.setConn after fun there => state.trans (wf.killed id there c here)
  have counted : Reactor.WF { r.setConn id d with calls := Function.update r.calls id k } :=
    ⟨stored.dirty, stored.dead, stored.live, stored.conns, stored.killed⟩
  have kept : Reactor.Held { r.setConn id d with calls := Function.update r.calls id k } :=
    ⟨(held.setConn fine).listed, (held.setConn fine).alive⟩
  exact kept.writeEnds counted (setConn_self r id d) fine settles

theorem Held.roundEnds (held : r.Held) (ended : r.roundEnds id = some r') : r'.Held := by
  unfold Reactor.roundEnds at ended
  split at ended
  · cases ended
  next c _ =>
    split at ended
    · cases ended
      exact held.connTryFree id c
    · cases ended
      exact held

theorem Held.flushConn {write : Nat → Nat → Answer} (held : r.Held) (wf : r.WF) (here : r.conns id = some c)
    (alive : c.state ≠ .dead) (settles : c.pipelineTryFlush.fd = true → c.pipelineTryFlush.wbufSent < c.pipelineTryFlush.wbufLen →
      c.pipelineTryFlush.FailsSettled (write id) (r.calls id))
    (flushed : r.flushConn write id c = some r') : r'.Held := by
  have fine : c.pipelineTryFlush.state ≠ .dead := alive
  have stored : (r.setConn id c.pipelineTryFlush).WF :=
    wf.setConn (wf.conns id c here).pipelineTryFlush fun there => wf.killed id there c here
  have counted : Reactor.WF { r.setConn id c.pipelineTryFlush with attempted := id :: r.attempted } :=
    ⟨stored.dirty, stored.dead, stored.live, stored.conns, stored.killed⟩
  have kept : Reactor.Held { r.setConn id c.pipelineTryFlush with attempted := id :: r.attempted } :=
    ⟨(held.setConn fine).listed, (held.setConn fine).alive⟩
  simp only [Reactor.flushConn] at flushed
  split at flushed
  next writes => exact (kept.writeHandler counted (setConn_self r id _) fine (settles writes.1 writes.2)).roundEnds flushed
  · exact kept.roundEnds flushed

structure Gentle (write : Nat → Nat → Answer) (r : Reactor) (id : Nat) (c : Conn) (heard : Heard) : Prop where
  spared : c.reads = true → r.Spared heard.answered
  settles : c.reads = true → (r.listRemove id).Settles id c heard
  writes : ∀ d, Reactor.found { r with heard := [heard] } id c = some d → d.pipelineTryFlush.fd = true →
    d.pipelineTryFlush.wbufSent < d.pipelineTryFlush.wbufLen → d.pipelineTryFlush.FailsSettled (write id) (r.calls id)

theorem Held.round {write : Nat → Nat → Answer} {heard : Heard} (held : r.Held) (wf : r.WF)
    (gentle : ∀ id rest c, r.dirty = id :: rest → r.conns id = some c → Gentle write r id c heard)
    (moved : Reactor.round write { r with heard := [heard] } = some r') : r'.Held := by
  have hears : Reactor.Held { r with heard := [heard] } := ⟨held.listed, held.alive⟩
  cases top : r.dirty with
  | nil =>
    obtain rfl : { r with heard := [heard] } = r' := by simpa [Reactor.round, top] using moved
    exact hears
  | cons id rest =>
    have listed : id ∈ r.dirty := by simp [top]
    obtain ⟨c, here⟩ := Option.ne_none_iff_exists'.1 (wf.live id listed)
    have known := gentle id rest c top here
    have alive := held.alive id listed c here
    have removed := (acts_listRemove wf id).wf
    have kept := held.listRemove (held.alive id listed)
    obtain ⟨d, visits⟩ := exists_visits (wf.hearing [heard]) top here
    have held' : (Reactor.visited { r with heard := [heard] } id c).Held := by
      unfold Reactor.visited
      split
      next reads => exact (kept.handleReadResp removed here alive (known.spared reads) (known.settles reads)).1
      · exact ⟨kept.listed, kept.alive⟩
    rw [visits.round] at moved
    split at moved
    · cases moved
      exact ⟨held'.listed, held'.alive⟩
    next fine =>
      refine held'.flushConn visits.acts.wf visits.here (fun dead => ?_) ?_ moved
      · by_cases reads : c.reads = true
        · exact fine ⟨reads, dead⟩
        · have found := visits.found
          rw [Reactor.found, if_neg reads] at found
          exact alive (Option.some.inj found ▸ dead)
      · have calls : (Reactor.visited { r with heard := [heard] } id c).calls = r.calls := congrArg Prod.fst visits.rest
        rw [calls]
        exact known.writes d visits.found

theorem reap_held (list : List Nat) (held : r.Held) (reaped : r.reap list = some r') : r'.Held := by
  induction list generalizing r with
  | nil =>
    cases reaped
    exact held
  | cons id rest ih =>
    simp only [reap] at reaped
    split at reaped
    · cases reaped
    next c _ => exact ih (held.connTryFree id c) reaped

theorem conns_of_connTryFree {j : Nat} {d : Conn} (there : (r.connTryFree id c).conns j = some d) :
    r.conns j = some d ∧ (j = id → ¬ (c.slots = [] ∧ c.state = .dead)) := by
  unfold connTryFree at there
  split at there
  next slots => exact ⟨there, fun _ free => slots free.1⟩
  split at there
  next closing => exact ⟨there, fun _ free => by simp [free.2] at closing⟩
  · by_cases same : j = id
    · simp [same] at there
    · exact ⟨by simpa [same] using there, fun eq => absurd eq same⟩

theorem conns_of_reap {list : List Nat} {j : Nat} {d : Conn} (reaped : r.reap list = some r')
    (there : r'.conns j = some d) : r.conns j = some d ∧ (j ∈ list → d.state = .dead → d.slots ≠ []) := by
  induction list generalizing r with
  | nil =>
    cases reaped
    exact ⟨there, fun member => by cases member⟩
  | cons id rest ih =>
    simp only [reap] at reaped
    split at reaped
    · cases reaped
    next c here =>
      obtain ⟨before, later⟩ := ih reaped
      obtain ⟨known, kept⟩ := conns_of_connTryFree before
      refine ⟨known, fun member dead empty => ?_⟩
      obtain rfl | member := List.mem_cons.1 member
      · obtain rfl : c = d := Option.some.inj (here.symm.trans known)
        exact kept rfl ⟨empty, dead⟩
      · exact later member dead empty

end Reactor

end Held

namespace Loop

open Reactor

variable {write : Nat → Nat → Answer} {l l' : Loop}

def Spares (write : Nat → Nat → Answer) (l : Loop) : Input → Prop
  | .readable id heard => ∀ c, l.reactor.conns id = some c → c.state ≠ .dead → c.paused = false →
      heard.fate ≠ .dead ∧ l.reactor.Spared heard.answered
  | .writable id => ∀ c, l.reactor.conns id = some c → c.state ≠ .dead → c.FailsSettled (write id) (l.reactor.calls id)
  | .error id => ∀ c, l.reactor.conns id = some c → c.state ≠ .dead → c.Settled
  | .reply id _ _ => l.reactor.Alive id
  | .ack id => l.reactor.Alive id
  | .resume _ answered => l.reactor.Spared answered
  | .flush heard => ∀ id rest c, l.reactor.dirty = id :: rest → l.reactor.conns id = some c →
      Reactor.Gentle write l.reactor id c heard
  | .accept _ | .hangup _ | .reap => True

theorem held_readHandler {r : Reactor} {id : Nat} {c : Conn} (held : r.Held) (wf : r.WF) (here : r.conns id = some c)
    (alive : c.state ≠ .dead) {heard : Heard} (fine : c.paused = false → heard.fate ≠ .dead ∧ r.Spared heard.answered) :
    (r.readHandler id c heard).Held := by
  unfold Reactor.readHandler
  split
  · exact held
  next running =>
    obtain ⟨lives, spared⟩ := fine (Bool.eq_false_iff.2 running)
    obtain ⟨held', alive'⟩ := held.handleReadResp wf here alive spared fun dead => absurd dead lives
    exact held'.markDirty (alive' lives)

theorem held_markClosing {r : Reactor} {id : Nat} {c : Conn} (held : r.Held) : (r.markClosing id c).Held := by
  unfold Reactor.markClosing
  split
  · have fine : Conn.state { c with state := .closing } ≠ .dead := by simp
    exact (held.setConn fine).markDirty (.of_eq fine (setConn_self _ _ _))
  · exact held

theorem held_accept (sound : l.Sound) (held : l.reactor.Held) (registered : Bool) {r : Reactor}
    (acted : l.act write (.accept registered) = some r) : r.Held := by
  have fine : Conn.state {} ≠ .dead := by decide
  have stored : (l.reactor.setConn l.accepted {}).Held := held.setConn fine
  cases registered with
  | true =>
    cases acted
    exact stored
  | false =>
    cases acted
    have off : l.accepted ∉ l.reactor.dead := fun listed => sound.dead _ listed (sound.fresh _ (Nat.le_refl _))
    have made : Conn.Ok {} := ⟨.inr ⟨rfl, rfl⟩, by simp⟩
    exact stored.markDead (sound.wf.setConn made fun listed => absurd listed off) (.inl rfl)

theorem held_act (sound : l.Sound) (held : l.reactor.Held) {input : Input} (spares : Spares write l input) {r : Reactor}
    (acted : l.act write input = some r) : r.Held := by
  have wf := sound.wf
  cases input with
  | accept registered => exact held_accept sound held registered acted
  | readable id heard =>
    cases acted
    exact Reactor.onEvent_rule held fun c here alive => held_readHandler held wf here alive (spares c here alive)
  | writable id =>
    cases acted
    exact Reactor.onEvent_rule held fun c here alive => held.writeHandler wf here alive (spares c here alive)
  | error id =>
    cases acted
    exact Reactor.onEvent_rule held fun c here alive => held.markDead wf (spares c here alive)
  | hangup id =>
    cases acted
    exact Reactor.onEvent_rule held fun c _ _ => held_markClosing held
  | reply id index slot =>
    simp only [act] at acted
    split at acted
    · cases acted
      exact held.answerSlot spares
    · cases acted
      exact held
  | ack id =>
    simp only [act] at acted
    split at acted
    · cases acted
      exact held.markDirty spares
    · cases acted
  | resume id answered =>
    simp only [act] at acted
    split at acted
    · cases acted
      exact held
    next c here =>
      split at acted
      next paused =>
        cases acted
        have fine : Conn.state { c with paused := false } ≠ .dead := paused.2
        have others : (l.reactor.setConn id { c with paused := false }).Spared answered := fun answer there =>
          (spares answer there).setConn fine
        obtain ⟨held', keeps⟩ := (held.setConn fine).answers others
        exact held'.markDirty (keeps id (.of_eq fine (setConn_self _ _ _)))
      · cases acted
        exact held
  | flush heard => exact held.round wf spares acted
  | reap => exact Reactor.reap_held _ held acted

open Transition in
theorem dead_remembered (write : Nat → Nat → Answer) {l : Loop} (reached : Reaches (Loop.step write) (Spares write) {} l) :
    (∀ id c, l.reactor.conns id = some c → c.state = .dead → id ∈ l.reactor.dead) ∧
    ∀ l', l.step write .reap = some l' → ∀ id c, l'.reactor.conns id = some c → c.state = .dead →
      id ∈ l'.reactor.dead ∧ ∃ slot ∈ c.slots, ¬slot.Complete := by
  have started : ({} : Loop).Sound ∧ ({} : Loop).reactor.Held := ⟨sound_start, by simp, by simp⟩
  have kept {before after : Loop} {i : Input} (good : before.Sound ∧ before.reactor.Held)
      (spares : Spares write before i) (moved : before.step write i = some after) :
      after.Sound ∧ after.reactor.Held := by
    refine ⟨good.1.step moved, ?_⟩
    simp only [Loop.step, Option.map_eq_some_iff] at moved
    obtain ⟨r, acted, rfl⟩ := moved
    exact held_act good.1 good.2 spares acted
  have good : l.Sound ∧ l.reactor.Held := reached.invariant started kept
  refine ⟨fun id c here dead => (good.2.listed id c here dead).1, fun l' reaped id c here dead => ?_⟩
  obtain ⟨listed, settled⟩ := (kept (i := .reap) good trivial reaped).2.listed id c here dead
  simp only [Loop.step, Option.map_eq_some_iff] at reaped
  obtain ⟨r, acted, rfl⟩ := reaped
  obtain ⟨before, full⟩ := Reactor.conns_of_reap acted here
  have waiting := settled.resolve_left (full (good.2.listed id c before dead).1 dead)
  obtain ⟨slot, there, waits⟩ := waiting
  refine ⟨listed, slot, ?_, waits⟩
  rw [Conn.sent] at there
  split at there
  · exact List.dropLast_subset _ there
  · exact there

def waitingSlot : PipelineSlot := { state := .pending }

section Reset

def asked : Heard := { slots := [waitingSlot], unparsed := 0 }

def begun : Loop := { reactor := ({} : Loop).reactor.setConn 0 {}, accepted := 1 }

def asking : Loop := { begun with reactor := begun.reactor.readHandler 0 {} asked }

def listening : Loop :=
  { asking with
    reactor := { (asking.reactor.listRemove 0).setConn 0 { slots := [waitingSlot] } with
      heard := [{ unparsed := 0 }], attempted := [0] } }

theorem reaches_listening : Transition.Reaches (Loop.step fun _ _ => .again) (Spares fun _ _ => .again) {} listening := by
  have accepts : Loop.step (fun _ _ => .again) {} (.accept true) = some begun := rfl
  have reads : Loop.step (fun _ _ => .again) begun (.readable 0 asked) = some asking := rfl
  have flushes : Loop.step (fun _ _ => .again) asking (.flush { unparsed := 0 }) = some listening := rfl
  refine .tail (.tail (.tail .refl ?_ accepts) ?_ reads) ?_ flushes
  · trivial
  · exact fun c _ _ _ => ⟨by decide, by simp [Spared, asked]⟩
  · intro id rest c top here
    obtain rfl : 0 = id := (List.cons.inj top).1
    obtain rfl : { slots := [waitingSlot] } = c := Option.some.inj here
    refine ⟨(absurd · (by decide)), (absurd · (by decide)), fun d found _ less => ?_⟩
    obtain rfl : { slots := [waitingSlot] } = d := Option.some.inj found
    exact absurd less (by decide)

theorem dead_remembered_reset : ∃ l, listening.step (fun _ _ => .again) (.error 0) = some l ∧ 0 ∈ l.reactor.dead ∧
    ∀ l', l.step (fun _ _ => .again) .reap = some l' → ∃ c, l'.reactor.conns 0 = some c ∧ 0 ∈ l'.reactor.dead ∧
      ∃ slot ∈ c.slots, ¬slot.Complete := by
  let l : Loop := { listening with reactor := listening.reactor.markDead 0 { slots := [waitingSlot] } }
  have errs : listening.step (fun _ _ => .again) (.error 0) = some l := rfl
  have settled : Spares (fun _ _ => .again) listening (.error 0) := fun c here _ => by
    obtain rfl : { slots := [waitingSlot] } = c := Option.some.inj here
    exact .inr ⟨waitingSlot, List.mem_singleton_self _, by decide⟩
  obtain ⟨listed, waits⟩ := dead_remembered (fun _ _ => .again) (.tail reaches_listening settled errs)
  refine ⟨l, errs, listed 0 _ rfl rfl, fun l' reaped => ?_⟩
  cases reaped
  exact ⟨_, rfl, waits _ rfl 0 _ rfl rfl⟩

end Reset

def lateReply : List Input :=
  [.accept true, .readable 0 { slots := [waitingSlot], unparsed := 0 }, .flush { unparsed := 0 }, .reap,
    .error 0, .reap, .reply 0 0 okReply, .flush { unparsed := 0 }, .reap]

theorem dead_connection_forgotten :
    (Transition.follow (Loop.step fun _ _ => .again) (fun _ _ => true) lateReply {}).map (fun l =>
      ((l.reactor.conns 0).map fun c => (c.state, c.slots), l.reactor.dead, l.reactor.dirty, l.freed)) =
    some (some (.dead, []), [], [], []) := by
  decide

end Loop

end FreakV.EventLoop
