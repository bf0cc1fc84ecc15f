import FreakV.Net.Reactor
import Mathlib.Data.Prod.Lex

namespace FreakV.EventLoop

open Net

section Flush

theorem flushSlots_again (slots : List PipelineSlot) (len len' : Nat) :
    Conn.flushSlots (Conn.flushSlots slots len).1 len' = ((Conn.flushSlots slots len).1, len') := by
  induction slots generalizing len with
  | nil => rfl
  | cons slot rest ih =>
    by_cases complete : slot.Complete
    · simpa only [Conn.flushSlots, if_pos complete] using ih _
    · simp only [Conn.flushSlots, if_neg complete]

theorem flushSlots_snd (slots : List PipelineSlot) (len : Nat) :
    (Conn.flushSlots slots len).2 = len + (Conn.flushSlots slots 0).2 := by
  induction slots generalizing len with
  | nil => rfl
  | cons slot rest ih =>
    by_cases complete : slot.Complete
    · simp only [Conn.flushSlots, if_pos complete]
      rw [ih (len + _), ih (0 + _)]
      omega
    · simp only [Conn.flushSlots, if_neg complete, Nat.add_zero]

theorem le_flushSlots (slots : List PipelineSlot) (len : Nat) : len ≤ (Conn.flushSlots slots len).2 := by
  rw [flushSlots_snd]
  exact Nat.le_add_right _ _

namespace Conn

variable {c : Conn}

def Fits (c : Conn) : Prop := c.wbufSent < c.wbufLen ∨ c.wbufLen = 0 ∧ c.wbufSent = 0

theorem fits_cancel (c : Conn) : c.cancel.Fits ↔ c.Fits := by
  unfold cancel
  split <;> rfl

@[simp]
theorem pipelineTryFlush_again (c : Conn) : c.pipelineTryFlush.pipelineTryFlush = c.pipelineTryFlush := by
  simp only [pipelineTryFlush, flushSlots_again]

@[simp]
theorem output_pipelineTryFlush (c : Conn) : c.pipelineTryFlush.output = c.output := by
  simp only [output, pipelineTryFlush_again]
  rfl

theorem Fits.pipelineTryFlush (fits : c.Fits) : c.pipelineTryFlush.Fits := by
  have grows : c.wbufLen ≤ c.pipelineTryFlush.wbufLen := le_flushSlots _ _
  have same : c.pipelineTryFlush.wbufSent = c.wbufSent := rfl
  rw [Fits] at fits ⊢
  omega

theorem output_pos : 0 < c.output ↔ c.pipelineTryFlush.wbufSent < c.pipelineTryFlush.wbufLen := by
  rw [output]
  exact Nat.sub_pos_iff_lt

theorem Fits.output_eq_zero (fits : c.Fits) (none : c.output = 0) :
    c.pipelineTryFlush.wbufLen = 0 ∧ c.pipelineTryFlush.wbufSent = 0 := by
  have still : ¬ c.pipelineTryFlush.wbufSent < c.pipelineTryFlush.wbufLen := by
    rw [← output_pos, none]
    exact Nat.lt_irrefl 0
  exact fits.pipelineTryFlush.resolve_left still

end Conn

end Flush

section Write

inductive Drains (answer : Nat → Answer) : Nat → Nat → Prop
  | done {k : Nat} : Drains answer k 0
  | sent {k total n : Nat} : answer k = .sent n → Drains answer (k + 1) (total - (n + 1)) → Drains answer k total

variable {answer : Nat → Answer} {c : Conn} {k : Nat}

inductive Ends (answer : Nat → Answer) (c : Conn) (k : Nat) : Conn × Nat × Conn.Written → Prop
  | drained (k' : Nat) : Drains answer k (c.wbufLen - c.wbufSent) → Ends answer c k (c.writeDone, k', .drained)
  | again (k' sent : Nat) : sent < c.wbufLen → c.wbufSent < sent ∨ sent = c.wbufSent ∧ k' = k + 1 ∧ answer k = .again →
      ¬ Drains answer k (c.wbufLen - c.wbufSent) → k < k' → Ends answer c k ({ c with wbufSent := sent }, k', .again)
  | error (k' sent : Nat) : sent < c.wbufLen → ¬ Drains answer k (c.wbufLen - c.wbufSent) →
      Ends answer c k ({ c with wbufSent := sent }, k', .error)

theorem drains_sent {total n : Nat} (here : answer k = .sent n) (some_left : 0 < total) :
    Drains answer k total ↔ Drains answer (k + 1) (total - (n + 1)) := by
  refine ⟨fun drains => ?_, .sent here⟩
  cases drains with
  | done => exact absurd some_left (Nat.lt_irrefl 0)
  | sent there rest =>
    rw [here, Answer.sent.injEq] at there
    exact there ▸ rest

theorem writeLoop_flushed (flushed : c.pipelineTryFlush = c) (sent : Nat) (all : sent = c.wbufLen) (fuel : Nat) :
    Conn.writeLoop answer (fuel + 1) k { c with wbufSent := sent } = (c.writeDone, k, .drained) := by
  have waits : (Conn.flushSlots c.slots 0).1 = c.slots ∧ (Conn.flushSlots c.slots 0).2 = 0 := by
    have slots : (Conn.flushSlots c.slots c.wbufLen).1 = c.slots := congrArg Conn.slots flushed
    have again := flushSlots_again c.slots c.wbufLen 0
    rw [slots] at again
    rw [again]
    exact ⟨rfl, rfl⟩
  simp [Conn.writeLoop, all, Conn.writeDone, Conn.pipelineTryFlush, waits]

theorem not_drains {total : Nat} (some_left : 0 < total) (refuses : ∀ n, answer k ≠ .sent n) : ¬ Drains answer k total := by
  intro drains
  cases drains with
  | done => exact absurd some_left (Nat.lt_irrefl 0)
  | sent here _ => exact refuses _ here

theorem Ends.of_sent {n : Nat} {result : Conn × Nat × Conn.Written} (here : answer k = .sent n)
    (less : c.wbufSent + (n + 1) < c.wbufLen)
    (ends : Ends answer { c with wbufSent := c.wbufSent + (n + 1) } (k + 1) result) : Ends answer c k result := by
  have left : c.wbufLen - (c.wbufSent + (n + 1)) = c.wbufLen - c.wbufSent - (n + 1) := Nat.sub_add_eq _ _ _
  have iff : Drains answer k (c.wbufLen - c.wbufSent) ↔ Drains answer (k + 1) (c.wbufLen - (c.wbufSent + (n + 1))) := by
    rw [left]
    exact drains_sent here (by omega)
  cases ends with
  | drained k' drains => exact .drained k' (iff.2 drains)
  | again k' sent below progress stays later =>
    have more : c.wbufSent < sent := by
      obtain further | ⟨same, -⟩ := progress
      · exact Nat.lt_of_le_of_lt (Nat.le_add_right _ _) further
      · simp only at same
        omega
    exact .again k' sent below (.inl more) (fun drains => stays (iff.1 drains)) (Nat.lt_of_succ_lt later)
  | error k' sent below stays => exact .error k' sent below fun drains => stays (iff.1 drains)

theorem writeLoop_ends (fuel : Nat) (flushed : c.pipelineTryFlush = c) (less : c.wbufSent < c.wbufLen)
    (enough : c.wbufLen - c.wbufSent < fuel) : Ends answer c k (Conn.writeLoop answer fuel k c) := by
  induction fuel generalizing c k with
  | zero => exact absurd enough (Nat.not_lt_zero _)
  | succ fuel ih =>
    have open_ : ¬ c.wbufLen ≤ c.wbufSent := Nat.not_le_of_lt less
    simp only [Conn.writeLoop, if_neg open_]
    cases here : answer k with
    | again => exact .again (k + 1) c.wbufSent less (.inr ⟨rfl, rfl, here⟩) (not_drains (by omega) (by simp [here])) (Nat.lt_succ_self k)
    | error => exact .error (k + 1) c.wbufSent less (not_drains (by omega) (by simp [here]))
    | sent n =>
      by_cases all : c.wbufLen - c.wbufSent ≤ n + 1
      · obtain ⟨fuel, rfl⟩ : ∃ f, fuel = f + 1 := ⟨fuel - 1, by omega⟩
        have whole : c.wbufSent + min (n + 1) (c.wbufLen - c.wbufSent) = c.wbufLen := by omega
        dsimp only
        rw [writeLoop_flushed flushed _ whole]
        refine .drained _ (.sent here ?_)
        rw [Nat.sub_eq_zero_of_le all]
        exact .done
      · have part : min (n + 1) (c.wbufLen - c.wbufSent) = n + 1 := by omega
        dsimp only
        rw [part]
        have still : Conn.pipelineTryFlush { c with wbufSent := c.wbufSent + (n + 1) } =
            { c with wbufSent := c.wbufSent + (n + 1) } :=
          congrArg (fun d : Conn => { d with wbufSent := c.wbufSent + (n + 1) }) flushed
        exact .of_sent here (by omega) (ih still (show c.wbufSent + (n + 1) < c.wbufLen by omega)
          (show c.wbufLen - (c.wbufSent + (n + 1)) < fuel by omega))

end Write

section Handler

variable {answer : Nat → Answer} {c : Conn}

def Conn.refilled (c : Conn) : Conn := if c.wbufLen ≤ c.wbufSent then c.writeDone.pipelineTryFlush else c

theorem output_refilled (within : c.wbufSent ≤ c.wbufLen) : c.refilled.output = c.output := by
  unfold Conn.refilled
  split
  next sent =>
    rw [Conn.output_pipelineTryFlush]
    have all := flushSlots_snd c.slots c.wbufLen
    simp only [Conn.output, Conn.pipelineTryFlush, Conn.writeDone]
    omega
  · rfl

theorem writeLoop_turn (answer : Nat → Answer) (fuel k : Nat) (c : Conn) : c.writeLoop answer (fuel + 1) k =
    if c.refilled.wbufLen ≤ c.refilled.wbufSent then (c.refilled.writeDone, k, .drained)
    else match answer k with
      | .sent n => Conn.writeLoop answer fuel (k + 1) { c.refilled with
          wbufSent := c.refilled.wbufSent + min (n + 1) (c.refilled.wbufLen - c.refilled.wbufSent) }
      | .again => (c.refilled, k + 1, .again)
      | .error => (c.refilled, k + 1, .error) := rfl

structure Conn.Ok (c : Conn) : Prop where
  fits : c.Fits
  closed : c.state = .dead → c.fd = false

theorem Conn.Ok.pipelineTryFlush {c : Conn} (ok : c.Ok) : c.pipelineTryFlush.Ok :=
  ⟨ok.fits.pipelineTryFlush, ok.closed⟩

theorem Conn.Ok.hear {c : Conn} (ok : c.Ok) (heard : Heard) : (c.hear heard).Ok := by
  obtain ⟨fits, closed⟩ := ok
  refine ⟨?_, fun isDead => closed ?_⟩
  · rw [Conn.Fits] at fits ⊢
    simp only [Conn.hear]
    omega
  · simp only [Conn.hear] at isDead
    split at isDead
    · cases isDead
    · exact isDead

theorem Conn.Ok.within (ok : c.Ok) : c.wbufSent ≤ c.wbufLen := by
  obtain less | ⟨length, sent⟩ := ok.fits
  · exact Nat.le_of_lt less
  · rw [length, sent]

theorem writeLoop_ok (answer : Nat → Answer) (fuel k : Nat) (within : c.wbufSent ≤ c.wbufLen) (closed : c.state = .dead → c.fd = false)
    (enough : c.output < fuel) : (c.writeLoop answer fuel k).1.Ok ∧ (c.writeLoop answer fuel k).1.state = c.state := by
  induction fuel generalizing c k with
  | zero => exact absurd enough (Nat.not_lt_zero _)
  | succ fuel ih =>
    have output := output_refilled within
    obtain ⟨state, fd⟩ : c.refilled.state = c.state ∧ c.refilled.fd = c.fd := by
      unfold Conn.refilled
      split <;> exact ⟨rfl, rfl⟩
    have shut : c.refilled.state = .dead → c.refilled.fd = false := by rwa [state, fd]
    rw [writeLoop_turn, ← state]
    split
    · exact ⟨⟨.inr ⟨rfl, rfl⟩, shut⟩, rfl⟩
    next more =>
      have less : c.refilled.wbufSent < c.refilled.wbufLen := Nat.lt_of_not_le more
      cases answer k with
      | again => exact ⟨⟨.inl less, shut⟩, rfl⟩
      | error => exact ⟨⟨.inl less, shut⟩, rfl⟩
      | sent n =>
        refine ih (k + 1) ?_ shut ?_
        · dsimp only
          omega
        · have grows : c.refilled.wbufLen ≤ c.refilled.pipelineTryFlush.wbufLen := le_flushSlots _ _
          have whole : c.refilled.output = c.refilled.pipelineTryFlush.wbufLen - c.refilled.wbufSent := rfl
          have after : Conn.output { c.refilled with
              wbufSent := c.refilled.wbufSent + min (n + 1) (c.refilled.wbufLen - c.refilled.wbufSent) } =
            c.refilled.pipelineTryFlush.wbufLen -
              (c.refilled.wbufSent + min (n + 1) (c.refilled.wbufLen - c.refilled.wbufSent)) := rfl
          rw [after]
          omega

end Handler

section WellFormed

structure Reactor.WF (r : Reactor) : Prop where
  dirty : r.dirty.Nodup
  dead : r.dead.Nodup
  live : ∀ id ∈ r.dirty, r.conns id ≠ none
  conns : ∀ id c, r.conns id = some c → c.Ok
  killed : ∀ id ∈ r.dead, ∀ c, r.conns id = some c → c.state = .dead

namespace Reactor

variable {r r' r'' : Reactor} {id j : Nat} {c d : Conn}

theorem setConn_self (r : Reactor) (id : Nat) (c : Conn) : (r.setConn id c).conns id = some c := Function.update_self id _ _

theorem setConn_other (other : j ≠ id) : (r.setConn id c).conns j = r.conns j := Function.update_of_ne other _ _

theorem setConn_cases (here : (r.setConn id c).conns j = some d) : j = id ∧ c = d ∨ j ≠ id ∧ r.conns j = some d := by
  by_cases same : j = id
  · exact .inl ⟨same, by simpa [setConn, same] using here⟩
  · exact .inr ⟨same, setConn_other same ▸ here⟩

theorem setConn_ne_none (there : r.conns j ≠ none) : (r.setConn id c).conns j ≠ none := by
  by_cases same : j = id <;> simp [setConn, same, there]

@[simp]
theorem conns_markDirty (r : Reactor) (id : Nat) : (r.markDirty id).conns = r.conns := by
  unfold markDirty
  split <;> rfl

@[simp]
theorem heard_markDirty (r : Reactor) (id : Nat) : (r.markDirty id).heard = r.heard := by
  unfold markDirty
  split <;> rfl

@[simp]
theorem attempted_markDirty (r : Reactor) (id : Nat) : (r.markDirty id).attempted = r.attempted := by
  unfold markDirty
  split <;> rfl

@[simp]
theorem calls_markDirty (r : Reactor) (id : Nat) : (r.markDirty id).calls = r.calls := by
  unfold markDirty
  split <;> rfl

theorem dirty_markDirty (r : Reactor) (id : Nat) :
    (r.markDirty id).dirty = if id ∈ r.dirty then r.dirty else id :: r.dirty := by
  unfold markDirty
  split <;> rfl

theorem connTryFree_cases (r : Reactor) (id : Nat) (c : Conn) : r.connTryFree id c = r ∨
    c.slots = [] ∧ r.connTryFree id c = { r.listRemove id with conns := Function.update r.conns id none } := by
  unfold connTryFree
  split
  · exact .inl rfl
  next empty =>
    split
    · exact .inl rfl
    · exact .inr ⟨not_not.1 empty, rfl⟩

theorem WF.hearing (wf : r.WF) (heard : List Heard) : Reactor.WF { r with heard := heard } :=
  ⟨wf.dirty, wf.dead, wf.live, wf.conns, wf.killed⟩

theorem WF.setConn (wf : r.WF) (ok : c.Ok) (matching : id ∈ r.dead → c.state = .dead) : (r.setConn id c).WF := by
  refine ⟨wf.dirty, wf.dead, fun j there => setConn_ne_none (wf.live j there), fun j d here => ?_, fun j there d here => ?_⟩
  · obtain ⟨-, rfl⟩ | ⟨-, here⟩ := setConn_cases here
    · exact ok
    · exact wf.conns j d here
  · obtain ⟨rfl, rfl⟩ | ⟨-, here⟩ := setConn_cases here
    · exact matching there
    · exact wf.killed j there d here

structure Acts (r r' : Reactor) : Prop where
  wf : r'.WF
  gone : ∀ j, r.conns j = none → r'.conns j = none
  known : (∀ j ∈ r.dead, r.conns j ≠ none) → ∀ j ∈ r'.dead, r'.conns j ≠ none

theorem Acts.refl (wf : r.WF) : Acts r r := ⟨wf, fun _ gone => gone, fun known => known⟩

theorem Acts.trans (first : Acts r r') (second : Acts r' r'') : Acts r r'' :=
  ⟨second.wf, fun j gone => second.gone j (first.gone j gone), fun known => second.known (first.known known)⟩

theorem Acts.congr (acts : Acts r r') (same : (r''.conns, r''.dirty, r''.dead) = (r'.conns, r'.dirty, r'.dead)) :
    Acts r r'' := by
  cases r''
  cases same
  exact ⟨⟨acts.wf.dirty, acts.wf.dead, acts.wf.live, acts.wf.conns, acts.wf.killed⟩, acts.gone, acts.known⟩

theorem acts_listRemove (wf : r.WF) (id : Nat) : Acts r (r.listRemove id) :=
  ⟨⟨wf.dirty.erase id, wf.dead.erase id, fun j there => wf.live j (List.mem_of_mem_erase there), wf.conns,
    fun j there => wf.killed j (List.mem_of_mem_erase there)⟩, fun _ gone => gone,
    fun known j there => known j (List.mem_of_mem_erase there)⟩

theorem acts_connTryFree (wf : r.WF) (id : Nat) (c : Conn) : Acts r (r.connTryFree id c) := by
  obtain same | ⟨-, freed⟩ := connTryFree_cases r id c
  · rw [same]
    exact .refl wf
  · obtain ⟨after, -, -⟩ := acts_listRemove wf id
    have old {j : Nat} {d : Conn} (here : Function.update r.conns id none j = some d) : r.conns j = some d := by
      by_cases same : j = id
      · simp [same] at here
      · simpa [same] using here
    rw [freed]
    refine ⟨⟨after.dirty, after.dead, fun j there => ?_, fun j d here => wf.conns j d (old here),
      fun j there d here => after.killed j there d (old here)⟩, fun j gone => ?_, fun known j there => ?_⟩
    · obtain ⟨other, there⟩ := wf.dirty.mem_erase_iff.1 there
      simpa [other] using wf.live j there
    · by_cases same : j = id <;> simp [same, gone]
    · obtain ⟨other, there⟩ := wf.dead.mem_erase_iff.1 there
      simpa [other] using known j there

structure Reads (id : Nat) (r r' : Reactor) : Prop extends Acts r r' where
  rest : (r'.heard, r'.calls, r'.attempted) = (r.heard, r.calls, r.attempted)
  dirty : ∀ j ∈ r.dirty, j ≠ id → j ∈ r'.dirty
  stays : ∀ j, r.conns j ≠ none → r'.conns j ≠ none

theorem Reads.refl (wf : r.WF) : Reads id r r := ⟨.refl wf, rfl, fun _ there _ => there, fun _ there => there⟩

theorem Reads.trans (first : Reads id r r') (second : Reads id r' r'') : Reads id r r'' :=
  ⟨first.toActs.trans second.toActs, second.rest.trans first.rest,
    fun j there other => second.dirty j (first.dirty j there other) other, fun j there => second.stays j (first.stays j there)⟩

theorem reads_setConn (wf : r.WF) (here : r.conns id ≠ none) (ok : c.Ok) (matching : id ∈ r.dead → c.state = .dead) :
    Reads j r (r.setConn id c) := by
  refine ⟨⟨wf.setConn ok matching, fun j gone => ?_, fun known j there => setConn_ne_none (known j there)⟩, rfl,
    fun _ there _ => there, fun _ there => setConn_ne_none there⟩
  have other : j ≠ id := fun same => here (same ▸ gone)
  rw [setConn_other other, gone]

theorem Reads.markDirty (reads : Reads j r r') (here : r.conns id ≠ none) : Reads j r (r'.markDirty id) := by
  have there := reads.stays id here
  refine reads.trans ?_
  unfold Reactor.markDirty
  split
  · exact .refl reads.wf
  next new =>
    obtain ⟨dirty, dead, live, conns, killed⟩ := reads.wf
    refine ⟨⟨⟨List.nodup_cons.2 ⟨new, dirty⟩, dead.erase id, fun k listed => ?_, conns,
      fun k listed => killed k (List.mem_of_mem_erase listed)⟩, fun _ gone => gone,
      fun known k listed => known k (List.mem_of_mem_erase listed)⟩, rfl,
      fun k listed _ => List.mem_cons_of_mem _ listed, fun _ present => present⟩
    obtain rfl | listed := List.mem_cons.1 listed
    · exact there
    · exact live k listed

theorem reads_markDead (wf : r.WF) (here : r.conns id ≠ none) (ok : c.Ok) : Reads id r (r.markDead id c) := by
  unfold Reactor.markDead
  split
  · exact .refl wf
  next new =>
    have dead : Conn.Ok { c.cancel with fd := false, state := .dead } := ⟨c.fits_cancel.2 ok.fits, fun _ => rfl⟩
    have removed := acts_listRemove wf id
    have stored := reads_setConn (j := id) removed.wf here dead fun _ => rfl
    obtain ⟨wf', gone, known⟩ := removed.trans stored.toActs
    refine ⟨⟨⟨wf'.dirty, List.nodup_cons.2 ⟨fun there => new (List.mem_of_mem_erase there), wf'.dead⟩, wf'.live,
      wf'.conns, fun j there d here => ?_⟩, gone, fun live j there => ?_⟩, rfl,
      fun j there other => (List.mem_erase_of_ne other).2 there, stored.stays⟩
    · obtain rfl | there := List.mem_cons.1 there
      · cases (setConn_self _ j _).symm.trans here
        rfl
      · exact wf'.killed j there d here
    · obtain rfl | there := List.mem_cons.1 there
      · exact stored.stays j here
      · exact known live j there

theorem reads_answerSlot (wf : r.WF) (answer : Nat × Nat × PipelineSlot) : Reads id r (r.answerSlot answer) := by
  unfold Reactor.answerSlot
  split
  next c here =>
    have ok := wf.conns _ c here
    have live : r.conns answer.1 ≠ none := by simp [here]
    have kept : Conn.Ok { c with slots := c.slots.set answer.2.1 answer.2.2 } := ⟨ok.fits, ok.closed⟩
    exact (reads_setConn wf live kept fun there => wf.killed _ there c here).markDirty live
  · exact .refl wf

theorem reads_answers (wf : r.WF) (answers : List (Nat × Nat × PipelineSlot)) :
    Reads id r (answers.foldl Reactor.answerSlot r) := by
  induction answers generalizing r with
  | nil => exact .refl wf
  | cons answer rest ih =>
    have first : Reads id r (r.answerSlot answer) := reads_answerSlot wf answer
    exact first.trans (ih first.wf)

theorem reads_readDone (wf : r.WF) (here : r.conns id = some c) (fate : Fate) : Reads id r (r.readDone id fate c) := by
  have ok := wf.conns id c here
  have live : r.conns id ≠ none := by simp [here]
  have matching : id ∈ r.dead → c.state = .dead := fun there => wf.killed id there c here
  cases fate with
  | dead => exact reads_markDead wf live ok
  | paused =>
    have pausing : Conn.Ok { c with paused := true } := ⟨ok.fits, ok.closed⟩
    exact (reads_setConn wf live pausing matching).markDirty live
  | parsed =>
    have stored : Reads id r (r.setConn id c.pipelineTryFlush) := reads_setConn wf live ok.pipelineTryFlush matching
    simp only [Reactor.readDone]
    split
    · exact .refl wf
    split
    · exact stored.markDirty live
    · exact stored

def listened (r : Reactor) (id : Nat) (c : Conn) (heard : Heard) : Reactor :=
  heard.answered.foldl Reactor.answerSlot
    (if c.hangsUp heard then (r.setConn id (c.hear heard)).markDirty id else r.setConn id (c.hear heard))

theorem handleReadResp_eq (r : Reactor) (id : Nat) (c : Conn) (heard : Heard) (first : r.heard.headD { unparsed := c.unparsed } = heard) :
    r.handleReadResp id c =
      match (listened { r with heard := r.heard.tail } id c heard).conns id with
      | none => listened { r with heard := r.heard.tail } id c heard
      | some d => (listened { r with heard := r.heard.tail } id c heard).readDone id heard.fate d := by
  subst first
  rfl

theorem reads_listened (wf : r.WF) (here : r.conns id = some c) (heard : Heard) : Reads id r (r.listened id c heard) := by
  have live : r.conns id ≠ none := by simp [here]
  have matching (there : id ∈ r.dead) : (c.hear heard).state = .dead := by
    have dead := wf.killed id there c here
    simp [Conn.hear, Conn.hangsUp, dead]
  have stored : Reads id r (r.setConn id (c.hear heard)) := reads_setConn wf live ((wf.conns id c here).hear heard) matching
  unfold Reactor.listened
  split
  · have marked := stored.markDirty live
    exact marked.trans (reads_answers marked.wf _)
  · exact stored.trans (reads_answers stored.wf _)

theorem reads_handleReadResp (wf : r.WF) (here : r.conns id = some c) :
    Reads id { r with heard := r.heard.tail } (r.handleReadResp id c) := by
  have listens := reads_listened (wf.hearing r.heard.tail) here (r.heard.headD { unparsed := c.unparsed })
  rw [handleReadResp_eq r id c _ rfl]
  split
  · exact listens
  next d there => exact listens.trans (reads_readDone listens.wf there _)

end Reactor

end WellFormed

section Round

open Reactor

variable {write : Nat → Nat → Answer} {r r' : Reactor} {id k : Nat} {c d : Conn}

theorem acts_writeEnds (wf : r.WF) (here : r.conns id = some c) (written : Conn.Written) :
    Acts r (r.writeEnds id c written) := by
  have live : r.conns id ≠ none := by simp [here]
  cases written with
  | again =>
    have same : Reads id r r := .refl wf
    exact (same.markDirty live).toActs
  | error => exact (reads_markDead wf live (wf.conns id c here)).toActs
  | drained =>
    simp only [Reactor.writeEnds]
    split
    · exact acts_listRemove wf id
    · exact acts_connTryFree wf id c
    · exact .refl wf

theorem acts_writeHandler (write : Nat → Nat → Answer) (wf : r.WF) (here : r.conns id = some c) :
    Acts r (r.writeHandler write id c) := by
  have ok := wf.conns id c here
  have done := writeLoop_ok (write id) (c.output + 1) (r.calls id) ok.within ok.closed (Nat.lt_succ_self _)
  unfold Reactor.writeHandler
  generalize c.writeLoop (write id) (c.output + 1) (r.calls id) = result at done ⊢
  obtain ⟨d, k, written⟩ := result
  obtain ⟨after, state⟩ := done
  have stored : Reads id r (r.setConn id d) :=
    reads_setConn wf (by simp [here]) after fun there => state.trans (wf.killed id there c here)
  have counted : Acts r { r.setConn id d with calls := Function.update r.calls id k } := stored.toActs.congr rfl
  exact counted.trans (acts_writeEnds counted.wf (setConn_self r id d) written)

theorem acts_roundEnds (wf : r.WF) (ended : r.roundEnds id = some r') : Acts r r' := by
  unfold Reactor.roundEnds at ended
  split at ended
  · cases ended
  next c _ =>
    split at ended
    · cases ended
      exact acts_connTryFree wf id c
    · cases ended
      exact .refl wf

theorem acts_flushConn (wf : r.WF) (here : r.conns id = some c) (flushed : r.flushConn write id c = some r') : Acts r r' := by
  have stored : Reads id r (r.setConn id c.pipelineTryFlush) :=
    reads_setConn wf (by simp [here]) (wf.conns id c here).pipelineTryFlush fun there => wf.killed id there c here
  have counted : Acts r { r.setConn id c.pipelineTryFlush with attempted := id :: r.attempted } := stored.toActs.congr rfl
  simp only [Reactor.flushConn] at flushed
  split at flushed
  · have wrote := counted.trans (acts_writeHandler write counted.wf (setConn_self r id _))
    exact wrote.trans (acts_roundEnds wrote.wf flushed)
  · exact counted.trans (acts_roundEnds counted.wf flushed)

@[reducible]
def Passes (r r' : Reactor) (id : Nat) : Prop := (r'.heard, r'.attempted) = (r.heard, id :: r.attempted)

structure Dangles (write : Nat → Nat → Answer) (r : Reactor) (id : Nat) (c : Conn) : Prop where
  fd : c.fd = true
  closing : c.state = .closing
  answered : c.pipelineTryFlush.slots = []
  output : 0 < c.output
  drains : Drains (write id) (r.calls id) c.output

inductive Flushed (write : Nat → Nat → Answer) (r : Reactor) (id : Nat) (c : Conn) : Option Reactor → Prop
  | leaves (r' : Reactor) : Passes r r' id → r'.dirty = r.dirty.erase id → Flushed write r id c (some r')
  | stays (r' : Reactor) (c' : Conn) : Passes r r' id → r'.dirty = r.dirty → r'.conns id = some c' →
      ¬ (c.fd = true ∧ 0 < c.output) ∨ 0 < c.output ∧ c'.output = 0 → Flushed write r id c (some r')
  | again (r' : Reactor) (c' : Conn) : Passes r r' id → r'.dirty = (r.markDirty id).dirty → r'.conns id = some c' →
      c.fd = true → 0 < c.output → c'.output < c.output ∨
        c'.output = c.output ∧ r'.calls id = r.calls id + 1 ∧ write id (r.calls id) = .again →
      Flushed write r id c (some r')
  | dangles : Dangles write r id c → Flushed write r id c none

theorem Conn.output_sent (c : Conn) (sent : Nat) :
    Conn.output { c.pipelineTryFlush with wbufSent := sent } = c.pipelineTryFlush.wbufLen - sent := by
  have flushed : Conn.pipelineTryFlush { c.pipelineTryFlush with wbufSent := sent } =
      { c.pipelineTryFlush with wbufSent := sent } :=
    congrArg (fun d : Conn => { d with wbufSent := sent }) (Conn.pipelineTryFlush_again c)
  rw [Conn.output, flushed]

theorem Conn.output_writeDone (c : Conn) : c.pipelineTryFlush.writeDone.output = 0 := by
  have waits := flushSlots_again c.slots c.wbufLen 0
  simp only [Conn.output, Conn.writeDone, Conn.pipelineTryFlush, waits, Nat.sub_self]

theorem roundEnds_of_unsent (here : r.conns id = some c) (unsent : c.wbufSent < c.wbufLen) : r.roundEnds id = some r := by
  simp only [Reactor.roundEnds, here]
  split
  next closing =>
    rw [Reactor.connTryFree]
    split
    · rfl
    · rw [if_pos ⟨closing, unsent⟩]
  · rfl

theorem roundEnds_of_slots (here : r.conns id = some c) (slots : c.slots ≠ []) : r.roundEnds id = some r := by
  simp [Reactor.roundEnds, here, Reactor.connTryFree, slots]

def Reactor.afterWrite (r : Reactor) (id : Nat) (c d : Conn) (k : Nat) : Reactor :=
  { { r.setConn id c.pipelineTryFlush with attempted := id :: r.attempted }.setConn id d with
    calls := Function.update r.calls id k }

theorem conns_afterWrite (r : Reactor) (id : Nat) (c d : Conn) (k : Nat) : (r.afterWrite id c d k).conns id = some d :=
  Function.update_self id _ _

theorem flushConn_eq {written : Conn.Written} (fd : c.fd = true) (output : 0 < c.output)
    (loop : c.pipelineTryFlush.writeLoop (write id) (c.output + 1) (r.calls id) = (d, k, written)) :
    r.flushConn write id c = ((r.afterWrite id c d k).writeEnds id d written).roundEnds id := by
  have active : c.pipelineTryFlush.fd = true ∧ c.pipelineTryFlush.wbufSent < c.pipelineTryFlush.wbufLen :=
    ⟨fd, Conn.output_pos.1 output⟩
  rw [← Conn.output_pipelineTryFlush] at loop
  simp only [Reactor.flushConn, if_pos active, Reactor.writeHandler]
  rw [show Reactor.calls { r.setConn id c.pipelineTryFlush with attempted := id :: r.attempted } id = r.calls id from rfl,
    loop]
  rfl

theorem flushConn_ends (write : Nat → Nat → Answer) (r : Reactor) (id : Nat) (fd : c.fd = true) (output : 0 < c.output) :
    ∃ d k written, Ends (write id) c.pipelineTryFlush (r.calls id) (d, k, written) ∧
      r.flushConn write id c = ((r.afterWrite id c d k).writeEnds id d written).roundEnds id :=
  ⟨_, _, _, writeLoop_ends (c.output + 1) (Conn.pipelineTryFlush_again c) (Conn.output_pos.1 output) (Nat.lt_succ_self _),
    flushConn_eq fd output rfl⟩

theorem flushed_drained (ok : c.Ok) (fd : c.fd = true) (output : 0 < c.output)
    (drains : Drains (write id) (r.calls id) c.output) :
    Flushed write r id c (((r.afterWrite id c c.pipelineTryFlush.writeDone k).writeEnds id c.pipelineTryFlush.writeDone
      .drained).roundEnds id) := by
  have here := conns_afterWrite r id c c.pipelineTryFlush.writeDone k
  have state : c.pipelineTryFlush.writeDone.state = c.state := rfl
  cases alive : c.state with
  | alive =>
    have still : ((r.afterWrite id c c.pipelineTryFlush.writeDone k).listRemove id).conns id = _ := here
    simp only [Reactor.writeEnds, state, alive, Reactor.roundEnds, still, reduceCtorEq, if_false]
    exact .leaves _ rfl rfl
  | closing =>
    simp only [Reactor.writeEnds, state, alive]
    by_cases answered : c.pipelineTryFlush.slots = []
    · have freed : ((r.afterWrite id c c.pipelineTryFlush.writeDone k).connTryFree id c.pipelineTryFlush.writeDone).conns id =
          none := by
        simp [Reactor.connTryFree, answered, Conn.writeDone]
      simp only [Reactor.roundEnds, freed]
      exact .dangles ⟨fd, alive, answered, output, drains⟩
    · have kept : Reactor.connTryFree _ id c.pipelineTryFlush.writeDone = r.afterWrite id c c.pipelineTryFlush.writeDone k :=
        if_pos answered
      rw [kept, roundEnds_of_slots here answered]
      exact .stays _ _ rfl rfl here (.inr ⟨output, c.output_writeDone⟩)
  | dead => exact absurd (ok.closed alive) (by simp [fd])

theorem flushed_write (wf : r.WF) (here : r.conns id = some c) (fd : c.fd = true) (output : 0 < c.output) :
    Flushed write r id c (r.flushConn write id c) := by
  have ok := wf.conns id c here
  obtain ⟨d, k, written, ends, eq⟩ := flushConn_ends write r id fd output
  rw [eq]
  cases ends with
  | drained _ drains => exact flushed_drained ok fd output drains
  | again _ sent below progress stays later =>
    have found : ((r.afterWrite id c { c.pipelineTryFlush with wbufSent := sent } k).markDirty id).conns id =
        some { c.pipelineTryFlush with wbufSent := sent } := by
      rw [conns_markDirty, conns_afterWrite]
    rw [Reactor.writeEnds, roundEnds_of_unsent found below]
    refine .again _ _ ?_ ?_ found fd output ?_
    · rw [Passes, heard_markDirty, attempted_markDirty]
      rfl
    · rw [dirty_markDirty, dirty_markDirty]
      rfl
    · have whole : c.output = c.pipelineTryFlush.wbufLen - c.pipelineTryFlush.wbufSent := rfl
      have calls : (r.afterWrite id c { c.pipelineTryFlush with wbufSent := sent } k).calls id = k := by
        simp [Reactor.afterWrite]
      rw [Conn.output_sent, calls_markDirty, calls, whole]
      obtain more | ⟨same, next, refuses⟩ := progress
      · exact .inl (by omega)
      · exact .inr ⟨by rw [same], next, refuses⟩
  | error _ sent below stays =>
    have apart : id ∉ (r.afterWrite id c { c.pipelineTryFlush with wbufSent := sent } k).dead := fun there => by
      simp [ok.closed (wf.killed id there c here)] at fd
    simp only [Reactor.writeEnds, Reactor.markDead, if_neg apart, Reactor.roundEnds, setConn_self, reduceCtorEq, if_false]
    exact .leaves _ rfl rfl

theorem flushConn_still (still : ¬ (c.fd = true ∧ 0 < c.output)) : r.flushConn write id c =
    Reactor.roundEnds { r.setConn id c.pipelineTryFlush with attempted := id :: r.attempted } id := by
  rw [Conn.output_pos] at still
  simp only [Reactor.flushConn]
  exact congrArg (Reactor.roundEnds · id) (if_neg still)

theorem flushed_flushConn (wf : r.WF) (here : r.conns id = some c) : Flushed write r id c (r.flushConn write id c) := by
  by_cases active : c.fd = true ∧ 0 < c.output
  · exact flushed_write wf here active.1 active.2
  · have found : Reactor.conns { r.setConn id c.pipelineTryFlush with attempted := id :: r.attempted } id =
        some c.pipelineTryFlush := setConn_self r id _
    rw [flushConn_still active]
    unfold Reactor.roundEnds
    rw [found]
    dsimp only
    split
    · obtain same | ⟨-, freed⟩ := connTryFree_cases { r.setConn id c.pipelineTryFlush with attempted := id :: r.attempted } id
        c.pipelineTryFlush
      · rw [same]
        exact .stays _ _ rfl rfl found (.inl active)
      · rw [freed]
        exact .leaves _ rfl rfl
    · exact .stays _ _ rfl rfl found (.inl active)

end Round

end FreakV.EventLoop
