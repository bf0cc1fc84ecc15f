import FreakV.Net.Order

namespace FreakV.Net

open Window

def seqError : UInt32 := 0xFFFFFFFF

inductive Request
  | ping
  | command (d : Dispatch)
deriving DecidableEq

structure Received where
  conn : Conn
  -- the number was taken as a valid one, and the request put into its slot
  dispatched : Bool
  dead : Bool

namespace Conn

/-- The callers of `net_pipeline_enqueue`. With the error value a PING is answered past the pipeline, and after a
command the connection is closed. -/
def receive (c : Conn) (r : Request) : Received :=
  let (pp, seq) := c.proxy.pipelineEnqueue
  let c := { c with proxy := pp }
  if seq = seqError then
    match r with
    | .ping => { conn := { c with wbuf := c.wbuf ++ ascii "+PONG\r\n" }, dispatched := false, dead := false }
    | .command _ => { conn := c, dispatched := false, dead := true }
  else
    match r with
    | .ping =>
      let pong : Reply := { replyType := .buf, replyBuf := some (ascii "+PONG\r\n") }
      { conn := c.updSlot seq fun slot => slot.fill pong .localReply, dispatched := true, dead := false }
    | .command d => { conn := c.updSlot seq fun slot => slot.dispatch d, dispatched := true, dead := false }

def waiting (c : Conn) : List PipelineSlot :=
  window c.proxy.slots c.proxy.cap c.proxy.outSeq (c.proxy.inSeq - c.proxy.outSeq).toNat

def Dispatched (c : Conn) : Prop := ∀ slot ∈ c.waiting, slot.state ≠ .empty

structure Lined (c : Conn) : Prop where
  power : PowerOfTwo c.proxy.cap
  fits : (c.proxy.inSeq - c.proxy.outSeq).toNat ≤ c.proxy.cap.toNat
  dispatched : c.Dispatched

/-- `net_pipeline_resize` gets its slots. Doubling 2^31 slots gives an array of size 0, which is refused. -/
def SlotsGranted (c : Conn) : Prop := c.proxy.inSeq - c.proxy.outSeq = c.proxy.cap → c.proxy.cap.toNat < 2 ^ 31

instance (c : Conn) : Decidable c.SlotsGranted := inferInstanceAs (Decidable (_ → _))

end Conn

section SlotState

variable (slot : PipelineSlot)

theorem PipelineSlot.storePart_state (m : Reply) : (slot.storePart m).state = slot.state := by
  unfold PipelineSlot.storePart
  split <;> rfl

theorem PipelineSlot.finish_state (busy : slot.state ≠ .empty) : slot.finish.state ≠ .empty := by
  unfold PipelineSlot.finish
  split
  · simp
  · exact busy

theorem PipelineSlot.parts_state (answers : List Reply) : (answers.foldl storePart slot).state = slot.state := by
  induction answers generalizing slot with
  | nil => rfl
  | cons m rest ih => rw [List.foldl_cons, ih, storePart_state]

theorem PipelineSlot.dispatch_state (d : Dispatch) : (slot.dispatch d).state ≠ .empty := by
  cases d with
  | answered reply text =>
    simp only [PipelineSlot.dispatch]
    split <;> simp [PipelineSlot.fill]
  | executed reply => simp [PipelineSlot.dispatch, PipelineSlot.fill]
  | sent => simp [PipelineSlot.dispatch]
  | mset => simp [PipelineSlot.dispatch]
  | multi parent parts answers =>
    refine PipelineSlot.finish_state _ ?_
    rw [PipelineSlot.parts_state]
    simp

theorem PipelineSlot.answer_state (m : Reply) (busy : slot.state ≠ .empty) : (slot.answer m).state ≠ .empty := by
  unfold PipelineSlot.answer
  split
  · split
    · refine PipelineSlot.finish_state _ ?_
      rwa [PipelineSlot.storePart_state]
    · exact busy
  · simp [PipelineSlot.fill]

end SlotState

def ProxyPipeline.grown (pp : ProxyPipeline) : ProxyPipeline :=
  if pp.inSeq - pp.outSeq = pp.cap then pp.pipelineResize else pp

def ProxyPipeline.pushed (pp : ProxyPipeline) (x : PipelineSlot) : ProxyPipeline :=
  { pp.grown with inSeq := pp.inSeq + 1 }.setSlot pp.inSeq x

theorem ProxyPipeline.grown_seqs (pp : ProxyPipeline) :
    pp.grown.inSeq = pp.inSeq ∧ pp.grown.outSeq = pp.outSeq := by
  unfold grown
  split <;> exact ⟨rfl, rfl⟩

theorem ProxyPipeline.pipelineEnqueue_eq (pp : ProxyPipeline) : pp.pipelineEnqueue = (pp.pushed {}, pp.inSeq) := by
  have seqs := pp.grown_seqs.1
  change ({ pp.grown with inSeq := pp.grown.inSeq + 1 }.setSlot pp.grown.inSeq {}, pp.grown.inSeq) = _
  rw [seqs]
  rfl

namespace Conn

variable {c : Conn}

theorem Lined.grown (lined : c.Lined) (granted : c.SlotsGranted) :
    PowerOfTwo c.proxy.grown.cap ∧ (c.proxy.inSeq - c.proxy.outSeq).toNat < c.proxy.grown.cap.toNat ∧
      window c.proxy.grown.slots c.proxy.grown.cap c.proxy.outSeq (c.proxy.inSeq - c.proxy.outSeq).toNat = c.waiting := by
  unfold ProxyPipeline.grown
  split
  next full =>
    have half := granted full
    have doubled := lined.power.double half
    refine ⟨doubled.1, ?_, c.proxy.window_resize lined.power half lined.fits (nth_distance _ _).symm⟩
    have positive := lined.power.pos
    change _ < (c.proxy.cap * 2).toNat
    rw [full]
    omega
  next more =>
    have different : (c.proxy.inSeq - c.proxy.outSeq).toNat ≠ c.proxy.cap.toNat :=
      fun same => more (UInt32.toNat_inj.1 same)
    have fits := lined.fits
    exact ⟨lined.power, by omega, rfl⟩

theorem Lined.pushed (lined : c.Lined) (granted : c.SlotsGranted) (x : PipelineSlot) (text : Bytes) :
    ({ proxy := c.proxy.pushed x, wbuf := text } : Conn).waiting = c.waiting ++ [x] ∧
      PowerOfTwo (c.proxy.pushed x).cap ∧
      ((c.proxy.pushed x).inSeq - (c.proxy.pushed x).outSeq).toNat ≤ (c.proxy.pushed x).cap.toNat := by
  obtain ⟨power, room, slots⟩ := lined.grown granted
  have number : nth c.proxy.outSeq (c.proxy.inSeq - c.proxy.outSeq).toNat = c.proxy.inSeq := nth_distance _ _
  have half : c.proxy.grown.cap.toNat ≤ 2 ^ 31 := by
    obtain ⟨k, size⟩ := power
    have below := c.proxy.grown.cap.toNat_lt
    rw [size] at below ⊢
    exact Nat.pow_le_pow_right (by norm_num) (Nat.lt_succ_iff.1 ((Nat.pow_lt_pow_iff_right (by norm_num)).1 below))
  have count : (c.proxy.inSeq + 1 - c.proxy.outSeq).toNat = (c.proxy.inSeq - c.proxy.outSeq).toNat + 1 := by
    rw [← nth_sub_toNat c.proxy.outSeq (show (c.proxy.inSeq - c.proxy.outSeq).toNat + 1 < 2 ^ 32 by omega), ← nth_succ,
      number]
  have outSeq : (c.proxy.pushed x).outSeq = c.proxy.outSeq := c.proxy.grown_seqs.2
  have inSeq : (c.proxy.pushed x).inSeq = c.proxy.inSeq + 1 := rfl
  refine ⟨?_, power, ?_⟩
  · have pushed := power.window_push c.proxy.outSeq room c.proxy.grown.slots x
    rw [number, slots] at pushed
    rw [waiting]
    simp only [outSeq, inSeq, count]
    exact pushed
  · rw [outSeq, inSeq, count]
    exact room

theorem receive_error (r : Request) (last : c.proxy.inSeq = seqError) :
    (c.receive r).dispatched = false ∧ (c.receive r).conn.proxy = c.proxy.pushed {} := by
  cases r <;> simp [receive, ProxyPipeline.pipelineEnqueue_eq, last]

theorem updSlot_pushed (x : PipelineSlot) (f : PipelineSlot → PipelineSlot) :
    ({ c with proxy := c.proxy.pushed x }.updSlot c.proxy.inSeq f).proxy = c.proxy.pushed (f x) := by
  simp [updSlot, ProxyPipeline.pushed, ProxyPipeline.setSlot, ProxyPipeline.slot]

theorem receive_valid (r : Request) (valid : c.proxy.inSeq ≠ seqError) :
    (c.receive r).dispatched = true ∧ ∃ x, x.state ≠ SlotState.empty ∧ (c.receive r).conn.proxy = c.proxy.pushed x := by
  cases r with
  | ping =>
    simp only [receive, ProxyPipeline.pipelineEnqueue_eq, if_neg valid, true_and]
    exact ⟨_, by simp [PipelineSlot.fill], updSlot_pushed _ _⟩
  | command d =>
    simp only [receive, ProxyPipeline.pipelineEnqueue_eq, if_neg valid, true_and]
    exact ⟨_, PipelineSlot.dispatch_state _ d, updSlot_pushed _ _⟩

theorem Lined.receive (lined : c.Lined) (granted : c.SlotsGranted) (r : Request) (valid : c.proxy.inSeq ≠ seqError) :
    (c.receive r).conn.Lined := by
  obtain ⟨-, x, busy, proxy⟩ := receive_valid r valid
  obtain ⟨waiting, power, fits⟩ := lined.pushed granted x (c.receive r).conn.wbuf
  rw [← proxy] at power fits waiting
  refine ⟨power, fits, fun slot member => ?_⟩
  rw [show (c.receive r).conn.waiting = _ from waiting, List.mem_append, List.mem_singleton] at member
  rcases member with before | rfl
  · exact lined.dispatched slot before
  · exact busy

theorem Lined.not_dispatched (lined : c.Lined) (granted : c.SlotsGranted) (r : Request)
    (last : c.proxy.inSeq = seqError) : ¬(c.receive r).conn.Dispatched := by
  obtain ⟨waiting, -, -⟩ := lined.pushed granted {} (c.receive r).conn.wbuf
  rw [← (receive_error r last).2] at waiting
  intro dispatched
  refine dispatched {} ?_ rfl
  rw [show (c.receive r).conn.waiting = _ from waiting]
  simp

theorem Lined.updSlot (lined : c.Lined) (seq : UInt32) {f : PipelineSlot → PipelineSlot}
    (keeps : ∀ slot, slot.state ≠ .empty → (f slot).state ≠ .empty) : (c.updSlot seq f).Lined := by
  refine ⟨lined.power, lined.fits, fun slot member => ?_⟩
  obtain ⟨i, within, rfl⟩ := List.mem_map.1 member
  have busy := lined.dispatched _ (List.mem_map.2 ⟨i, within, rfl⟩)
  by_cases here : place c.proxy.cap (nth c.proxy.outSeq i) = place c.proxy.cap seq
  · have written := keeps _ busy
    rw [here] at written
    simp only [Conn.updSlot, ProxyPipeline.setSlot, here, Function.update_self]
    exact written
  · simp only [Conn.updSlot, ProxyPipeline.setSlot, Function.update_of_ne here]
    exact busy

theorem Lined.pop (lined : c.Lined) (more : c.proxy.outSeq ≠ c.proxy.inSeq) (text : Bytes) :
    ({ proxy := { c.proxy.setSlot c.proxy.outSeq {} with outSeq := c.proxy.outSeq + 1 }, wbuf := text } : Conn).Lined := by
  have number : nth c.proxy.outSeq (c.proxy.inSeq - c.proxy.outSeq).toNat = c.proxy.inSeq := nth_distance _ _
  have below := (c.proxy.inSeq - c.proxy.outSeq).toNat_lt
  have fits := lined.fits
  obtain ⟨n, count⟩ : ∃ n, (c.proxy.inSeq - c.proxy.outSeq).toNat = n + 1 := by
    refine Nat.exists_eq_succ_of_ne_zero fun zero => more ?_
    rw [zero, nth_zero] at number
    exact number
  have left : (c.proxy.inSeq - (c.proxy.outSeq + 1)).toNat = n := by
    rw [← number, count, Nat.add_comm, ← nth_add, show c.proxy.outSeq + 1 = nth c.proxy.outSeq 1 from rfl]
    exact nth_sub_toNat _ (by omega)
  have popped := lined.power.window_pop c.proxy.outSeq (show n < _ by omega) c.proxy.slots {}
  refine ⟨lined.power, ?_, fun slot member => lined.dispatched slot ?_⟩
  · change (c.proxy.inSeq - (c.proxy.outSeq + 1)).toNat ≤ c.proxy.cap.toNat
    omega
  · change slot ∈ window _ c.proxy.cap (c.proxy.outSeq + 1) (c.proxy.inSeq - (c.proxy.outSeq + 1)).toNat at member
    rw [left] at member
    rw [waiting, count, popped]
    exact List.mem_cons_of_mem _ member

theorem Lined.flushRounds {rounds : Nat} (lined : c.Lined) : (Conn.flushRounds rounds c).Lined := by
  induction rounds generalizing c with
  | zero => exact lined
  | succ rounds ih =>
    rw [Conn.flushRounds]
    split
    · exact lined
    next more =>
      dsimp only
      split
      · exact ih (lined.pop more _)
      · exact lined

inductive Move
  | receive (r : Request)
  | reply (seq : UInt32) (m : Reply)
  | deferredReply (seq : UInt32) (m : Reply)
  | msetOk (seq : UInt32)
  | flush
deriving DecidableEq

def move (c : Conn) : Move → Option Conn
  | .receive r => some (c.receive r).conn
  | .reply seq m => some (c.step (.reply seq m))
  | .deferredReply seq m => some (c.step (.deferredReply seq m))
  | .msetOk seq => some (c.step (.msetOk seq))
  | .flush => some (c.step .flush)

def NotLast (c : Conn) : Move → Prop
  | .receive _ => c.proxy.inSeq ≠ seqError ∧ c.SlotsGranted
  | _ => True

instance (c : Conn) : (m : Move) → Decidable (c.NotLast m)
  | .receive _ => inferInstanceAs (Decidable (_ ∧ _))
  | .reply _ _ | .deferredReply _ _ | .msetOk _ | .flush => isTrue trivial

theorem Lined.move {c' : Conn} {m : Move} (lined : c.Lined) (allowed : c.NotLast m) (moved : c.move m = some c') :
    c'.Lined := by
  cases m with
  | receive r =>
    cases moved
    exact lined.receive allowed.2 r allowed.1
  | reply seq m =>
    cases moved
    unfold Conn.step proxyReplyCallback
    dsimp only
    split
    · exact lined
    · exact lined.updSlot seq fun slot busy => slot.answer_state m busy
  | deferredReply seq m =>
    cases moved
    exact lined.updSlot seq fun slot busy => slot.answer_state m busy
  | msetOk seq =>
    cases moved
    exact lined.updSlot seq fun slot _ => by simp [PipelineSlot.msetOk]
  | flush =>
    cases moved
    exact lined.flushRounds

open Transition in
theorem request_dispatched_iff {start c : Conn} (lined : start.Lined) (reached : Reaches move NotLast start c)
    (granted : c.SlotsGranted) (r : Request) :
    c.Dispatched ∧ ((c.receive r).dispatched = true ∧ (c.receive r).conn.Dispatched ↔ c.proxy.inSeq ≠ seqError) := by
  have lined : c.Lined := reached.invariant lined fun lined allowed moved => lined.move allowed moved
  refine ⟨lined.dispatched, fun accepted last => ?_, fun valid => ?_⟩
  · exact lined.not_dispatched granted r last accepted.2
  · exact ⟨(receive_valid r valid).1, (lined.receive granted r valid).dispatched⟩

def servedBefore (n : UInt32) : Conn :=
  { proxy := { slots := fun _ => {}, cap := 128, inSeq := n, outSeq := n }, wbuf := [] }

theorem Lined.servedBefore (n : UInt32) : (servedBefore n).Lined := by
  have none : (Conn.servedBefore n).waiting = [] := by simp [waiting, Conn.servedBefore, window]
  exact ⟨⟨7, rfl⟩, by simp [Conn.servedBefore], by simp [Dispatched, none]⟩

theorem request_dispatched_second : ∃ c, move (servedBefore 7) (.receive .ping) = some c ∧
    (c.receive (.command .sent)).dispatched = true ∧ (c.receive (.command .sent)).conn.Dispatched :=
  ⟨_, rfl, (request_dispatched_iff (Lined.servedBefore 7)
    (.tail .refl (show NotLast _ (.receive .ping) by decide) rfl) (by decide) (.command .sent)).2.2 (by decide)⟩

theorem request_not_dispatched :
    ((servedBefore seqError).receive .ping).dispatched = false ∧
    ((servedBefore seqError).receive .ping).dead = false ∧
    ((servedBefore seqError).receive .ping).conn.waiting.map PipelineSlot.state = [.empty] ∧
    ((servedBefore seqError).receive (.command .sent)).dispatched = false ∧
    ((servedBefore seqError).receive (.command .sent)).dead = true := by
  decide

end Conn

end FreakV.Net
