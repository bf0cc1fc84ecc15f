import FreakV.Net.Pipeline
import FreakV.Lib.Transition

namespace FreakV.Net

open Window Transition

/-- All requests of a connection in their order, each with what is known of its reply, and how many of the replies
have been sent. Request `k` has the sequence number `start + k`. -/
structure History where
  start : UInt32
  requests : List PipelineSlot
  sent : Nat

namespace History

def waiting (h : History) : List PipelineSlot := h.requests.drop h.sent

def change (h : History) (seq : UInt32) (f : PipelineSlot → PipelineSlot) : History :=
  let i := (seq - nth h.start h.sent).toNat
  if i < h.waiting.length then { h with requests := h.requests.modify (h.sent + i) f } else h

def step (h : History) : Op → History
  | .enqueue => { h with requests := h.requests ++ [{}] }
  | .dispatch seq d => h.change seq fun slot => slot.dispatch d
  | .reply seq m => h.change seq fun slot => slot.answer m
  | .deferredReply seq m => h.change seq fun slot => slot.answer m
  | .msetOk seq => h.change seq PipelineSlot.msetOk
  | .flush => { h with sent := h.sent + (h.waiting.takeWhile fun slot => slot.Complete).length }

def output (h : History) : Bytes := ((h.requests.take h.sent).map PipelineSlot.serialize).flatten

end History

structure Represents (h : History) (c : Conn) : Prop where
  power : PowerOfTwo c.proxy.cap
  sent : h.sent ≤ h.requests.length
  few : h.waiting.length < 2 ^ 31
  fits : h.waiting.length ≤ c.proxy.cap.toNat
  outSeq : c.proxy.outSeq = nth h.start h.sent
  inSeq : c.proxy.inSeq = nth h.start h.requests.length
  slots : window c.proxy.slots c.proxy.cap c.proxy.outSeq h.waiting.length = h.waiting
  output : c.wbuf = h.output

namespace ProxyPipeline

variable (pp : ProxyPipeline) {newCap : UInt32} {n : Nat}

theorem copySlots_place (power : PowerOfTwo newCap) (fits : n ≤ newCap.toNat) (few : n < 2 ^ 32)
    (last : pp.inSeq = nth pp.outSeq n) {rounds i : Nat} (left : i + rounds = n) (ns : Nat → PipelineSlot) {j : Nat}
    (within : j < n) : pp.copySlots newCap rounds (nth pp.outSeq i) ns (place newCap (nth pp.outSeq j)) =
      if i ≤ j then pp.slot (nth pp.outSeq j) else ns (place newCap (nth pp.outSeq j)) := by
  induction rounds generalizing i ns with
  | zero => rw [copySlots, if_neg (by omega)]
  | succ rounds ih =>
    have more : nth pp.outSeq i ≠ pp.inSeq := by
      rw [last]
      intro same
      have equal := nth_inj (by omega) few same
      omega
    rw [copySlots, if_neg more, nth_succ, ih (by omega)]
    rcases Nat.lt_trichotomy i j with less | rfl | greater
    · rw [if_pos (by omega), if_pos (by omega)]
    · rw [if_neg (by omega), if_pos (Nat.le_refl _), Function.update_self]
    · rw [if_neg (by omega), if_neg (by omega)]
      refine Function.update_of_ne (fun same => ?_) _ _
      have equal := power.place_inj (by omega) (by omega) same
      omega

theorem window_resize (power : PowerOfTwo pp.cap) (half : pp.cap.toNat < 2 ^ 31) (fits : n ≤ pp.cap.toNat)
    (last : pp.inSeq = nth pp.outSeq n) :
    window pp.pipelineResize.slots pp.pipelineResize.cap pp.outSeq n = window pp.slots pp.cap pp.outSeq n := by
  obtain ⟨power', doubled⟩ := power.double half
  have rounds : (pp.inSeq - pp.outSeq).toNat = n := by rw [last, nth_sub_toNat _ (by omega)]
  refine List.map_congr_left fun j member => ?_
  have copied := pp.copySlots_place power' (by omega) (by omega) last (Nat.zero_add n) (fun _ => {})
    (List.mem_range.1 member)
  rw [nth_zero, if_pos (Nat.zero_le _)] at copied
  rw [pipelineResize, rounds]
  exact copied

end ProxyPipeline

variable {h : History} {c : Conn}

theorem History.waiting_length (h : History) : h.waiting.length = h.requests.length - h.sent := List.length_drop

theorem Represents.last (represents : Represents h c) : c.proxy.inSeq = nth c.proxy.outSeq h.waiting.length := by
  rw [represents.inSeq, represents.outSeq, nth_add, h.waiting_length, Nat.add_sub_cancel' represents.sent]

theorem Represents.count (represents : Represents h c) : (c.proxy.inSeq - c.proxy.outSeq).toNat = h.waiting.length := by
  have few := represents.few
  rw [represents.last, nth_sub_toNat _ (by omega)]

section Enqueue

theorem Represents.resize (represents : Represents h c) (full : h.waiting.length = c.proxy.cap.toNat) :
    Represents h { c with proxy := c.proxy.pipelineResize } := by
  have half : c.proxy.cap.toNat < 2 ^ 31 := full ▸ represents.few
  obtain ⟨power, doubled⟩ := represents.power.double half
  refine ⟨power, represents.sent, represents.few, ?_, represents.outSeq, represents.inSeq, ?_, represents.output⟩
  · change h.waiting.length ≤ (c.proxy.cap * 2).toNat
    omega
  · exact (c.proxy.window_resize represents.power half represents.fits represents.last).trans represents.slots

theorem History.enqueue_waiting (sent : h.sent ≤ h.requests.length) : (h.step .enqueue).waiting = h.waiting ++ [({} : PipelineSlot)] :=
  List.drop_append_of_le_length sent

theorem History.enqueue_output (sent : h.sent ≤ h.requests.length) : (h.step .enqueue).output = h.output := by
  simp only [History.output, History.step, List.take_append_of_le_length sent]

theorem Represents.append (represents : Represents h c) (room : h.waiting.length < c.proxy.cap.toNat)
    (few : h.waiting.length + 1 < 2 ^ 31) : Represents (h.step .enqueue)
      { c with proxy := { c.proxy with inSeq := c.proxy.inSeq + 1 }.setSlot c.proxy.inSeq {} } := by
  have waiting := History.enqueue_waiting represents.sent
  have length : (h.step .enqueue).waiting.length = h.waiting.length + 1 := by simp [waiting]
  refine ⟨represents.power, ?_, length ▸ few, length ▸ room, represents.outSeq, ?_, ?_, ?_⟩
  · simp only [History.step, List.length_append, List.length_singleton]
    exact Nat.le_succ_of_le represents.sent
  · simp only [History.step, List.length_append, List.length_singleton, ← nth_succ, ← represents.inSeq]
    rfl
  · have pushed := represents.power.window_push c.proxy.outSeq room c.proxy.slots {}
    rw [← represents.last, represents.slots] at pushed
    rw [length, waiting]
    exact pushed
  · rw [History.enqueue_output represents.sent, ← represents.output]

theorem Represents.enqueue (represents : Represents h c) (few : h.waiting.length + 1 < 2 ^ 31) :
    Represents (h.step .enqueue) (c.step .enqueue) := by
  have full : c.proxy.inSeq - c.proxy.outSeq = c.proxy.cap ↔ h.waiting.length = c.proxy.cap.toNat := by
    rw [← UInt32.toNat_inj, represents.count]
  unfold Conn.step ProxyPipeline.pipelineEnqueue
  simp only
  split
  next equal =>
    have resized := represents.resize (full.1 equal)
    refine resized.append ?_ few
    have doubled := represents.power.double (full.1 equal ▸ represents.few)
    have positive := represents.power.pos
    have count := full.1 equal
    change h.waiting.length < (c.proxy.cap * 2).toNat
    omega
  next other =>
    have fits := represents.fits
    have different : h.waiting.length ≠ c.proxy.cap.toNat := fun same => other (full.2 same)
    exact represents.append (by omega) few

end Enqueue

section Change

variable {seq : UInt32}

def Conn.Outstanding (c : Conn) (seq : UInt32) : Prop :=
  (seq - c.proxy.outSeq).toNat < (c.proxy.inSeq - c.proxy.outSeq).toNat

instance (c : Conn) (seq : UInt32) : Decidable (c.Outstanding seq) := inferInstanceAs (Decidable (_ < _))

theorem History.waiting_modify (h : History) (i : Nat) (f : PipelineSlot → PipelineSlot) :
    { h with requests := h.requests.modify (h.sent + i) f }.waiting = h.waiting.modify i f := by
  refine List.ext_getElem? fun j => ?_
  simp only [History.waiting, List.getElem?_drop, List.getElem?_modify, Nat.add_left_cancel_iff]

theorem History.take_modify (h : History) (i : Nat) (f : PipelineSlot → PipelineSlot) :
    (h.requests.modify (h.sent + i) f).take h.sent = h.requests.take h.sent := by
  refine List.ext_getElem? fun j => ?_
  simp only [List.getElem?_take, List.getElem?_modify]
  split
  next before => simp [show h.sent + i ≠ j by omega]
  · rfl

theorem Represents.change (represents : Represents h c) (outstanding : c.Outstanding seq)
    (f : PipelineSlot → PipelineSlot) : Represents (h.change seq f) (c.updSlot seq f) := by
  rw [Conn.Outstanding, represents.count] at outstanding
  have here : (seq - nth h.start h.sent).toNat = (seq - c.proxy.outSeq).toNat := by rw [represents.outSeq]
  have number := nth_distance c.proxy.outSeq seq
  generalize (seq - c.proxy.outSeq).toNat = i at outstanding here number
  rw [History.change, here]
  simp only [if_pos outstanding]
  have waiting := h.waiting_modify i f
  have length : ({ h with requests := h.requests.modify (h.sent + i) f } : History).waiting.length = h.waiting.length := by
    rw [waiting, List.length_modify]
  have same : (h.requests.modify (h.sent + i) f).length = h.requests.length := List.length_modify _ _ _
  refine ⟨represents.power, ?_, length ▸ represents.few, length ▸ represents.fits, represents.outSeq, ?_, ?_, ?_⟩
  · exact same ▸ represents.sent
  · exact same ▸ represents.inSeq
  · have modified := represents.power.window_modify c.proxy.outSeq represents.fits outstanding c.proxy.slots f
    rw [number, represents.slots] at modified
    rw [length, waiting]
    exact modified
  · rw [History.output, h.take_modify i f]
    exact represents.output

end Change

section Flush

variable {slot : PipelineSlot} {rest : List PipelineSlot}

theorem History.requests_eq (waiting : h.waiting = slot :: rest) :
    h.requests[h.sent]? = some slot ∧ h.requests.drop (h.sent + 1) = rest := by
  rw [History.waiting] at waiting
  constructor
  · rw [← List.head?_drop, waiting, List.head?_cons]
  · rw [← List.tail_drop, waiting, List.tail_cons]

theorem Represents.head (represents : Represents h c) (waiting : h.waiting = slot :: rest) :
    c.proxy.slot c.proxy.outSeq = slot ∧ c.proxy.outSeq ≠ c.proxy.inSeq := by
  have slots := represents.slots
  have length : h.waiting.length = rest.length + 1 := by rw [waiting, List.length_cons]
  have few := represents.few
  rw [length, window_cons, waiting, List.cons.injEq] at slots
  refine ⟨slots.1, fun same => ?_⟩
  rw [represents.last, ← nth_zero c.proxy.outSeq, nth_add, Nat.zero_add] at same
  have equal := nth_inj (by norm_num) (by omega) same
  omega

theorem Represents.pop (represents : Represents h c) (waiting : h.waiting = slot :: rest) :
    Represents { h with sent := h.sent + 1 }
      { proxy := { c.proxy.setSlot c.proxy.outSeq {} with outSeq := c.proxy.outSeq + 1 }
        wbuf := c.wbuf ++ slot.serialize } := by
  obtain ⟨here, behind⟩ := History.requests_eq waiting
  have length : h.waiting.length = rest.length + 1 := by rw [waiting, List.length_cons]
  have few := represents.few
  have fits := represents.fits
  have left : ({ h with sent := h.sent + 1 } : History).waiting = rest := behind
  refine ⟨represents.power, ?_, ?_, ?_, ?_, represents.inSeq, ?_, ?_⟩
  · have total := h.waiting_length
    change h.sent + 1 ≤ h.requests.length
    omega
  · rw [left]
    omega
  · rw [left]
    change rest.length ≤ c.proxy.cap.toNat
    omega
  · change c.proxy.outSeq + 1 = nth h.start (h.sent + 1)
    rw [represents.outSeq, nth_succ]
  · have popped := represents.power.window_pop c.proxy.outSeq (show rest.length < _ by omega) c.proxy.slots {}
    rw [← length, represents.slots, waiting, List.cons.injEq] at popped
    rw [left]
    exact popped.2.symm
  · rw [represents.output, History.output, History.output, List.take_add_one, here]
    simp

theorem Represents.flushRounds {rounds : Nat} (represents : Represents h c) (all : rounds = h.waiting.length) :
    Represents (h.step .flush) (Conn.flushRounds rounds c) := by
  induction rounds generalizing h c with
  | zero =>
    have empty := List.eq_nil_of_length_eq_zero all.symm
    rw [History.step, empty]
    exact represents
  | succ rounds ih =>
    obtain ⟨slot, rest, waiting⟩ : ∃ slot rest, h.waiting = slot :: rest := by
      cases waiting : h.waiting with
      | nil => simp [waiting] at all
      | cons slot rest => exact ⟨slot, rest, rfl⟩
    obtain ⟨here, more⟩ := represents.head waiting
    rw [Conn.flushRounds, if_neg more, here, History.step, waiting]
    simp only
    split
    next complete =>
      have popped := represents.pop waiting
      have left : ({ h with sent := h.sent + 1 } : History).waiting = rest := (History.requests_eq waiting).2
      have flushed := ih popped (by rw [left]; simpa [waiting] using all)
      rw [History.step, left] at flushed
      rw [List.takeWhile_cons_of_pos (by simpa using complete), List.length_cons, Nat.add_comm _ 1, ← Nat.add_assoc]
      exact flushed
    next open_ =>
      rw [List.takeWhile_cons_of_neg (by simpa using open_)]
      exact represents

theorem Represents.flush (represents : Represents h c) : Represents (h.step .flush) (c.step .flush) :=
  represents.flushRounds represents.count

end Flush

section Runs

def Op.Fits (c : Conn) : Op → Prop
  | .enqueue => (c.proxy.inSeq - c.proxy.outSeq).toNat + 1 < 2 ^ 31
  | .dispatch seq _ | .deferredReply seq _ | .msetOk seq => c.Outstanding seq
  | .reply _ _ | .flush => True

instance (c : Conn) : (op : Op) → Decidable (op.Fits c)
  | .enqueue => inferInstanceAs (Decidable (_ < _))
  | .dispatch seq _ | .deferredReply seq _ | .msetOk seq => inferInstanceAs (Decidable (c.Outstanding seq))
  | .reply _ _ | .flush => isTrue trivial

theorem Represents.reply (represents : Represents h c) (seq : UInt32) (m : Reply) :
    Represents (h.step (.reply seq m)) (c.step (.reply seq m)) := by
  have outside := outside_iff represents.few c.proxy.outSeq seq
  rw [← represents.last] at outside
  unfold Conn.step Conn.proxyReplyCallback
  simp only
  split
  next out =>
    have late := outside.1 out
    rw [represents.outSeq] at late
    simp only [History.step, History.change, if_neg (Nat.not_lt.2 late)]
    exact represents
  next inside =>
    refine represents.change ?_ _
    rw [Conn.Outstanding, represents.count]
    exact Nat.lt_of_not_le fun late => inside (outside.2 late)

theorem Represents.step (represents : Represents h c) {op : Op} (fits : op.Fits c) :
    Represents (h.step op) (c.step op) := by
  cases op with
  | enqueue =>
    rw [Op.Fits, represents.count] at fits
    exact represents.enqueue fits
  | dispatch seq d => exact represents.change fits _
  | reply seq m => exact represents.reply seq m
  | deferredReply seq m => exact represents.change fits _
  | msetOk seq => exact represents.change fits _
  | flush => exact represents.flush

theorem History.step_sent (sent : h.sent ≤ h.requests.length) (op : Op) :
    h.sent ≤ (h.step op).sent ∧ (h.step op).requests.take h.sent = h.requests.take h.sent := by
  have changed (seq : UInt32) (f : PipelineSlot → PipelineSlot) :
      h.sent ≤ (h.change seq f).sent ∧ (h.change seq f).requests.take h.sent = h.requests.take h.sent := by
    unfold History.change
    simp only
    split
    · exact ⟨Nat.le_refl _, h.take_modify _ f⟩
    · exact ⟨Nat.le_refl _, rfl⟩
  cases op with
  | enqueue => exact ⟨Nat.le_refl _, List.take_append_of_le_length sent⟩
  | dispatch seq d => exact changed seq _
  | reply seq m => exact changed seq _
  | deferredReply seq m => exact changed seq _
  | msetOk seq => exact changed seq _
  | flush => exact ⟨Nat.le_add_right _ _, rfl⟩

theorem History.change_same (h : History) (seq : UInt32) (f : PipelineSlot → PipelineSlot) :
    (h.change seq f).start = h.start ∧ (h.change seq f).sent = h.sent := by
  unfold History.change
  simp only
  split <;> exact ⟨rfl, rfl⟩

theorem History.step_start (h : History) (op : Op) : (h.step op).start = h.start := by
  cases op with
  | enqueue | flush => rfl
  | dispatch seq d => exact (h.change_same seq _).1
  | reply seq m => exact (h.change_same seq _).1
  | deferredReply seq m => exact (h.change_same seq _).1
  | msetOk seq => exact (h.change_same seq _).1

def History.SentComplete (h : History) : Prop := ∀ slot ∈ h.requests.take h.sent, slot.Complete

theorem History.SentComplete.step (complete : h.SentComplete) (sent : h.sent ≤ h.requests.length) (op : Op) :
    (h.step op).SentComplete := by
  have kept (same : (h.step op).sent = h.sent) : (h.step op).SentComplete := by
    rw [History.SentComplete, same, (History.step_sent sent op).2]
    exact complete
  cases op with
  | enqueue => exact kept rfl
  | dispatch seq d => exact kept (h.change_same seq _).2
  | reply seq m => exact kept (h.change_same seq _).2
  | deferredReply seq m => exact kept (h.change_same seq _).2
  | msetOk seq => exact kept (h.change_same seq _).2
  | flush =>
    intro slot member
    simp only [History.step, List.take_add, List.mem_append] at member
    rcases member with old | new
    · exact complete slot old
    · rw [← History.waiting, ← List.prefix_iff_eq_take.1 (List.takeWhile_prefix _)] at new
      simpa using List.all_eq_true.1 List.all_takeWhile slot new

theorem History.flush_head (h : History) : ∀ slot ∈ (h.step .flush).waiting.head?, ¬slot.Complete := by
  intro slot first
  have behind : (h.step .flush).waiting = h.waiting.dropWhile fun slot => slot.Complete := by
    have split := List.takeWhile_append_dropWhile (p := fun slot : PipelineSlot => slot.Complete) (l := h.waiting)
    rw [History.step, History.waiting, ← List.drop_drop, ← History.waiting]
    nth_rewrite 2 [← split]
    exact List.drop_left
  have unanswered := List.head?_dropWhile_not (fun slot : PipelineSlot => decide slot.Complete) h.waiting
  rw [behind] at first
  rw [Option.mem_def.1 first] at unanswered
  simpa using unanswered

abbrev Traced := Conn × History

def Traced.step (w : Traced) (op : Op) : Option Traced := some (w.1.step op, w.2.step op)

def opened (start cap : UInt32) : Traced :=
  ({ proxy := { slots := fun _ => {}, cap := cap, inSeq := start, outSeq := start }, wbuf := [] },
    { start := start, requests := [], sent := 0 })

theorem Represents.opened (start : UInt32) {cap : UInt32} (power : PowerOfTwo cap) :
    Represents (opened start cap).2 (opened start cap).1 :=
  ⟨power, Nat.le_refl _, Nat.two_pow_pos 31, Nat.zero_le _, (nth_zero start).symm, (nth_zero start).symm, rfl, rfl⟩

structure Traced.Good (start : UInt32) (w : Traced) : Prop where
  represents : Represents w.2 w.1
  start : w.2.start = start
  complete : w.2.SentComplete

theorem Traced.Good.reaches {start cap : UInt32} {w : Traced} (power : PowerOfTwo cap)
    (reached : Reaches Traced.step (fun w op => op.Fits w.1) (opened start cap) w) : w.Good start := by
  refine reached.invariant ⟨.opened start power, rfl, by simp [History.SentComplete, opened]⟩ ?_
  intro before after op good fits moved
  cases moved
  exact ⟨good.represents.step fits, (before.2.step_start op).trans good.start,
    good.complete.step good.represents.sent op⟩

theorem replies_in_order {start cap : UInt32} (power : PowerOfTwo cap) {c : Conn} {h : History}
    (reached : Reaches Traced.step (fun w op => op.Fits w.1) (opened start cap) (c, h)) :
    c.wbuf = ((h.requests.take h.sent).map PipelineSlot.serialize).flatten ∧
    (∀ slot ∈ h.requests.take h.sent, slot.Complete) ∧
    (∀ op, h.sent ≤ (h.step op).sent ∧ (h.step op).requests.take h.sent = h.requests.take h.sent) ∧
    (∀ k, h.sent ≤ k → ∀ slot ∈ h.requests[k]?, c.proxy.slot (nth start k) = slot) ∧
    (∀ j k, h.sent ≤ j → j < h.requests.length → h.sent ≤ k → k < h.requests.length →
      place c.proxy.cap (nth start j) = place c.proxy.cap (nth start k) → j = k) ∧
    ∀ slot ∈ (h.step .flush).waiting.head?, ¬slot.Complete := by
  have good := Traced.Good.reaches power reached
  have represents : Represents h c := good.represents
  obtain rfl : h.start = start := good.start
  have number {k : Nat} (after : h.sent ≤ k) : nth c.proxy.outSeq (k - h.sent) = nth h.start k := by
    rw [represents.outSeq, nth_add, Nat.add_sub_cancel' after]
  have total := h.waiting_length
  have fits := represents.fits
  refine ⟨represents.output, good.complete, History.step_sent represents.sent, ?_, ?_, h.flush_head⟩
  · intro k after slot found
    have entry : h.waiting[k - h.sent]? = some slot := by
      rw [History.waiting, List.getElem?_drop, Nat.add_sub_cancel' after]
      exact found
    obtain ⟨within, -⟩ := List.getElem?_eq_some_iff.1 entry
    rw [← represents.slots, getElem?_window _ within, number after] at entry
    exact Option.some.inj entry
  · intro j k after below after' below' same
    have same' : place c.proxy.cap (nth c.proxy.outSeq (j - h.sent)) = place c.proxy.cap (nth c.proxy.outSeq (k - h.sent)) := by
      rwa [number after, number after']
    have equal := represents.power.place_inj (by omega) (by omega) same'
    omega

def secondFirst : List Op :=
  [.enqueue, .dispatch 5 .sent, .enqueue, .dispatch 6 .sent, .reply 6 { replyType := .nil }, .flush,
    .reply 5 { replyType := .ok }, .flush]

theorem replies_in_order_second_first : ∃ c h,
    follow Traced.step (fun w op => decide (op.Fits w.1)) secondFirst (opened 5 1) = some (c, h) ∧ h.sent = 2 ∧
      c.wbuf = ((h.requests.take h.sent).map PipelineSlot.serialize).flatten ∧ c.wbuf = ascii "+OK\r\n$-1\r\n" := by
  have ran : (follow Traced.step (fun w op => decide (op.Fits w.1)) secondFirst (opened 5 1)).map
      (fun w => (w.2.sent, w.1.wbuf)) = some (2, ascii "+OK\r\n$-1\r\n") := by decide +kernel
  obtain ⟨⟨c, h⟩, followed, result⟩ := Option.map_eq_some_iff.1 ran
  rw [Prod.mk.injEq] at result
  have run := replies_in_order ⟨0, rfl⟩ (follow_reaches (fun _ _ => of_decide_eq_true) followed)
  exact ⟨c, h, followed, result.1, run.1, result.2⟩

end Runs

end FreakV.Net
