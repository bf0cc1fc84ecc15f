import FreakV.Spsc.Fifo

namespace FreakV.Spsc

open Transition

variable {α : Type} {s : Run α}

structure Lossless (s : Run α) : Prop where
  order : s.popped <+: s.pushed
  content : s.machine.content = s.pushed.drop s.popped.length
  -- a push that returns false takes only such steps
  unchanged : ∀ a m outcome, InTurn s a → s.machine.step a = some (m, outcome) →
    outcome = .running ∨ outcome = .refused → m.content = s.machine.content
  empty : ∀ m, s.machine.step .pop = some (m, .empty) → s.before ≤ s.popped.length
  -- the first message that goes into a segment anew finds it read to the end
  reuse : ∀ room msg h, s.machine.producer = .storeSlot msg h → InTurn s (.push room) → h % 4096 = 0 →
    ∀ i, s.placed[i]? = some s.machine.queue.pSeg → i < s.popped.length

theorem Sound.unchanged {a : Action α} {m : Machine α} {outcome : Outcome α} (sound : Sound s) (inTurn : InTurn s a)
    (moved : s.machine.step a = some (m, outcome)) (quiet : outcome = .running ∨ outcome = .refused) :
    m.content = s.machine.content := by
  obtain ⟨_, inv⟩ := id sound
  have taken : s.step a = some { s.called a with machine := m } := by
    rw [Run.step, moved, Option.map_some]
    obtain rfl | rfl := quiet <;> rfl
  have called : (s.called a).pushed = s.pushed ∧ (s.called a).popped = s.popped := by
    cases a <;> exact ⟨rfl, rfl⟩
  have after := (inv.step inTurn taken).content
  rw [called.1, called.2] at after
  exact after.trans sound.content.symm

theorem Sound.empty {m : Machine α} (sound : Sound s) (moved : s.machine.step .pop = some (m, .empty)) :
    s.before ≤ s.popped.length := by
  obtain ⟨unread, ⟨_, _, _, _, agrees⟩, past, -, earlier⟩ := sound
  obtain ⟨⟨q, p, c⟩, pushed, popped, placed, before⟩ := s
  cases c with
  | loadHead t =>
    have loaded := agrees.loadHead
    by_cases same : t = q.head
    · rw [if_pos same] at loaded
      rwa [past, loaded.1, List.append_nil] at earlier
    · cases cross : crosses t <;> simp [Machine.step, Queue.pop, same, cross] at moved
  | _ => simp [Machine.step, Queue.pop] at moved

theorem Sound.reuse {room : Bool} {msg : α} {h : Nat} (sound : Sound s) (here : s.machine.producer = .storeSlot msg h)
    (inTurn : InTurn s (.push room)) (start : h % 4096 = 0) {i : Nat}
    (there : s.placed[i]? = some s.machine.queue.pSeg) : i < s.popped.length := by
  obtain ⟨unread, ⟨busy, free, co, gap, agrees⟩, past, length, -⟩ := sound
  obtain ⟨⟨q, p, c⟩, pushed, popped, placed, before⟩ := s
  obtain rfl : p = .storeSlot msg h := here
  obtain ⟨atHead, wraps⟩ : h = q.head ∧ (gap = 0 → h = 0) := agrees.producer
  have inTurn : h = 0 → q.tail = 0 := inTurn
  simp only at past length there
  have inside : i < placed.length := (List.getElem?_eq_some_iff.1 there).1
  rw [length, past, List.length_append] at inside
  by_contra later
  have later : popped.length ≤ i := Nat.le_of_not_lt later
  have size : 4096 * busy.length = co + unread.length + gap := agrees.counted.size
  have mod : (q.head + gap) % 4096 = 0 := agrees.counted.gap_mod
  have small : gap ≤ 4096 := agrees.counted.gap_le
  have count : q.tail + unread.length = q.head ∨ q.head = 0 ∧ gap = 0 ∧ 0 < q.tail ∧ _ := agrees.counted.count
  have same := agrees.stored.placed (i - popped.length) (by omega)
  rw [List.getElem?_drop, Nat.add_sub_cancel' later] at same
  have last := agrees.shape.index_pSeg (same.trans there)
  omega

theorem lossless_fifo {memory : Nat → Segment α} (run : Reaches Run.step InTurn (Run.init memory) s) : Lossless s := by
  have sound := sound_of_run run
  refine ⟨?_, sound.content, fun _ _ _ inTurn moved quiet => sound.unchanged inTurn moved quiet,
    fun _ moved => sound.empty moved, fun _ _ _ here inTurn start _ there => sound.reuse here inTurn start there⟩
  obtain ⟨unread, inv⟩ := sound
  exact ⟨unread, inv.past.symm⟩

section Sample

def junk : Nat → Segment Nat := fun _ => ⟨0, fun _ => 0⟩

def inTurn (s : Run α) : Action α → Bool
  | .push _ =>
    match s.machine.producer with
    | .storeSlot _ h => h != 0 || s.machine.queue.tail == 0
    | .storeHead _ h => h + 1 != sizes || s.machine.queue.tail != 0
    | _ => true
  | _ => true

theorem inTurn_sound (s : Run α) (a : Action α) (checked : inTurn s a = true) : InTurn s a := by
  obtain ⟨⟨q, p, c⟩, pushed, popped, placed, before⟩ := s
  cases a with
  | push room =>
    cases p with
    | storeSlot msg h =>
      intro zero
      simpa [inTurn, zero] using checked
    | storeHead msg h =>
      intro round
      simpa [inTurn, round] using checked
    | _ => trivial
  | _ => trivial

def sampleRun : Option (Run Nat) :=
  follow Run.step inTurn [.callPush 7, .callPop, .push true, .push true, .callPush 8, .pop, .pop, .pop, .callPop]
    (Run.init junk)

theorem lossless_fifo_sample : ∃ s, sampleRun = some s ∧ Reaches Run.step InTurn (Run.init junk) s ∧ s.pushed = [7] ∧
    s.popped = [7] ∧ Lossless s :=
  ⟨_, rfl, follow_reaches inTurn_sound (show sampleRun = some _ from rfl), rfl, rfl,
    lossless_fifo (follow_reaches inTurn_sound (show sampleRun = some _ from rfl))⟩

end Sample

section Round

def Run.producing (s : Run α) (q : Queue α) (p : Producer α) : Run α := { s with machine := ⟨q, p, s.machine.consumer⟩ }

theorem push_alone (s : Run α) (msg : α) (idle : s.machine.producer = .idle)
    (first : s.machine.queue.head = 0 → s.machine.queue.tail = 0)
    (last : s.machine.queue.head + 1 = sizes → s.machine.queue.tail ≠ 0) :
    ∃ s', Reaches Run.step InTurn s s' ∧ s'.machine.producer = .idle ∧ s'.machine.consumer = s.machine.consumer ∧
      s'.machine.queue.head = (s.machine.queue.head + 1) % sizes ∧ s'.machine.queue.tail = s.machine.queue.tail ∧
      s'.pushed = s.pushed ++ [msg] ∧ s'.popped = s.popped := by
  generalize here : s.machine.queue = q at first last
  -- from the moment the segment is right, two steps remain
  have finish {q' : Queue α} (reached : Reaches Run.step InTurn s (s.producing q' (.storeSlot msg q.head)))
      (tail : q'.tail = q.tail) :
      ∃ s', Reaches Run.step InTurn s s' ∧ s'.machine.producer = .idle ∧ s'.machine.consumer = s.machine.consumer ∧
        s'.machine.queue.head = (q.head + 1) % sizes ∧ s'.machine.queue.tail = q.tail ∧ s'.pushed = s.pushed ++ [msg] ∧
        s'.popped = s.popped := by
    have write : InTurn (s.producing q' (.storeSlot msg q.head)) (.push true) := fun zero => tail.trans (first zero)
    have publish (q'' : Queue α) (same : q''.tail = q.tail) :
        InTurn (s.producing q'' (.storeHead msg q.head)) (.push true) :=
      fun round zero => last round (same.symm.trans zero)
    exact ⟨_, .tail (.tail reached write rfl) (publish _ tail) rfl, rfl, rfl, rfl, tail, rfl, rfl⟩
  have call : InTurn s (.callPush msg) := trivial
  have goesOn {q q' : Queue α} {p p' : Producer α} (reached : Reaches Run.step InTurn s (s.producing q p))
      (quiet : InTurn (s.producing q p) (.push true)) (moved : q.push true p = some (q', p', .running)) :
      Reaches Run.step InTurn s (s.producing q' p') := by
    refine .tail reached quiet ?_
    simp [Run.step, Machine.step, Run.producing, moved, Run.called, Run.record]
  have called : s.step (.callPush msg) =
      some (s.producing q (if crosses q.head then .loadNext msg q.head else .storeSlot msg q.head)) := by
    simp [Run.step, Machine.step, idle, here, Run.called, Run.record, Run.producing]
  cases cross : crosses q.head with
  | false =>
    simp only [cross, Bool.false_eq_true, if_false] at called
    exact finish (.tail .refl call called) rfl
  | true =>
    simp only [cross, if_true] at called
    have loaded := goesOn (.tail .refl call called) trivial rfl
    by_cases occupied : (q.segs q.pSeg).next = q.cSegShared
    · have compared := goesOn loaded trivial (if_pos occupied)
      have allocated := goesOn compared trivial rfl
      exact finish (goesOn allocated trivial rfl) rfl
    · exact finish (goesOn loaded trivial (if_neg occupied)) rfl

structure Resting (s : Run Bool) (n k : Nat) : Prop where
  reached : ∃ memory, Reaches Run.step InTurn (Run.init memory) s
  producer : s.machine.producer = .idle
  consumer : s.machine.consumer = .idle
  head : s.machine.queue.head = n % sizes
  tail : s.machine.queue.tail = k
  pushed : s.pushed = List.replicate n false
  popped : s.popped = List.replicate k false

theorem Resting.push {s : Run Bool} {n k : Nat} (resting : Resting s n k) (below : n < sizes)
    (first : n = 0 → k = 0) (last : n + 1 = sizes → k ≠ 0) : ∃ s', Resting s' (n + 1) k := by
  obtain ⟨⟨memory, reached⟩, producer, consumer, head, tail, pushed, popped⟩ := resting
  rw [Nat.mod_eq_of_lt below] at head
  obtain ⟨s', more, idle, same, head', tail', pushed', popped'⟩ :=
    push_alone s false producer (by rwa [head, tail]) (by rwa [head, tail])
  refine ⟨s', ⟨memory, reached.trans more⟩, idle, same.trans consumer, by rw [head', head], tail'.trans tail, ?_,
    popped'.trans popped⟩
  rw [pushed', pushed, List.replicate_succ']

theorem Resting.pop {s : Run Bool} {n : Nat} (resting : Resting s (n + 1) n) (below : n + 1 < sizes) :
    ∃ s', Resting s' (n + 1) (n + 1) := by
  obtain ⟨⟨memory, reached⟩, producer, consumer, head, tail, pushed, popped⟩ := resting
  obtain ⟨unread, inv⟩ := sound_of_run reached
  have past := inv.past
  rw [pushed, popped, List.replicate_succ', List.append_cancel_left_eq] at past
  obtain ⟨s', gets⟩ := Inv.gets (past ▸ inv) (Nat.le_refl _)
  obtain ⟨_, _, _, _, after⟩ := gets.inv.holds
  have head' := gets.head.trans head
  have tail' := after.counted.tail_eq_head_iff.2 rfl
  rw [Nat.mod_eq_of_lt below] at head'
  refine ⟨s', ⟨memory, reached.trans gets.reached⟩, gets.producer.trans producer, gets.idle, gets.head.trans head,
    tail'.trans head', gets.pushed.trans pushed, ?_⟩
  rw [gets.popped, popped, List.replicate_succ']

theorem resting_drained (n : Nat) (below : n < sizes) : ∃ s, Resting s n n := by
  induction n with
  | zero => exact ⟨Run.init fun _ => ⟨0, fun _ => false⟩, ⟨_, .refl⟩, rfl, rfl, rfl, rfl, rfl, rfl⟩
  | succ n ih =>
    obtain ⟨s, resting⟩ := ih (by omega)
    obtain ⟨s, resting⟩ := resting.push (by omega) (fun zero => zero) (by omega)
    exact resting.pop below

theorem resting_filled (n : Nat) (positive : 0 < n) (k : Nat) (below : n + k ≤ sizes) (some_left : n < sizes) :
    ∃ s, Resting s (n + k) n := by
  induction k with
  | zero => exact resting_drained n some_left
  | succ k ih =>
    obtain ⟨s, resting⟩ := ih (by omega)
    exact resting.push (by omega) (by omega) (fun _ => by omega)

theorem overwritten {s : Run Bool} {n : Nat} (resting : Resting s (n + 4096) n) (positive : 0 < n)
    (round : n + 4096 = sizes) :
    ∃ s', Reaches Run.step (fun _ _ => True) s s' ∧ s'.pushed = List.replicate (n + 4096) false ++ [true] ∧
      s'.popped = List.replicate n false ++ [true] := by
  obtain ⟨⟨memory, reached⟩, producer, consumer, head, tail, pushed, popped⟩ := resting
  obtain ⟨unread, ⟨busy, free, co, gap, agrees⟩, -, -, -⟩ := sound_of_run reached
  obtain ⟨⟨q, p, c⟩, pushes, pops, placed, before⟩ := s
  simp only at producer consumer head tail pushed popped
  subst producer consumer pushed popped
  rw [round, Nat.mod_self] at head
  have mod : n % 4096 = 0 := by
    simp only [sizes] at round
    omega
  have next : (q.segs q.cSeg).next = q.pSeg := by
    obtain ⟨here, first⟩ : q.cSeg = q.cSegShared ∧ (co = 0 → q.tail = 0) := agrees.consumer
    have size : 4096 * busy.length = co + unread.length + gap := agrees.counted.size
    have small : co ≤ 4096 := agrees.counted.co_le
    have tail_mod : q.tail % 4096 = co % 4096 := agrees.counted.tail_mod
    have count : q.tail + unread.length = q.head ∨ q.head = 0 ∧ gap = 0 ∧ 0 < q.tail ∧ q.tail + unread.length = sizes :=
      agrees.counted.count
    have second : busy[1]? = some q.pSeg := by
      have two : busy.length - 1 = 1 := by omega
      rw [← two, ← List.getLast?_eq_getElem?]
      exact agrees.shape.last
    rw [here]
    exact agrees.shape.next_shared second
  have starts : crosses 0 = false := rfl
  have crossing : crosses n = true := (crosses_iff n).2 ⟨positive, mod⟩
  have different : n ≠ 1 := by omega
  have first : n &&& spscSegMask = 0 := (and_spscSegMask n).trans mod
  have one : 1 % sizes = 1 := rfl
  have overwrites := q.slots_setSlot_self q.pSeg 0 true
  have followed : ∃ s', follow Run.step (fun _ _ => true)
      [.callPush true, .push true, .push true, .callPop, .pop, .pop, .pop, .pop, .pop]
      ⟨⟨q, .idle, .idle⟩, List.replicate (n + 4096) false, List.replicate n false, placed, before⟩ = some s' ∧
      s'.pushed = List.replicate (n + 4096) false ++ [true] ∧ s'.popped = List.replicate n false ++ [true] := by
    have kept : (q.setSlot q.pSeg 0 true).tail = n := tail
    have reads : (q.setSlot q.pSeg 0 true).cSeg = q.cSeg := rfl
    simp [follow, Run.step, Machine.step, Queue.push, Queue.pop, Run.called, Run.record, head, starts, one, kept,
      different, crossing, reads, next, first, overwrites]
  obtain ⟨s', followed, pushed', popped'⟩ := followed
  exact ⟨s', follow_reaches (fun _ _ _ => trivial) followed, pushed', popped'⟩

/-- After 2^64 - 4096 messages pushed and popped, 4096 more are pushed and none popped. The next one is written over
the first of them. -/
theorem message_lost_at_wrap : ¬ ∀ (memory : Nat → Segment Bool) (s : Run Bool),
    Reaches Run.step (fun _ _ => True) (Run.init memory) s → s.popped <+: s.pushed := by
  intro always
  have round : sizes - 4096 + 4096 = sizes := rfl
  have positive : 0 < sizes - 4096 := by decide
  generalize sizes - 4096 = n at round positive
  obtain ⟨s, resting⟩ := resting_filled n positive 4096 (Nat.le_of_eq round) (by omega)
  obtain ⟨memory, reached⟩ := resting.reached
  obtain ⟨s', more, pushed, popped⟩ := overwritten resting positive round
  obtain ⟨later, eq⟩ := always memory s' ((reached.mono fun _ _ _ => trivial).trans more)
  rw [pushed, popped, List.replicate_add, List.append_assoc, List.append_assoc, List.append_cancel_left_eq,
    List.replicate_succ] at eq
  cases eq

end Round

end FreakV.Spsc
