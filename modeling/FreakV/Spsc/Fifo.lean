import FreakV.Spsc.Layout

namespace FreakV.Spsc

variable {α : Type} {q q' : Queue α} {busy free busy' free' : List Nat} {co gap : Nat} {unread unread' : List α}
  {s s' : Run α}

/-- The head comes round to 0 only into an empty queue: a message at head 0 finds everything read, and the message
before it does not make the counters meet again. -/
def InTurn (s : Run α) : Action α → Prop
  | .push _ =>
    match s.machine.producer with
    | .storeSlot _ h => h = 0 → s.machine.queue.tail = 0
    | .storeHead _ h => h + 1 = sizes → s.machine.queue.tail ≠ 0
    | _ => True
  | _ => True

theorem ConsumerAt.mono {c : Consumer α} (consumer : ConsumerAt q busy co unread c) (cSeg : q'.cSeg = q.cSeg)
    (shared : q'.cSegShared = q.cSegShared) (tail : q'.tail = q.tail)
    (second : ∀ b, busy[1]? = some b → busy'[1]? = some b) (more : unread <+: unread') :
    ConsumerAt q' busy' co unread' c := by
  obtain ⟨l, rfl⟩ := more
  cases c with
  | idle => simpa only [ConsumerAt, cSeg, shared, tail] using consumer
  | loadHead t => simpa only [ConsumerAt, cSeg, shared, tail] using consumer
  | loadNext t =>
    obtain ⟨here, full, eq, some_unread⟩ := consumer
    exact ⟨by rw [cSeg, shared, here], full, by rw [tail, eq], by simp [some_unread]⟩
  | storeShared t =>
    obtain ⟨here, full, eq, some_unread⟩ := consumer
    exact ⟨second _ (cSeg ▸ here), full, by rw [tail, eq], by simp [some_unread]⟩
  | loadSlot t =>
    obtain ⟨here, within, eq, some_unread⟩ := consumer
    exact ⟨by rw [cSeg, shared, here], within, by rw [tail, eq], by simp [some_unread]⟩
  | storeTail t out =>
    obtain ⟨here, within, eq, first⟩ := consumer
    exact ⟨by rw [cSeg, shared, here], within, by rw [tail, eq], by rw [List.head?_append, first, Option.some_or]⟩

theorem ProducerAt.congr {p : Producer α} (producer : ProducerAt q busy free gap p) (head : q'.head = q.head)
    (pSeg : q'.pSeg = q.pSeg) (segs : q'.segs = q.segs) (nrSegs : q'.nrSegs = q.nrSegs)
    (members : ∀ seg ∈ busy' ++ free', seg ∈ busy ++ free) : ProducerAt q' busy' free' gap p := by
  cases p with
  | storeNext msg h newSeg =>
    obtain ⟨eq, started, full, leads, known, fresh⟩ := producer
    exact ⟨head ▸ eq, started, full, by rw [segs, pSeg, leads], nrSegs ▸ known, fun there => fresh (members _ there)⟩
  | _ => simpa only [ProducerAt, head, pSeg, segs] using producer

namespace Agrees

section Producer

variable {c : Consumer α} {placed : List Nat} {h nextSeg newSeg : Nat} {msg : α}

theorem callPush (agrees : Agrees ⟨q, .idle, c⟩ busy free co gap unread placed) (msg : α) :
    Agrees ⟨q, if crosses q.head then .loadNext msg q.head else .storeSlot msg q.head, c⟩ busy free co gap unread placed := by
  refine { agrees with producer := ?_ }
  have resting : gap = 4096 → q.head = 0 := agrees.producer
  have mod : (q.head + gap) % 4096 = 0 := agrees.counted.gap_mod
  have small := agrees.counted.gap_le
  cases cross : crosses q.head with
  | true =>
    rw [crosses_iff] at cross
    exact ⟨rfl, cross.1, by omega⟩
  | false =>
    rw [crosses_eq_false] at cross
    exact ⟨rfl, by omega⟩

theorem second_append {b : Nat} (seg : Nat) (there : busy[1]? = some b) : (busy ++ [seg])[1]? = some b := by
  rw [List.getElem?_append_left (List.getElem?_eq_some_iff.1 there).1, there]

theorem loadShared (agrees : Agrees ⟨q, .loadShared msg h nextSeg, c⟩ busy free co gap unread placed)
    (passed : nextSeg ≠ q.cSegShared) : Holds ⟨{ q with pSeg := nextSeg }, .storeSlot msg h, c⟩ unread placed := by
  obtain ⟨shape, counted, stored, producer, consumer⟩ := agrees
  obtain ⟨rfl, started, rfl, next⟩ : h = q.head ∧ 0 < h ∧ gap = 0 ∧ nextSeg = (q.segs q.pSeg).next := producer
  have leads : nextSeg = free.headD q.cSegShared := next.trans shape.next_pSeg
  obtain ⟨rest, rfl⟩ : ∃ rest, free = nextSeg :: rest := by
    cases free with
    | nil => exact absurd leads passed
    | cons seg rest => exact ⟨rest, by rw [leads]; rfl⟩
  have size := counted.size
  exact ⟨busy ++ [nextSeg], rest, co, 4096,
    { shape := shape.enter
      counted := { counted.enter started nextSeg with }
      stored := stored.enter nextSeg (by omega)
      producer := ⟨rfl, fun no => nomatch no⟩
      consumer := consumer.mono rfl rfl rfl (fun _ there => second_append nextSeg there) (List.prefix_refl _) }⟩

theorem alloc (agrees : Agrees ⟨q, .alloc msg h nextSeg, c⟩ busy free co gap unread placed) :
    Holds ⟨{ q with nrSegs := q.nrSegs + 1 }.setNext q.nrSegs nextSeg, .storeNext msg h q.nrSegs, c⟩ unread placed := by
  obtain ⟨shape, counted, stored, producer, consumer⟩ := agrees
  obtain ⟨rfl, started, full, next⟩ : h = q.head ∧ 0 < h ∧ gap = 0 ∧ nextSeg = (q.segs q.pSeg).next := producer
  have old : q.pSeg ≠ q.nrSegs :=
    Nat.ne_of_lt (shape.known q.pSeg (List.mem_append_left _ (List.mem_of_getLast? shape.last)))
  exact ⟨busy, free, co, gap,
    { shape := shape.congr (fun seg known => Queue.next_setNext_of_ne _ _ (Nat.ne_of_lt known)) (Nat.le_succ _) rfl rfl
      counted := { counted with }
      stored := stored.congr fun seg _ => Queue.slots_setNext _ _ _ _
      producer := by
        refine ⟨rfl, started, full, ?_, Nat.lt_succ_self _, fun there => ?_⟩
        · exact (Queue.next_setNext_self _ _ _).trans (next.trans (Queue.next_setNext_of_ne _ _ old).symm)
        · exact Nat.lt_irrefl _ (shape.known _ there)
      consumer := consumer.mono rfl rfl rfl (fun _ there => there) (List.prefix_refl _) }⟩

theorem storeNext (agrees : Agrees ⟨q, .storeNext msg h newSeg, c⟩ busy free co gap unread placed) :
    Holds ⟨{ q.setNext q.pSeg newSeg with pSeg := newSeg }, .storeSlot msg h, c⟩ unread placed := by
  obtain ⟨shape, counted, stored, producer, consumer⟩ := agrees
  obtain ⟨rfl, started, rfl, leads, known, fresh⟩ : h = q.head ∧ 0 < h ∧ gap = 0 ∧
    (q.segs newSeg).next = (q.segs q.pSeg).next ∧ newSeg < q.nrSegs ∧ newSeg ∉ busy ++ free := producer
  have size := counted.size
  have kept : Stored (q.setNext q.pSeg newSeg).segs busy co unread placed :=
    stored.congr fun seg _ => Queue.slots_setNext _ _ _ _
  exact ⟨busy ++ [newSeg], free, co, 4096,
    { shape := shape.link leads known fresh
      counted := { counted.enter started newSeg with }
      stored := kept.enter newSeg (by omega)
      producer := ⟨rfl, fun no => nomatch no⟩
      consumer := consumer.mono rfl rfl rfl (fun _ there => second_append newSeg there) (List.prefix_refl _) }⟩

theorem storeSlot (agrees : Agrees ⟨q, .storeSlot msg h, c⟩ busy free co gap unread placed) (inTurn : h = 0 → q.tail = 0) :
    Holds ⟨q.setSlot q.pSeg (h % 4096) msg, .storeHead msg h, c⟩ unread placed := by
  obtain ⟨shape, counted, stored, producer, consumer⟩ := agrees
  obtain ⟨rfl, wraps⟩ : h = q.head ∧ (gap = 0 → h = 0) := producer
  have written := q.slots_setSlot_self q.pSeg (q.head % 4096) msg
  have shape' : Shape (q.setSlot q.pSeg (q.head % 4096) msg) busy free :=
    shape.congr (fun seg _ => q.next_setSlot _ _ _ _) (Nat.le_refl _) rfl rfl
  by_cases full : gap = 0
  · have head : q.head = 0 := wraps full
    have tail : q.tail = 0 := inTurn head
    obtain rfl : unread = [] := by
      have count : q.tail + unread.length = q.head ∨ _ ∧ _ ∧ 0 < q.tail ∧ _ := counted.count
      exact List.length_eq_zero_iff.1 (by omega)
    have size := counted.size
    have small := counted.co_le
    have positive := shape.length_pos
    rw [List.length_nil] at size
    refine ⟨busy, free, 0, 4096,
      { shape := shape'
        counted := ⟨by rw [List.length_nil]; omega, Nat.le_refl _, Nat.zero_le _, by simp [Queue.setSlot, tail],
          counted.head_lt, counted.tail_lt, .inl (by simp [Queue.setSlot, tail, head]), by simp⟩
        stored := ⟨by simp, by simp⟩
        producer := ⟨rfl, by decide, written⟩
        consumer := ?_ }⟩
    -- with nothing to read the consumer has not come past the head
    cases c with
    | idle => exact ⟨consumer.1, fun _ => tail⟩
    | loadHead t => exact ⟨consumer.1, fun _ => tail, consumer.2.2⟩
    | loadNext t => exact absurd rfl consumer.2.2.2
    | storeShared t => exact absurd rfl consumer.2.2.2
    | loadSlot t => exact absurd rfl consumer.2.2.2
    | storeTail t out => cases consumer.2.2.2
  · have mod : q.head % 4096 = (co + unread.length) % 4096 := counted.head_mod
    have room : 0 < gap := Nat.pos_of_ne_zero full
    exact ⟨busy, free, co, gap,
      { shape := shape'
        counted := { counted with }
        stored := by
          have kept := stored.setSlot shape msg counted.size room counted.gap_le
          rwa [← mod] at kept
        producer := ⟨rfl, room, written⟩
        consumer := consumer.mono rfl rfl rfl (fun _ there => there) (List.prefix_refl _) }⟩

theorem storeHead (agrees : Agrees ⟨q, .storeHead msg h, c⟩ busy free co gap unread placed)
    (inTurn : h + 1 = sizes → q.tail ≠ 0) (length : placed.length = unread.length) :
    Holds ⟨{ q with head := (h + 1) % sizes }, .idle, c⟩ (unread ++ [msg]) (placed ++ [q.pSeg]) := by
  obtain ⟨shape, counted, stored, producer, consumer⟩ := agrees
  obtain ⟨rfl, room, written⟩ : h = q.head ∧ 0 < gap ∧ (q.segs q.pSeg).slots (h % 4096) = msg := producer
  have mod : q.head % 4096 = (co + unread.length) % 4096 := counted.head_mod
  have small : gap ≤ 4096 := counted.gap_le
  exact ⟨busy, free, co, gap - 1,
    { shape := { shape with }
      counted := counted.push room msg inTurn
      stored := stored.push shape msg counted.size room small length (by rw [← mod, written])
      producer := fun no => by omega
      consumer := consumer.mono rfl rfl rfl (fun _ there => there) (List.prefix_append _ _) }⟩

end Producer

section Consumer

variable {p : Producer α} {placed : List Nat} {t : Nat}

theorem loadHead (agrees : Agrees ⟨q, p, .loadHead t⟩ busy free co gap unread placed) :
    if t = q.head then unread = [] ∧ Agrees ⟨q, p, .idle⟩ busy free co gap unread placed
    else if crosses t then Agrees ⟨q, p, .loadNext t⟩ busy free co gap unread placed
    else Agrees ⟨q, p, .loadSlot t⟩ busy free co gap unread placed := by
  obtain ⟨shape, counted, stored, producer, consumer⟩ := agrees
  obtain ⟨here, first, rfl⟩ : q.cSeg = q.cSegShared ∧ (co = 0 → q.tail = 0) ∧ t = q.tail := consumer
  have equal : q.tail = q.head ↔ unread = [] := counted.tail_eq_head_iff
  have mod : q.tail % 4096 = co % 4096 := counted.tail_mod
  have small : co ≤ 4096 := counted.co_le
  have wrapped : q.tail = 0 → co = 4096 → unread = [] ∧ gap = 0 := counted.wrapped
  split
  next same => exact ⟨equal.1 same, shape, counted, stored, producer, here, first⟩
  next different =>
    have unreadMore : unread ≠ [] := fun none => different (equal.2 none)
    split
    next cross =>
      rw [crosses_iff] at cross
      exact ⟨shape, counted, stored, producer, here, by omega, rfl, unreadMore⟩
    next within =>
      rw [Bool.not_eq_true, crosses_eq_false] at within
      have : co ≠ 4096 := fun full => unreadMore (wrapped (by omega) full).1
      exact ⟨shape, counted, stored, producer, here, by omega, rfl, unreadMore⟩

theorem loadNext (agrees : Agrees ⟨q, p, .loadNext t⟩ busy free co gap unread placed) :
    Agrees ⟨{ q with cSeg := (q.segs q.cSeg).next }, p, .storeShared t⟩ busy free co gap unread placed := by
  obtain ⟨shape, counted, stored, producer, consumer⟩ := agrees
  obtain ⟨here, rfl, rfl, unreadMore⟩ : q.cSeg = q.cSegShared ∧ co = 4096 ∧ t = q.tail ∧ unread ≠ [] := consumer
  have size := counted.size
  have positive := List.length_pos_iff.2 unreadMore
  obtain ⟨b, second⟩ : ∃ b, busy[1]? = some b := ⟨_, List.getElem?_eq_getElem (by omega)⟩
  have next : (q.segs q.cSeg).next = b := by rw [here]; exact shape.next_shared second
  exact
    { shape := { shape with }
      counted := { counted with }
      stored := stored
      producer := producer.congr rfl rfl rfl rfl fun _ there => there
      consumer := ⟨by rw [second, next], rfl, rfl, unreadMore⟩ }

theorem storeShared (agrees : Agrees ⟨q, p, .storeShared t⟩ busy free co gap unread placed) :
    Holds ⟨{ q with cSegShared := q.cSeg }, p, .loadSlot t⟩ unread placed := by
  obtain ⟨shape, counted, stored, producer, consumer⟩ := agrees
  obtain ⟨second, rfl, rfl, unreadMore⟩ : busy[1]? = some q.cSeg ∧ co = 4096 ∧ t = q.tail ∧ unread ≠ [] := consumer
  obtain ⟨a, rest, rfl⟩ : ∃ a rest, busy = a :: q.cSeg :: rest := by
    match busy, second with
    | a :: b :: rest, second => exact ⟨a, rest, by simpa using second⟩
  have size := counted.size
  exact ⟨q.cSeg :: rest, free ++ [a], 0, gap,
    { shape := shape.leave
      counted := { counted with
        size := by simp only [List.length_cons] at size ⊢; omega
        co_le := Nat.zero_le _
        tail_mod := counted.tail_mod
        wrapped := fun _ no => nomatch no }
      stored := stored.leave
      producer := producer.congr rfl rfl rfl rfl fun seg there => by
        simp only [List.mem_append, List.mem_cons, List.not_mem_nil] at there ⊢
        tauto
      consumer := ⟨rfl, by decide, rfl, unreadMore⟩ }⟩

theorem loadSlot (agrees : Agrees ⟨q, p, .loadSlot t⟩ busy free co gap unread placed) :
    Agrees ⟨q, p, .storeTail t ((q.segs q.cSeg).slots (t % 4096))⟩ busy free co gap unread placed := by
  obtain ⟨shape, counted, stored, producer, consumer⟩ := agrees
  obtain ⟨here, within, rfl, unreadMore⟩ : q.cSeg = q.cSegShared ∧ co < 4096 ∧ t = q.tail ∧ unread ≠ [] := consumer
  refine ⟨shape, counted, stored, producer, here, within, rfl, ?_⟩
  have first : busy[0]? = some q.cSeg := by rw [← List.head?_eq_getElem?, here]; exact shape.first
  have read : slotAt q.segs busy (co + 0) = unread[0]? := stored.slots 0 (List.length_pos_iff.2 unreadMore)
  have mod : q.tail % 4096 = co % 4096 := counted.tail_mod
  rw [List.head?_eq_getElem?, ← read, slotAt, Nat.add_zero, Nat.div_eq_of_lt within, first, Option.map_some, mod]

theorem storeTail {out : α} (agrees : Agrees ⟨q, p, .storeTail t out⟩ busy free co gap unread placed) :
    unread = out :: unread.tail ∧
      Agrees ⟨{ q with tail := (t + 1) % sizes }, p, .idle⟩ busy free (co + 1) gap unread.tail placed.tail := by
  obtain ⟨shape, counted, stored, producer, consumer⟩ := agrees
  obtain ⟨here, within, rfl, first⟩ : q.cSeg = q.cSegShared ∧ co < 4096 ∧ t = q.tail ∧ unread.head? = some out :=
    consumer
  obtain ⟨rest, rfl⟩ := List.head?_eq_some_iff.1 first
  exact ⟨rfl,
    { shape := { shape with }
      counted := counted.pop within
      stored := stored.pop
      producer := producer.congr rfl rfl rfl rfl fun _ there => there
      consumer := ⟨here, fun no => nomatch no⟩ }⟩

end Consumer

end Agrees

theorem Inv.step {a : Action α} (inv : Inv s unread) (inTurn : InTurn s a) (moved : s.step a = some s') : Sound s' := by
  obtain ⟨⟨busy, free, co, gap, agrees⟩, past, length, earlier⟩ := inv
  obtain ⟨⟨q, p, c⟩, pushed, popped, placed, before⟩ := s
  simp only at past length earlier agrees
  have inside : popped.length ≤ placed.length := by
    rw [length, past, List.length_append]
    exact Nat.le_add_right _ _
  -- the steps that end no push and no pop
  have goesOn {m : Machine α} (holds : Holds m unread (placed.drop popped.length)) :
      Sound ⟨m, pushed, popped, placed, before⟩ := ⟨unread, holds, past, length, earlier⟩
  have still {m : Machine α} (agrees : Agrees m busy free co gap unread (placed.drop popped.length)) :
      Sound ⟨m, pushed, popped, placed, before⟩ := goesOn ⟨busy, free, co, gap, agrees⟩
  cases a with
  | callPush msg =>
    cases p with
    | idle =>
      cases moved
      exact still (agrees.callPush msg)
    | _ => cases moved
  | callPop =>
    cases c with
    | idle =>
      cases moved
      obtain ⟨here, first⟩ : q.cSeg = q.cSegShared ∧ (co = 0 → q.tail = 0) := agrees.consumer
      exact ⟨unread, ⟨busy, free, co, gap, { agrees with consumer := ⟨here, first, rfl⟩ }⟩, past, length, Nat.le_refl _⟩
    | _ => cases moved
  | push room =>
    cases p with
    | idle => cases moved
    | loadNext msg h =>
      cases moved
      obtain ⟨atHead, started, full⟩ : h = q.head ∧ 0 < h ∧ gap = 0 := agrees.producer
      exact still { agrees with producer := ⟨atHead, started, full, rfl⟩ }
    | loadShared msg h nextSeg =>
      by_cases occupied : nextSeg = q.cSegShared
      · simp only [Run.step, Machine.step, Queue.push, occupied, if_true, Option.map_some, Option.some.injEq] at moved
        subst moved
        exact still { agrees with producer := occupied ▸ agrees.producer }
      · simp only [Run.step, Machine.step, Queue.push, occupied, if_false, Option.map_some, Option.some.injEq] at moved
        subst moved
        exact goesOn (agrees.loadShared occupied)
    | alloc msg h nextSeg =>
      cases room with
      | true =>
        cases moved
        exact goesOn agrees.alloc
      | false =>
        cases moved
        obtain ⟨-, -, full, -⟩ : h = q.head ∧ 0 < h ∧ gap = 0 ∧ _ := agrees.producer
        exact still { agrees with producer := fun no => nomatch full ▸ no }
    | storeNext msg h newSeg =>
      cases moved
      exact goesOn agrees.storeNext
    | storeSlot msg h =>
      cases moved
      rw [and_spscSegMask]
      exact goesOn (agrees.storeSlot inTurn)
    | storeHead msg h =>
      cases moved
      change Sound ⟨⟨{ q with head := (h + 1) % sizes }, .idle, c⟩, pushed ++ [msg], popped, placed ++ [q.pSeg], before⟩
      have behind : (placed.drop popped.length).length = unread.length := by
        rw [List.length_drop, length, past, List.length_append, Nat.add_sub_cancel_left]
      have after := agrees.storeHead inTurn behind
      rw [← List.drop_append_of_le_length inside] at after
      refine ⟨unread ++ [msg], after, by simp [past], by simp [length], ?_⟩
      simp only [List.length_append]
      exact Nat.le_trans earlier (Nat.le_add_right _ _)
  | pop =>
    cases c with
    | idle => cases moved
    | loadHead t =>
      have loaded := agrees.loadHead
      by_cases same : t = q.head
      · simp only [Run.step, Machine.step, Queue.pop, same, if_true, Option.map_some, Option.some.injEq] at moved loaded
        subst moved
        exact still loaded.2
      · cases cross : crosses t with
        | true =>
          simp only [Run.step, Machine.step, Queue.pop, same, cross, if_true, if_false, Option.map_some,
            Option.some.injEq] at moved loaded
          subst moved
          exact still loaded
        | false =>
          simp only [Run.step, Machine.step, Queue.pop, same, cross, Bool.false_eq_true, if_false, Option.map_some,
            Option.some.injEq] at moved loaded
          subst moved
          exact still loaded
    | loadNext t =>
      cases moved
      exact still agrees.loadNext
    | storeShared t =>
      cases moved
      exact goesOn agrees.storeShared
    | loadSlot t =>
      cases moved
      rw [and_spscSegMask]
      exact still agrees.loadSlot
    | storeTail t out =>
      cases moved
      change Sound ⟨⟨{ q with tail := (t + 1) % sizes }, p, .idle⟩, pushed, popped ++ [out], placed, before⟩
      obtain ⟨first, after⟩ := agrees.storeTail
      rw [List.tail_drop] at after
      refine ⟨unread.tail, ⟨busy, free, co + 1, gap, by simpa using after⟩, ?_, length, earlier⟩
      rw [past, first]
      simp

theorem sound_of_run {memory : Nat → Segment α} (run : Transition.Reaches Run.step InTurn (Run.init memory) s) : Sound s :=
  run.invariant (sound_init memory) fun ⟨_, inv⟩ inTurn moved => inv.step inTurn moved

section Alone

structure Gets (fuel : Nat) (s s' : Run α) (out : α) (rest : List α) : Prop where
  reached : Transition.Reaches Run.step InTurn s s'
  got : s.machine.popAlone fuel = some (out, s'.machine)
  idle : s'.machine.consumer = .idle
  producer : s'.machine.producer = s.machine.producer
  head : s'.machine.queue.head = s.machine.queue.head
  pushed : s'.pushed = s.pushed
  popped : s'.popped = s.popped ++ [out]
  inv : Inv s' rest

def Consumer.left : Consumer α → Nat
  | .idle => 6
  | .loadHead _ => 5
  | .loadNext _ => 4
  | .storeShared _ => 3
  | .loadSlot _ => 2
  | .storeTail _ _ => 1

structure Turns (m m' : Machine α) (outcome : Outcome α) : Prop where
  moved : m.step m.turn = some (m', outcome)
  producer : m'.producer = m.producer
  head : m'.queue.head = m.queue.head
  ends : outcome = .running ∧ m'.consumer.left < m.consumer.left ∨ ∃ out, outcome = .popped out ∧ m'.consumer = .idle

variable {out : α} {rest : List α}

theorem Inv.turns (inv : Inv s (out :: rest)) : ∃ m outcome, Turns s.machine m outcome := by
  obtain ⟨⟨busy, free, co, gap, agrees⟩, -, -, -⟩ := inv
  obtain ⟨⟨q, p, c⟩, pushed, popped, placed, before⟩ := s
  cases c with
  | loadHead t =>
    have loaded := agrees.loadHead
    by_cases same : t = q.head
    · rw [if_pos same] at loaded
      exact nomatch loaded.1
    · cases cross : crosses t with
      | true =>
        have moved : Machine.step ⟨q, p, .loadHead t⟩ .pop = some (⟨q, p, .loadNext t⟩, .running) := by
          simp [Machine.step, Queue.pop, same, cross]
        exact ⟨_, _, moved, rfl, rfl, .inl ⟨rfl, by simp [Consumer.left]⟩⟩
      | false =>
        have moved : Machine.step ⟨q, p, .loadHead t⟩ .pop = some (⟨q, p, .loadSlot t⟩, .running) := by
          simp [Machine.step, Queue.pop, same, cross]
        exact ⟨_, _, moved, rfl, rfl, .inl ⟨rfl, by simp [Consumer.left]⟩⟩
  | storeTail t msg => exact ⟨_, _, rfl, rfl, rfl, .inr ⟨msg, rfl, rfl⟩⟩
  | _ => exact ⟨_, _, rfl, rfl, rfl, .inl ⟨rfl, by simp [Consumer.left]⟩⟩

theorem Inv.gets {fuel : Nat} (inv : Inv s (out :: rest)) (enough : s.machine.consumer.left ≤ fuel) :
    ∃ s', Gets fuel s s' out rest := by
  induction fuel generalizing s with
  | zero => cases c : s.machine.consumer <;> simp [c, Consumer.left] at enough
  | succ fuel ih =>
    obtain ⟨m, outcome, moved, producer, head, ends⟩ := inv.turns
    have inTurn : InTurn s s.machine.turn := by
      unfold Machine.turn
      split <;> exact trivial
    have called : (s.called s.machine.turn).pushed = s.pushed ∧ (s.called s.machine.turn).popped = s.popped := by
      cases s.machine.turn <;> exact ⟨rfl, rfl⟩
    have taken : s.step s.machine.turn = some ({ s.called s.machine.turn with machine := m }.record outcome) := by
      rw [Run.step, moved, Option.map_some]
    obtain ⟨unread, after⟩ := inv.step inTurn taken
    have past := after.past
    obtain ⟨rfl, closer⟩ | ⟨msg, rfl, idle⟩ := ends
    · simp only [Run.record, called, inv.past, List.append_cancel_left_eq] at past
      subst past
      obtain ⟨s', gets⟩ := ih after (by simp only [Run.record]; omega)
      refine ⟨s', .trans (.tail .refl inTurn taken) gets.reached, ?_, gets.idle, gets.producer.trans producer,
        gets.head.trans head, gets.pushed.trans called.1, ?_, gets.inv⟩
      · rw [Machine.popAlone, moved]
        exact gets.got
      · rw [gets.popped]
        exact congrArg (· ++ [out]) called.2
    · simp only [Run.record, called, inv.past, List.append_assoc, List.append_cancel_left_eq, List.singleton_append,
        List.cons.injEq] at past
      obtain ⟨rfl, rfl⟩ := past
      refine ⟨_, .tail .refl inTurn taken, ?_, idle, producer, head, called.1, congrArg (· ++ [out]) called.2, after⟩
      rw [Machine.popAlone, moved]
      rfl

theorem Inv.drain (inv : Inv s unread) : s.machine.drain unread.length = unread := by
  induction unread generalizing s with
  | nil => rfl
  | cons out rest ih =>
    obtain ⟨s', gets⟩ := inv.gets (show s.machine.consumer.left ≤ 6 by cases s.machine.consumer <;> simp [Consumer.left])
    rw [List.length_cons, Machine.drain, gets.got]
    exact congrArg (out :: ·) (ih gets.inv)

theorem Inv.count (inv : Inv s unread) : s.machine.count = unread.length := by
  obtain ⟨_, _, _, _, agrees⟩ := inv.holds
  have head := agrees.counted.head_lt
  have tail := agrees.counted.tail_lt
  rw [Machine.count]
  obtain same | ⟨zero, -, positive, round⟩ := agrees.counted.count
  · have eq : s.machine.queue.head + sizes - s.machine.queue.tail = unread.length + sizes := by omega
    rw [eq, Nat.add_mod_right, Nat.mod_eq_of_lt (by omega)]
  · have eq : s.machine.queue.head + sizes - s.machine.queue.tail = unread.length := by omega
    rw [eq, Nat.mod_eq_of_lt (by omega)]

theorem Sound.content (sound : Sound s) : s.machine.content = s.pushed.drop s.popped.length := by
  obtain ⟨unread, inv⟩ := sound
  rw [Machine.content, inv.count, inv.drain, inv.past, List.drop_left]

end Alone

end FreakV.Spsc
