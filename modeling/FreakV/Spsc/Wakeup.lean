import FreakV.Spsc.Model

/-!
# Waking a shard

The producers of a shard's inboxes call `shard_send_msg_wake`, and the shard runs `shard_msg_drain` when its eventfd is
signalled. As for the queues, every step is one access to what they share.
-/

namespace FreakV.Spsc

variable {α : Type}

inductive Sender (α : Type) where
  | idle
  -- spsc_queue_push, which is called again when it is refused
  | pushing (msg : α)
  -- atomic_exchange of wake_edge
  | exchanging
  -- shard_wakeup_one
  | signalling

structure Inbox (α : Type) where
  machine : Machine α
  wakeEdge : Bool := false
  sender : Sender α := .idle

inductive Drainer where
  | resting
  | popping (i : Nat)
  -- spsc_queue_try_disarm_wake
  | disarming (i : Nat)
  | checking (i : Nat)
  | rearming (i : Nat)

structure Station (α : Type) where
  inboxes : Nat → Inbox α
  count : Nat
  eventfd : Nat := 0
  drainer : Drainer := .resting

inductive Access (α : Type) where
  | send (i : Nat) (msg : α)
  | produce (i : Nat) (room : Bool)
  -- the eventfd is read, which sets it to 0, and a pass begins
  | wake
  | drain

def Machine.isEmpty (m : Machine α) : Bool := m.queue.tail = m.queue.head

def Inbox.produce (b : Inbox α) (room : Bool) : Option (Inbox α × Bool) :=
  match b.sender with
  | .idle => none
  | .pushing msg =>
    let action := match b.machine.producer with
      | .idle => .callPush msg
      | _ => .push room
    (b.machine.step action).map fun (m, outcome) =>
      match outcome with
      | .pushed _ => ({ b with machine := m, sender := .exchanging }, false)
      | _ => ({ b with machine := m }, false)
  | .exchanging => some ({ b with wakeEdge := true, sender := if b.wakeEdge then .idle else .signalling }, false)
  | .signalling => some ({ b with sender := .idle }, true)

namespace Station

def setInbox (s : Station α) (i : Nat) (b : Inbox α) : Station α := { s with inboxes := Function.update s.inboxes i b }

def next (s : Station α) (i : Nat) : Drainer := if i + 1 < s.count then .popping (i + 1) else .resting

def drain (s : Station α) : Option (Station α) :=
  match s.drainer with
  | .resting => none
  | .popping i =>
    ((s.inboxes i).machine.step (s.inboxes i).machine.turn).map fun (m, outcome) =>
      match outcome with
      | .empty => { s.setInbox i { s.inboxes i with machine := m } with drainer := .disarming i }
      | _ => s.setInbox i { s.inboxes i with machine := m }
  | .disarming i => some { s.setInbox i { s.inboxes i with wakeEdge := false } with drainer := .checking i }
  | .checking i => some { s with drainer := if (s.inboxes i).machine.isEmpty then s.next i else .rearming i }
  | .rearming i => some { s.setInbox i { s.inboxes i with wakeEdge := true } with drainer := .popping i }

def step (s : Station α) : Access α → Option (Station α)
  | .send i msg =>
    match (s.inboxes i).sender with
    | .idle => if i < s.count then some (s.setInbox i { s.inboxes i with sender := .pushing msg }) else none
    | _ => none
  | .produce i room =>
    ((s.inboxes i).produce room).map fun (b, signal) =>
      { s.setInbox i b with eventfd := if signal then s.eventfd + 1 else s.eventfd }
  | .wake =>
    match s.drainer with
    | .resting => some { s with eventfd := 0, drainer := if 0 < s.count then .popping 0 else .resting }
    | _ => none
  | .drain => s.drain

def init (count : Nat) (memory : Nat → Nat → Segment α) : Station α :=
  { inboxes := fun i => { machine := .init (memory i) }, count := count }

def place (s : Station α) : Option Nat :=
  match s.drainer with
  | .resting => none
  | .popping i | .disarming i | .checking i | .rearming i => some i

def Unfinished (s : Station α) (i : Nat) : Prop := ∃ j, s.place = some j ∧ j ≤ i

end Station

def Inbox.Announces (b : Inbox α) : Prop :=
  match b.sender with
  | .exchanging | .signalling => True
  | _ => False

section Coverage

variable {s s' : Station α} {i : Nat}

theorem Queue.push_counters {q q' : Queue α} {p p' : Producer α} {room : Bool} {outcome : Outcome α}
    (pushed : q.push room p = some (q', p', outcome)) :
    q'.tail = q.tail ∧ (q'.head = q.head ∨ ∃ msg h, outcome = .pushed msg ∧ q'.head = (h + 1) % sizes) := by
  cases p with
  | idle => cases pushed
  | loadShared msg h nextSeg =>
    simp only [Queue.push] at pushed
    split at pushed
    all_goals
      cases pushed
      exact ⟨rfl, .inl rfl⟩
  | alloc msg h nextSeg =>
    simp only [Queue.push] at pushed
    split at pushed
    all_goals
      cases pushed
      exact ⟨rfl, .inl rfl⟩
  | storeHead msg h =>
    cases pushed
    exact ⟨rfl, .inr ⟨msg, h, rfl, rfl⟩⟩
  | _ =>
    cases pushed
    exact ⟨rfl, .inl rfl⟩

theorem push_keeps {m m' : Machine α} {msg : α} {room : Bool} {outcome : Outcome α}
    (moved : m.step (match m.producer with | .idle => .callPush msg | _ => .push room) = some (m', outcome))
    (quiet : ∀ sent, outcome ≠ .pushed sent) : m'.isEmpty = m.isEmpty := by
  obtain ⟨q, p, c⟩ := m
  cases p with
  | idle =>
    cases moved
    rfl
  | _ =>
    simp only [Machine.step, Option.map_eq_some_iff, Prod.mk.injEq] at moved
    obtain ⟨⟨q', p', o⟩, pushed, rfl, rfl⟩ := moved
    obtain ⟨tail, head | ⟨sent, -, announced, -⟩⟩ := Queue.push_counters pushed
    · simp only [Machine.isEmpty, tail, head]
    · exact absurd announced (quiet sent)

structure Station.Guarded (s : Station α) (i : Nat) : Prop where
  covered : (s.inboxes i).machine.isEmpty = false → 0 < s.eventfd ∨ (s.inboxes i).Announces ∨ s.Unfinished i
  armed : (s.inboxes i).wakeEdge = true → 0 < s.eventfd ∨ (s.inboxes i).sender = .signalling ∨ s.Unfinished i
  -- the flag was set since the consumer has cleared it
  checked : s.drainer = .checking i → (s.inboxes i).wakeEdge = true →
    0 < s.eventfd ∨ (s.inboxes i).sender = .signalling

namespace Station.Guarded

theorem of_unfinished (unfinished : s.Unfinished i) (disarmed : s.drainer = .checking i → (s.inboxes i).wakeEdge = false) :
    s.Guarded i :=
  ⟨fun _ => .inr (.inr unfinished), fun _ => .inr (.inr unfinished),
    fun here armed => by rw [disarmed here] at armed; cases armed⟩

theorem frame (guarded : s.Guarded i) (same : s'.inboxes i = s.inboxes i) (signalled : s.eventfd ≤ s'.eventfd)
    (unfinished : s.Unfinished i → s'.Unfinished i) (checking : s'.drainer = .checking i → s.drainer = .checking i) :
    s'.Guarded i := by
  have rings (before : 0 < s.eventfd) : 0 < s'.eventfd := Nat.lt_of_lt_of_le before signalled
  refine ⟨fun filled => ?_, fun armed => ?_, fun here armed => ?_⟩
  · rw [same] at filled ⊢
    exact (guarded.covered filled).imp rings (.imp_right unfinished)
  · rw [same] at armed ⊢
    exact (guarded.armed armed).imp rings (.imp_right unfinished)
  · rw [same] at armed ⊢
    exact (guarded.checked (checking here) armed).imp_left rings

theorem covered_silent (guarded : s.Guarded i) (silent : ¬(s.inboxes i).Announces)
    (filled : (s.inboxes i).machine.isEmpty = false) : 0 < s.eventfd ∨ s.Unfinished i := by
  obtain rings | announces | rest := guarded.covered filled
  · exact .inl rings
  · exact absurd announces silent
  · exact .inr rest

theorem armed_silent (guarded : s.Guarded i) (silent : (s.inboxes i).sender ≠ .signalling)
    (armed : (s.inboxes i).wakeEdge = true) : 0 < s.eventfd ∨ s.Unfinished i := by
  obtain rings | signals | rest := guarded.armed armed
  · exact .inl rings
  · exact absurd signals silent
  · exact .inr rest

theorem checked_silent (guarded : s.Guarded i) (silent : (s.inboxes i).sender ≠ .signalling)
    (checks : s.drainer = .checking i) (armed : (s.inboxes i).wakeEdge = true) : 0 < s.eventfd :=
  (guarded.checked checks armed).resolve_right silent

end Station.Guarded

theorem inboxes_setInbox_self (s : Station α) (i : Nat) (b : Inbox α) : (s.setInbox i b).inboxes i = b :=
  Function.update_self i _ _

theorem inboxes_setInbox_of_ne {j : Nat} (other : i ≠ j) (b : Inbox α) : (s.setInbox j b).inboxes i = s.inboxes i :=
  Function.update_of_ne other _ _

theorem Station.Guarded.produce (guarded : s.Guarded i) {room signal : Bool} {b : Inbox α}
    (moved : (s.inboxes i).produce room = some (b, signal)) :
    Station.Guarded { s.setInbox i b with eventfd := if signal then s.eventfd + 1 else s.eventfd } i := by
  have here := inboxes_setInbox_self s i b
  simp only [Inbox.produce] at moved
  split at moved
  · cases moved
  next msg pushing =>
    simp only [Option.map_eq_some_iff] at moved
    obtain ⟨⟨m, outcome⟩, stepped, result⟩ := moved
    have silent : (s.inboxes i).sender ≠ .signalling := by simp [pushing]
    cases outcome with
    | pushed sent =>
      cases result
      refine ⟨fun _ => .inr (.inl ?_), fun armed => ?_, fun checks armed => ?_⟩
      · rw [Inbox.Announces]
        simp [here]
      · rw [here] at armed
        exact (guarded.armed_silent silent armed).imp_right .inr
      · rw [here] at armed
        exact .inl (guarded.checked_silent silent checks armed)
    | _ =>
      cases result
      have empty := push_keeps stepped (by simp)
      refine ⟨fun filled => ?_, fun armed => ?_, fun checks armed => ?_⟩
      · rw [here, empty] at filled
        exact (guarded.covered_silent (by simp [Inbox.Announces, pushing]) filled).imp_right .inr
      · rw [here] at armed ⊢
        exact guarded.armed armed
      · rw [here] at armed ⊢
        exact guarded.checked checks armed
  next exchanging =>
    cases moved
    cases edge : (s.inboxes i).wakeEdge with
    | true =>
      have silent : (s.inboxes i).sender ≠ .signalling := by simp [exchanging]
      have attended := guarded.armed_silent silent edge
      exact ⟨fun _ => attended.imp_right .inr, fun _ => attended.imp_right .inr,
        fun checks _ => .inl (guarded.checked_silent silent checks edge)⟩
    | false =>
      refine ⟨fun _ => .inr (.inl ?_), fun _ => .inr (.inl ?_), fun _ _ => .inr ?_⟩
      · rw [Inbox.Announces]
        simp [inboxes_setInbox_self]
      all_goals simp [inboxes_setInbox_self]
  · cases moved
    exact ⟨fun _ => .inl (Nat.succ_pos _), fun _ => .inl (Nat.succ_pos _), fun _ _ => .inl (Nat.succ_pos _)⟩

structure Station.Safe (s : Station α) : Prop where
  guarded : ∀ i < s.count, s.Guarded i
  placed : ∀ j, s.place = some j → j < s.count

theorem Station.place_next (s : Station α) (i : Nat) {j : Nat}
    (there : Station.place { s with drainer := s.next i } = some j) : j = i + 1 ∧ j < s.count := by
  by_cases more : i + 1 < s.count
  · obtain rfl : i + 1 = j := by simpa [place, next, more] using there
    exact ⟨rfl, more⟩
  · simp [place, next, more] at there

theorem Station.Safe.leave (safe : s.Safe) {j : Nat} (here : s.drainer = .checking j)
    (empty : (s.inboxes j).machine.isEmpty = true) : Station.Safe { s with drainer := s.next j } := by
  have below : j < s.count := safe.placed j (by simp [Station.place, here])
  refine ⟨fun i small => ?_, fun k there => (s.place_next j there).2⟩
  have moved : Station.drainer { s with drainer := s.next j } ≠ .checking i := by
    simp only [Station.next]
    split <;> simp
  by_cases same : i = j
  · rw [same]
    refine ⟨fun filled => ?_, fun armed => ?_, fun checks => absurd checks (same ▸ moved)⟩
    · rw [empty] at filled
      cases filled
    · exact ((safe.guarded j below).checked here armed).imp_right .inl
  · refine (safe.guarded i small).frame rfl (Nat.le_refl _) (fun ⟨k, at_, le⟩ => ?_) fun checks => absurd checks moved
    obtain rfl : j = k := by simpa [Station.place, here] using at_
    have more : j + 1 < s.count := by
      have small : i < s.count := small
      omega
    exact ⟨j + 1, by simp [Station.place, Station.next, more], by omega⟩

theorem Station.Safe.stay (safe : s.Safe) {j : Nat} (here : s.place = some j) (there : s'.place = some j)
    (same : ∀ i, i ≠ j → s'.inboxes i = s.inboxes i) (eventfd : s'.eventfd = s.eventfd) (count : s'.count = s.count)
    (disarmed : s'.drainer = .checking j → (s'.inboxes j).wakeEdge = false) : s'.Safe := by
  have below := safe.placed j here
  refine ⟨fun i small => ?_, fun k at_ => ?_⟩
  · by_cases eq : i = j
    · exact eq ▸ .of_unfinished ⟨j, there, Nat.le_refl j⟩ disarmed
    · refine (safe.guarded i (count ▸ small)).frame (same i eq) (Nat.le_of_eq eventfd.symm) (fun ⟨k, at_, le⟩ => ?_)
        fun checks => ?_
      · obtain rfl : j = k := Option.some.inj (here.symm.trans at_)
        exact ⟨j, there, le⟩
      · rw [Station.place, checks] at there
        exact absurd (Option.some.inj there) eq
  · rw [count]
    exact Option.some.inj (there.symm.trans at_) ▸ below

theorem Station.Safe.drain (safe : s.Safe) (moved : s.drain = some s') : s'.Safe := by
  unfold Station.drain at moved
  split at moved
  · cases moved
  next j here =>
    have at_ : s.place = some j := by simp [Station.place, here]
    simp only [Option.map_eq_some_iff] at moved
    obtain ⟨⟨m, outcome⟩, -, result⟩ := moved
    cases outcome with
    | empty =>
      cases result
      exact safe.stay at_ rfl (fun i other => inboxes_setInbox_of_ne other _) rfl rfl (by simp)
    | _ =>
      cases result
      exact safe.stay at_ at_ (fun i other => inboxes_setInbox_of_ne other _) rfl rfl (by simp [Station.setInbox, here])
  next j here =>
    have at_ : s.place = some j := by simp [Station.place, here]
    cases moved
    refine safe.stay at_ rfl (fun i other => inboxes_setInbox_of_ne other _) rfl rfl fun _ => ?_
    simp [inboxes_setInbox_self]
  next j here =>
    have at_ : s.place = some j := by simp [Station.place, here]
    cases moved
    cases empty : (s.inboxes j).machine.isEmpty with
    | true => exact safe.leave here empty
    | false => exact safe.stay at_ (by simp [Station.place]) (fun _ _ => rfl) rfl rfl (by simp)
  next j here =>
    have at_ : s.place = some j := by simp [Station.place, here]
    cases moved
    exact safe.stay at_ rfl (fun i other => inboxes_setInbox_of_ne other _) rfl rfl (by simp)

theorem Station.Safe.step (safe : s.Safe) {a : Access α} (moved : s.step a = some s') : s'.Safe := by
  cases a with
  | send j msg =>
    simp only [Station.step] at moved
    split at moved
    next idle =>
      split at moved
      · cases moved
        refine ⟨fun i small => ?_, safe.placed⟩
        by_cases same : i = j
        · have before := safe.guarded i small
          rw [same] at before ⊢
          have silent : (s.inboxes j).sender ≠ .signalling := by simp [idle]
          refine ⟨fun filled => ?_, fun armed => ?_, fun checks armed => ?_⟩
          · rw [inboxes_setInbox_self] at filled
            exact (before.covered_silent (by simp [Inbox.Announces, idle]) filled).imp_right .inr
          · rw [inboxes_setInbox_self] at armed
            exact (before.armed_silent silent armed).imp_right .inr
          · rw [inboxes_setInbox_self] at armed
            exact .inl (before.checked_silent silent checks armed)
        · exact (safe.guarded i small).frame (inboxes_setInbox_of_ne same _) (Nat.le_refl _) (fun rest => rest)
            fun checks => checks
      · cases moved
    · cases moved
  | produce j room =>
    simp only [Station.step, Option.map_eq_some_iff] at moved
    obtain ⟨⟨b, signal⟩, produced, rfl⟩ := moved
    refine ⟨fun i small => ?_, safe.placed⟩
    by_cases same : i = j
    · exact same ▸ (safe.guarded i small).produce (same ▸ produced)
    · refine (safe.guarded i small).frame (inboxes_setInbox_of_ne same _) ?_ (fun rest => rest) fun checks => checks
      dsimp only
      split <;> omega
  | wake =>
    simp only [Station.step] at moved
    split at moved
    · cases moved
      refine ⟨fun i small => ?_, fun j there => ?_⟩
      · have some_inbox : 0 < s.count := Nat.lt_of_le_of_lt (Nat.zero_le i) small
        exact .of_unfinished ⟨0, by simp [Station.place, some_inbox], Nat.zero_le i⟩ (by simp [some_inbox])
      · by_cases some_inbox : 0 < s.count
        · obtain rfl : 0 = j := by simpa [Station.place, some_inbox] using there
          exact some_inbox
        · simp [Station.place, some_inbox] at there
    · cases moved
  | drain => exact safe.drain moved

end Coverage

section Progress

variable {s s' : Station α} {i : Nat}

structure Machine.Coherent (m : Machine α) : Prop where
  head : m.queue.head < sizes
  tail : m.queue.tail < sizes
  consumer : match m.consumer with
    | .idle => True
    | .loadHead t | .loadNext t | .storeShared t | .loadSlot t | .storeTail t _ => t = m.queue.tail

theorem Machine.Coherent.push {m m' : Machine α} (coherent : m.Coherent) {a : Action α} {outcome : Outcome α}
    (producing : (∃ msg, a = .callPush msg) ∨ ∃ room, a = .push room) (moved : m.step a = some (m', outcome)) :
    m'.Coherent := by
  obtain ⟨q, p, c⟩ := m
  obtain ⟨head, tail, consumer⟩ := coherent
  obtain ⟨msg, rfl⟩ | ⟨room, rfl⟩ := producing
  · cases p <;> simp only [Machine.step, Option.some.injEq, Prod.mk.injEq, reduceCtorEq] at moved
    obtain ⟨rfl, -⟩ := moved
    exact ⟨head, tail, consumer⟩
  · simp only [Machine.step, Option.map_eq_some_iff, Prod.mk.injEq] at moved
    obtain ⟨⟨q', p', o⟩, pushed, rfl, -⟩ := moved
    obtain ⟨kept, moves⟩ := Queue.push_counters pushed
    have below : q'.head < sizes := by
      obtain same | ⟨-, h, -, next⟩ := moves
      · exact same ▸ head
      · rw [next]
        exact Nat.mod_lt _ (by decide)
    refine ⟨below, kept ▸ tail, ?_⟩
    dsimp only
    rw [kept]
    exact consumer

def Machine.left (m : Machine α) : Nat :=
  match m.consumer with
  | .idle => 10 * m.count + 20
  | .loadHead _ => 10 * m.count + 19
  | .loadNext _ => 10 * ((m.queue.head + sizes - (m.queue.tail + 1)) % sizes) + 28
  | .storeShared _ => 10 * ((m.queue.head + sizes - (m.queue.tail + 1)) % sizes) + 27
  | .loadSlot _ => 10 * ((m.queue.head + sizes - (m.queue.tail + 1)) % sizes) + 26
  | .storeTail _ _ => 10 * ((m.queue.head + sizes - (m.queue.tail + 1)) % sizes) + 25

theorem Machine.Coherent.count_eq {m : Machine α} (coherent : m.Coherent) (filled : m.queue.tail ≠ m.queue.head) :
    m.count = (m.queue.head + sizes - (m.queue.tail + 1)) % sizes + 1 := by
  have head := coherent.head
  have tail := coherent.tail
  simp only [Machine.count, sizes] at head tail ⊢
  omega

theorem Machine.Coherent.pop {m : Machine α} (coherent : m.Coherent) :
    ∃ m' outcome, m.step m.turn = some (m', outcome) ∧ m'.Coherent ∧
      (match outcome with
      | .empty => m'.isEmpty = true
      | _ => m'.left < m.left) := by
  have counted := coherent.count_eq
  obtain ⟨q, p, c⟩ := m
  obtain ⟨head, tail, consumer⟩ := coherent
  cases c with
  | idle =>
    refine ⟨_, _, rfl, ⟨head, tail, rfl⟩, ?_⟩
    simp [Machine.left, Machine.count]
  | loadHead t =>
    obtain rfl : t = q.tail := consumer
    by_cases same : q.tail = q.head
    · have stepped : Machine.step ⟨q, p, .loadHead q.tail⟩ (Machine.turn ⟨q, p, .loadHead q.tail⟩) =
          some (⟨q, p, .idle⟩, .empty) := by simp [Machine.step, Machine.turn, Queue.pop, same]
      exact ⟨_, _, stepped, ⟨head, tail, trivial⟩, by simp [Machine.isEmpty, same]⟩
    · have more := counted same
      cases cross : crosses q.tail with
      | true =>
        have stepped : Machine.step ⟨q, p, .loadHead q.tail⟩ (Machine.turn ⟨q, p, .loadHead q.tail⟩) =
            some (⟨q, p, .loadNext q.tail⟩, .running) := by simp [Machine.step, Machine.turn, Queue.pop, same, cross]
        refine ⟨_, _, stepped, ⟨head, tail, rfl⟩, ?_⟩
        simp only [Machine.left, Machine.count] at more ⊢
        omega
      | false =>
        have stepped : Machine.step ⟨q, p, .loadHead q.tail⟩ (Machine.turn ⟨q, p, .loadHead q.tail⟩) =
            some (⟨q, p, .loadSlot q.tail⟩, .running) := by simp [Machine.step, Machine.turn, Queue.pop, same, cross]
        refine ⟨_, _, stepped, ⟨head, tail, rfl⟩, ?_⟩
        simp only [Machine.left, Machine.count] at more ⊢
        omega
  | loadNext t => exact ⟨_, _, rfl, ⟨head, tail, consumer⟩, by simp [Machine.left]⟩
  | storeShared t => exact ⟨_, _, rfl, ⟨head, tail, consumer⟩, by simp [Machine.left]⟩
  | loadSlot t => exact ⟨_, _, rfl, ⟨head, tail, consumer⟩, by simp [Machine.left]⟩
  | storeTail t out =>
    obtain rfl : t = q.tail := consumer
    refine ⟨_, _, rfl, ⟨head, Nat.mod_lt _ (by decide), trivial⟩, ?_⟩
    simp only [Machine.left, Machine.count, sizes] at head tail ⊢
    omega

namespace Station

def consume : Nat → Station α → Option (Station α)
  | 0, s => some s
  | k + 1, s => s.drain.bind (consume k)

def Coherent (s : Station α) : Prop := ∀ j, (s.inboxes j).machine.Coherent

theorem Coherent.setInbox (coherent : s.Coherent) (j : Nat) {b : Inbox α} (fine : b.machine.Coherent) :
    (s.setInbox j b).Coherent := by
  intro i
  by_cases same : i = j
  · rwa [same, inboxes_setInbox_self]
  · rw [inboxes_setInbox_of_ne same]
    exact coherent i

def effort (s : Station α) : Nat :=
  match s.drainer with
  | .resting => 0
  | .popping j => (s.inboxes j).machine.left
  | .disarming j => if (s.inboxes j).machine.isEmpty then 14 else (s.inboxes j).machine.left + 3
  | .checking j => if (s.inboxes j).machine.isEmpty then 13 else (s.inboxes j).machine.left + 2
  | .rearming j => (s.inboxes j).machine.left + 1

theorem left_pos (m : Machine α) : 14 < m.left := by
  unfold Machine.left
  split <;> omega

theorem Coherent.drain (coherent : s.Coherent) {j : Nat} (here : s.place = some j) :
    ∃ s', s.drain = some s' ∧ s'.Coherent ∧ s'.count = s.count ∧
      (s'.place = some j ∧ s'.effort < s.effort ∨ s'.drainer = s.next j ∧ (s'.inboxes j).machine.isEmpty = true) := by
  cases at_ : s.drainer with
  | resting => simp [place, at_] at here
  | popping i =>
    obtain rfl : i = j := by simpa [place, at_] using here
    obtain ⟨m, outcome, stepped, fine, gets⟩ := (coherent i).pop
    have kept : (s.setInbox i { s.inboxes i with machine := m }).Coherent := coherent.setInbox i fine
    cases outcome with
    | empty =>
      refine ⟨{ s.setInbox i { s.inboxes i with machine := m } with drainer := .disarming i }, ?_, kept, rfl, .inl ⟨rfl, ?_⟩⟩
      · simp only [Station.drain, at_, stepped, Option.map_some]
      · have after : m.isEmpty = true := gets
        have before := left_pos (s.inboxes i).machine
        simpa [effort, at_, inboxes_setInbox_self, after] using before
    | _ =>
      refine ⟨s.setInbox i { s.inboxes i with machine := m }, ?_, kept, rfl, .inl ⟨here, ?_⟩⟩
      · simp only [Station.drain, at_, stepped, Option.map_some]
      · have less : m.left < (s.inboxes i).machine.left := gets
        have same : (s.setInbox i { s.inboxes i with machine := m }).drainer = .popping i := at_
        simpa only [effort, same, at_, inboxes_setInbox_self] using less
  | disarming i =>
    obtain rfl : i = j := by simpa [place, at_] using here
    have kept : (s.setInbox i { s.inboxes i with wakeEdge := false }).Coherent := by
      refine coherent.setInbox i ?_
      exact coherent i
    refine ⟨{ s.setInbox i { s.inboxes i with wakeEdge := false } with drainer := .checking i }, ?_, kept, rfl, .inl ⟨rfl, ?_⟩⟩
    · simp only [Station.drain, at_]
    · simp only [effort, at_, inboxes_setInbox_self]
      split <;> omega
  | checking i =>
    obtain rfl : i = j := by simpa [place, at_] using here
    cases empty : (s.inboxes i).machine.isEmpty with
    | true =>
      refine ⟨{ s with drainer := s.next i }, ?_, coherent, rfl, .inr ⟨rfl, empty⟩⟩
      simp only [Station.drain, at_, empty, if_true]
    | false =>
      refine ⟨{ s with drainer := .rearming i }, ?_, coherent, rfl, .inl ⟨rfl, by simp [effort, at_, empty]⟩⟩
      simp [Station.drain, at_, empty]
  | rearming i =>
    obtain rfl : i = j := by simpa [place, at_] using here
    have kept : (s.setInbox i { s.inboxes i with wakeEdge := true }).Coherent := by
      refine coherent.setInbox i ?_
      exact coherent i
    refine ⟨{ s.setInbox i { s.inboxes i with wakeEdge := true } with drainer := .popping i }, ?_, kept, rfl, .inl ⟨rfl, ?_⟩⟩
    · simp only [Station.drain, at_]
    · simp [effort, at_, inboxes_setInbox_self]

theorem consume_succ {k : Nat} {t : Station α} (first : s.drain = some s') (rest : s'.consume k = some t) :
    s.consume (k + 1) = some t := by
  rw [consume, first]
  exact rest

theorem consume_add {k n : Nat} {t : Station α} (first : s.consume k = some s') (rest : s'.consume n = some t) :
    s.consume (k + n) = some t := by
  induction k generalizing s with
  | zero =>
    cases first
    rwa [Nat.zero_add]
  | succ k ih =>
    rw [consume, Option.bind_eq_some_iff] at first
    obtain ⟨mid, moved, later⟩ := first
    rw [Nat.succ_add]
    exact consume_succ moved (ih later)

theorem Coherent.settles (coherent : s.Coherent) {j : Nat} (here : s.place = some j) :
    ∃ k s', s.consume k = some s' ∧ s'.Coherent ∧ s'.count = s.count ∧ s'.drainer = s.next j ∧
      (s'.inboxes j).machine.isEmpty = true := by
  induction size : s.effort using Nat.strong_induction_on generalizing s with
  | _ n ih =>
    obtain ⟨s', moved, fine, count, ⟨stays, less⟩ | ⟨leaves, empty⟩⟩ := coherent.drain here
    · obtain ⟨k, t, rest, fine', count', leaves, empty⟩ := ih s'.effort (size ▸ less) fine stays rfl
      refine ⟨k + 1, t, consume_succ moved rest, fine', count'.trans count, ?_, empty⟩
      rw [leaves, next, next, count]
    · exact ⟨1, s', consume_succ moved rfl, fine, count, leaves, empty⟩

theorem Coherent.empties (coherent : s.Coherent) (within : i < s.count) (unfinished : s.Unfinished i) :
    ∃ k s', s.consume k = some s' ∧ (s'.inboxes i).machine.isEmpty = true := by
  obtain ⟨j, here, le⟩ := unfinished
  induction distance : i - j generalizing s j with
  | zero =>
    obtain rfl : j = i := by omega
    obtain ⟨k, s', rest, -, -, -, empty⟩ := coherent.settles here
    exact ⟨k, s', rest, empty⟩
  | succ d ih =>
    obtain ⟨k, s', first, fine, count, leaves, -⟩ := coherent.settles here
    have more : j + 1 < s.count := by omega
    have there : s'.place = some (j + 1) := by simp [place, leaves, next, more]
    obtain ⟨n, t, rest, empty⟩ := ih fine (count ▸ within) (j + 1) there (by omega) (by omega)
    exact ⟨k + n, t, consume_add first rest, empty⟩

theorem Coherent.step (coherent : s.Coherent) {a : Access α} (moved : s.step a = some s') : s'.Coherent := by
  cases a with
  | send j msg =>
    simp only [Station.step] at moved
    split at moved
    · split at moved
      · cases moved
        refine coherent.setInbox j ?_
        exact coherent j
      · cases moved
    · cases moved
  | produce j room =>
    simp only [Station.step, Option.map_eq_some_iff] at moved
    obtain ⟨⟨b, signal⟩, produced, rfl⟩ := moved
    refine Coherent.setInbox coherent j ?_
    simp only [Inbox.produce] at produced
    split at produced
    · cases produced
    next msg _ =>
      simp only [Option.map_eq_some_iff] at produced
      obtain ⟨⟨m, outcome⟩, stepped, result⟩ := produced
      have fine : m.Coherent := by
        refine (coherent j).push ?_ stepped
        split
        · exact .inl ⟨msg, rfl⟩
        · exact .inr ⟨room, rfl⟩
      cases outcome <;> (cases result; exact fine)
    · cases produced
      exact coherent j
    · cases produced
      exact coherent j
  | wake =>
    simp only [Station.step] at moved
    split at moved
    · cases moved
      exact coherent
    · cases moved
  | drain =>
    have moved : s.drain = some s' := moved
    cases here : s.place with
    | none =>
      cases at_ : s.drainer with
      | resting => simp [Station.drain, at_] at moved
      | _ => simp [place, at_] at here
    | some j =>
      obtain ⟨t, taken, fine, -⟩ := coherent.drain here
      exact Option.some.inj (taken.symm.trans moved) ▸ fine

theorem safe_init (count : Nat) (memory : Nat → Nat → Segment α) : (init count memory).Safe :=
  ⟨fun i _ => ⟨fun filled => by simp [init, Machine.isEmpty, Machine.init, spscQueueInit] at filled,
    fun armed => by simp [init] at armed, fun here => by simp [init] at here⟩, fun j there => by simp [place, init] at there⟩

theorem coherent_init (count : Nat) (memory : Nat → Nat → Segment α) : (init count memory).Coherent :=
  fun _ => ⟨Nat.two_pow_pos 64, Nat.two_pow_pos 64, trivial⟩

end Station

open Transition Station in
theorem no_lost_wakeup (count : Nat) (memory : Nat → Nat → Segment α) {s : Station α}
    (reached : Reaches Station.step (fun _ _ => True) (init count memory) s) {i : Nat} (within : i < s.count)
    (filled : (s.inboxes i).machine.isEmpty = false) :
    0 < s.eventfd ∨ (s.inboxes i).Announces ∨
      s.Unfinished i ∧ ∃ k s', s.consume k = some s' ∧ (s'.inboxes i).machine.isEmpty = true := by
  have safe : s.Safe := reached.invariant (safe_init count memory) fun before _ moved => before.step moved
  have coherent : s.Coherent := reached.invariant (coherent_init count memory) fun before _ moved => before.step moved
  obtain rings | announces | unfinished := (safe.guarded i within).covered filled
  · exact .inl rings
  · exact .inr (.inl announces)
  · exact .inr (.inr ⟨unfinished, coherent.empties within unfinished⟩)

def oneMessage : List (Access Nat) :=
  [.send 0 7, .produce 0 true, .produce 0 true, .produce 0 true, .produce 0 true, .produce 0 true, .wake]

theorem no_lost_wakeup_one_message : ∃ s : Station Nat, s.eventfd = 0 ∧ (s.inboxes 0).machine.isEmpty = false ∧
    ∃ k s', s.consume k = some s' ∧ (s'.inboxes 0).machine.isEmpty = true := by
  have runs : (Transition.follow Station.step (fun _ _ => true) oneMessage (.init 1 fun _ _ => ⟨0, fun _ => 0⟩)).map
      (fun s => (s.count, s.eventfd, (s.inboxes 0).machine.isEmpty,
        match (s.inboxes 0).sender with | .idle => true | _ => false)) = some (1, 0, false, true) := by decide
  obtain ⟨s, followed, seen⟩ := Option.map_eq_some_iff.1 runs
  simp only [Prod.mk.injEq] at seen
  obtain ⟨count, eventfd, filled, idle⟩ := seen
  have reached : Transition.Reaches Station.step (fun _ _ => True) (.init 1 fun _ _ => ⟨0, fun _ => 0⟩) s :=
    Transition.follow_reaches (fun _ _ _ => trivial) followed
  refine ⟨s, eventfd, filled, ?_⟩
  obtain rings | announces | ⟨-, empties⟩ := no_lost_wakeup 1 _ reached (count ▸ Nat.one_pos) filled
  · exact absurd rings (by simp [eventfd])
  · unfold Inbox.Announces at announces
    split at announces <;> simp_all
  · exact empties

end Progress

end FreakV.Spsc
