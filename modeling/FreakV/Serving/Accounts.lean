import FreakV.Serving.Model

namespace FreakV.Serving

open Commands (Dispatcher)

section Blocks

variable (pool : Nat)

@[simp] theorem allAt_nil : allAt pool [] = 0 := rfl

@[simp] theorem allAt_cons (addr : Nat) (addrs : List Nat) :
    allAt pool (addr :: addrs) = {⟨pool, addr⟩} + allAt pool addrs := by
  simp [allAt, ← Multiset.cons_coe, Multiset.singleton_add]

@[simp] theorem allAt_append (front back : List Nat) : allAt pool (front ++ back) = allAt pool front + allAt pool back := by
  simp [allAt, ← Multiset.coe_add]

@[simp] theorem atPool_none : atPool pool none = 0 := rfl

@[simp] theorem atPool_some (addr : Nat) : atPool pool (some addr) = {⟨pool, addr⟩} := rfl

theorem newBlocks_succ (s : State) (n : Nat) :
    s.newBlocks pool (n + 1) = s.newBlocks pool n + {⟨pool, s.next + n⟩} := by
  simp [State.newBlocks, List.range_succ]

@[simp] theorem newBlocks_zero (s : State) : s.newBlocks pool 0 = 0 := rfl

theorem newBlocks_stat (s : State) (n : Nat) :
    s.newBlocks pool (1 + n) = allAt pool (s.next :: (List.range n).map (s.next + 1 + ·)) := by
  simp [State.newBlocks, Nat.add_comm 1 n, List.range_succ_eq_map, Nat.add_assoc, Nat.add_comm 1, Function.comp_def]

end Blocks

section Holders

def Mset.blocks (self : Nat) : Mset → Multiset Block
  | .held argv arglen _ => allAt self [argv, arglen]
  | .running stat => allAt self (stat.addr :: stat.batches)

def Slot.blocks (self : Nat) (slot : Slot) : Multiset Block :=
  slot.released + slot.freed self + slot.mset.elim 0 (Mset.blocks self)

def Answer.blocks (a : Answer) : Multiset Block := atPool a.ticket.owner a.replyBuf

def WaitGroup.addrs (group : WaitGroup) : List Nat :=
  group.addr :: group.anchor.cmdInfo :: group.waiting.map Waiter.cmdInfo

def ticketsOf (waiters : List Waiter) : Multiset Ticket := (waiters : Multiset Waiter).map fun w => w.job.ticket

@[simp] theorem ticketsOf_nil : ticketsOf [] = 0 := rfl

@[simp] theorem ticketsOf_singleton (w : Waiter) : ticketsOf [w] = {w.job.ticket} := rfl

@[simp] theorem ticketsOf_append (front back : List Waiter) : ticketsOf (front ++ back) = ticketsOf front + ticketsOf back := by
  simp [ticketsOf, ← Multiset.coe_add]

def anchorsOf (queue : List WaitGroup) : Multiset MsetCmd := (queue : Multiset WaitGroup).map WaitGroup.anchor

@[simp] theorem anchorsOf_nil : anchorsOf [] = 0 := rfl

@[simp] theorem anchorsOf_cons (group : WaitGroup) (queue : List WaitGroup) :
    anchorsOf (group :: queue) = {group.anchor} + anchorsOf queue := by
  simp [anchorsOf, ← Multiset.cons_coe]

@[simp] theorem anchorsOf_append (front back : List WaitGroup) : anchorsOf (front ++ back) = anchorsOf front + anchorsOf back := by
  simp [anchorsOf, ← Multiset.coe_add]

namespace LockEntry

variable (e : LockEntry)

def blocks : Multiset Block :=
  allAt e.shard (e.openGroups :: e.holder.cmdInfo :: e.queue.flatMap WaitGroup.addrs ++
    e.opened.elim [] fun group => group.1 :: group.2.map Waiter.cmdInfo)

def tickets : Multiset Ticket := ticketsOf (e.queue.flatMap WaitGroup.waiting ++ e.opened.elim [] Prod.snd)

def cmds : Multiset MsetCmd := {e.holder} + anchorsOf e.queue

end LockEntry

namespace State

variable (d : Dispatcher) (s : State)

def held : Multiset Block :=
  (s.slots.map (Slot.blocks d.self)).sum + (s.answers.map Answer.blocks).sum + s.releases +
    (s.entries.map LockEntry.blocks).sum

def tickets : Multiset Ticket :=
  s.jobs.map Job.ticket + s.answers.map Answer.ticket + (s.entries.map LockEntry.tickets).sum

def cmds : Multiset MsetCmd := (s.entries.map LockEntry.cmds).sum

end State

def acksOf (cmds : Multiset MsetCmd) (seq : Nat) : Nat := (cmds.map fun c => if c.seq = seq then c.totalAcks else 0).sum

def Moves (d : Dispatcher) (s s' : State) (lost : Multiset Block) : Prop :=
  ∃ taken given, s'.live = s.live + taken - given ∧ s.held d + taken = s'.held d + given + lost

end Holders

section Slots

variable {s : State} {seq : Nat} {slot : Slot}

theorem slotAt_lt (there : s.slotAt seq = some slot) : seq < s.inSeq := by
  unfold State.slotAt at there
  split at there
  · obtain ⟨inside, -⟩ := List.getElem?_eq_some_iff.1 there
    simp only [State.inSeq]
    omega
  · cases there

theorem slotAt_enter (slot : Slot) (jobs : List Job) (q : Nat) :
    (s.enter slot jobs).slotAt q = if q = s.inSeq then some slot else s.slotAt q := by
  unfold State.slotAt State.enter State.inSeq
  dsimp only
  by_cases begun : s.outSeq ≤ q
  · rw [if_pos begun, if_pos begun]
    by_cases last : q = s.outSeq + s.slots.length
    · simp [last]
    · by_cases inside : q - s.outSeq < s.slots.length
      · rw [if_neg last, List.getElem?_append_left inside]
      · rw [if_neg last, List.getElem?_eq_none (by simp; omega), List.getElem?_eq_none (by omega)]
  · rw [if_neg begun, if_neg begun, if_neg (by omega)]

theorem slotAt_setSlot (there : s.slotAt seq = some slot) (new : Slot) (q : Nat) :
    (s.setSlot seq new).slotAt q = if q = seq then some new else s.slotAt q := by
  unfold State.slotAt at there ⊢
  split at there
  next begun =>
    obtain ⟨inside, -⟩ := List.getElem?_eq_some_iff.1 there
    simp only [State.setSlot, List.getElem?_set]
    by_cases same : q = seq
    · simp [same, begun, inside]
    · by_cases behind : s.outSeq ≤ q
      · rw [if_pos behind, if_pos behind, if_neg same, if_neg (by omega)]
      · rw [if_neg behind, if_neg behind, if_neg same]
  · cases there

theorem slotAt_tail {rest : List Slot} (first : s.slots = slot :: rest) (q : Nat) :
    ({ s with slots := rest, outSeq := s.outSeq + 1 } : State).slotAt q = if q = s.outSeq then none else s.slotAt q := by
  unfold State.slotAt
  dsimp only
  rw [first]
  obtain before | rfl | after := Nat.lt_trichotomy q s.outSeq
  · rw [if_neg (by omega), if_neg (by omega), if_neg (by omega)]
  · simp
  · rw [if_pos (by omega), if_neg (by omega), if_pos (by omega),
      show q - s.outSeq = q - (s.outSeq + 1) + 1 from by omega, List.getElem?_cons_succ]

theorem held_setSlot (d : Dispatcher) {new : Slot} {gained given : Multiset Block} (there : s.slotAt seq = some slot)
    (change : slot.blocks d.self + gained = new.blocks d.self + given) :
    s.held d + gained = (s.setSlot seq new).held d + given := by
  unfold State.slotAt at there
  split at there
  · have slots : ((s.setSlot seq new).slots.map (Slot.blocks d.self)).sum + slot.blocks d.self =
        (s.slots.map (Slot.blocks d.self)).sum + new.blocks d.self := Ledger.sum_set _ there new
    refine add_right_cancel (b := slot.blocks d.self) ?_
    calc s.held d + gained + slot.blocks d.self
        = s.held d + (slot.blocks d.self + gained) := by abel
      _ = (s.slots.map (Slot.blocks d.self)).sum + new.blocks d.self + ((s.answers.map Answer.blocks).sum + s.releases +
          (s.entries.map LockEntry.blocks).sum + given) := by
        rw [change, State.held]
        abel
      _ = (s.setSlot seq new).held d + given + slot.blocks d.self := by
        rw [← slots, State.held]
        simp only [State.setSlot]
        abel
  · cases there

theorem slot_le_held (d : Dispatcher) (there : s.slotAt seq = some slot) : slot.blocks d.self ≤ s.held d := by
  have empty : ({} : Slot).blocks d.self = 0 := rfl
  have emptied := held_setSlot d there (show slot.blocks d.self + 0 = ({} : Slot).blocks d.self + slot.blocks d.self by
    rw [empty, add_zero, zero_add])
  rw [add_zero] at emptied
  exact emptied ▸ Multiset.le_add_left _ _

end Slots

section Invariant

def Slot.Awaits (slot : Slot) (t : Ticket) : Prop :=
  slot.mset = none ∧
    match slot.multi with
    | some m => ∃ part, m.parts[t.sub]? = some part ∧ part.reply = none ∧ (m.owners = none → part.owner = t.owner)
    | none => t.sub = 0 ∧ slot.replyType ≠ .buf

structure Sound (s : State) : Prop where
  distinct : (s.tickets.map fun t => (t.seq, t.sub)).Nodup
  awaited : ∀ t ∈ s.tickets, t.seq < s.inSeq ∧ ∀ slot, s.slotAt t.seq = some slot → slot.Awaits t
  unanswered : ∀ seq slot, s.slotAt seq = some slot → slot.mset.isSome → slot.done = false ∧ slot.replyType ≠ .buf
  running : ∀ c ∈ s.cmds, 0 < c.totalAcks ∧
    ∃ slot stat, s.slotAt c.seq = some slot ∧ slot.mset = some (.running stat)
  counted : ∀ seq slot stat, s.slotAt seq = some slot → slot.mset = some (.running stat) →
    stat.finAck + acksOf s.cmds seq + stat.todo.length ≤ stat.total
  told : ∀ m ∈ s.fins, m.seq < s.inSeq ∧ ∀ slot mset, s.slotAt m.seq = some slot → slot.mset = some mset →
    ∃ stat, mset = .running stat ∧ stat.addr = m.stat

variable {s s' : State} {seq : Nat} {slot new : Slot}

theorem Sound.keep (sound : Sound s) (at_ : s'.slotAt = s.slotAt) (end_ : s'.inSeq = s.inSeq)
    (tickets : s'.tickets ≤ s.tickets) (cmds : s'.cmds = s.cmds) (fins : s'.fins ≤ s.fins) : Sound s' := by
  constructor
  · exact Multiset.nodup_of_le (Multiset.map_le_map tickets) sound.distinct
  · intro t there
    rw [end_, at_]
    exact sound.awaited t (Multiset.mem_of_le tickets there)
  · rw [at_]
    exact sound.unanswered
  · rw [cmds, at_]
    exact sound.running
  · rw [cmds, at_]
    exact sound.counted
  · rw [end_, at_]
    exact fun m member => sound.told m (Multiset.mem_of_le fins member)

theorem acksOf_eq_zero {cmds : Multiset MsetCmd} (none : ∀ c ∈ cmds, c.seq ≠ seq) : acksOf cmds seq = 0 := by
  refine Multiset.sum_eq_zero fun n there => ?_
  obtain ⟨c, member, rfl⟩ := Multiset.mem_map.1 there
  exact if_neg (none c member)

theorem acksOf_pos {cmds : Multiset MsetCmd} {c : MsetCmd} (there : c ∈ cmds) (pos : 0 < c.totalAcks) :
    0 < acksOf cmds c.seq := by
  rw [acksOf, Ledger.sum_erase _ there, if_pos rfl]
  omega

theorem Sound.foreign (sound : Sound s) (idle : ∀ slot stat, s.slotAt seq = some slot →
    slot.mset ≠ some (.running stat)) : ∀ c ∈ s.cmds, c.seq ≠ seq := by
  intro c member same
  obtain ⟨-, slot, stat, there, running⟩ := sound.running c member
  exact idle slot stat (same ▸ there) running

theorem Sound.told_stat (sound : Sound s) {stat stat' : MsetStat} (there : s.slotAt seq = some slot)
    (running : slot.mset = some (.running stat)) (same : stat'.addr = stat.addr) :
    ∀ m ∈ s.fins, m.seq = seq → ∀ mset, some (Mset.running stat') = some mset → ∃ stat, mset = .running stat ∧ stat.addr = m.stat := by
  rintro m member rfl _ ⟨⟩
  obtain ⟨known, ⟨⟩, addr⟩ := (sound.told m member).2 slot _ there running
  exact ⟨stat', rfl, same.trans addr⟩

theorem Sound.no_reply (sound : Sound s) {mset : Mset} (there : s.slotAt seq = some slot) (under : slot.mset = some mset) :
    ∀ t ∈ s.tickets, t.seq ≠ seq := by
  intro t member same
  have awaits := (sound.awaited t member).2 slot (same ▸ there)
  rw [awaits.1] at under
  cases under

theorem Sound.enter (sound : Sound s) {jobs : List Job}
    (posted : ∀ j ∈ jobs, j.ticket.seq = s.inSeq ∧ slot.Awaits j.ticket)
    (distinct : (jobs.map fun j => j.ticket.sub).Nodup)
    (unanswered : slot.mset.isSome → slot.done = false ∧ slot.replyType ≠ .buf)
    (started : ∀ stat, slot.mset = some (.running stat) → stat.finAck + stat.todo.length ≤ stat.total) :
    Sound (s.enter slot jobs) := by
  have tickets : (s.enter slot jobs).tickets = (jobs.map Job.ticket : List Ticket) + s.tickets := by
    simp only [State.tickets, State.enter, Multiset.map_add, Multiset.map_coe]
    abel
  have old : ∀ t ∈ s.tickets, t.seq ≠ s.inSeq := fun t there => (sound.awaited t there).1.ne
  have none : s.slotAt s.inSeq = none := by
    by_contra some
    obtain ⟨slot, there⟩ := Option.ne_none_iff_exists'.1 some
    exact (slotAt_lt there).false
  constructor
  · rw [tickets, Multiset.map_add, Multiset.nodup_add]
    refine ⟨?_, sound.distinct, ?_⟩
    · have subs : (jobs.map fun j => (s.inSeq, j.ticket.sub)).Nodup := by
        have paired := distinct.map (f := Prod.mk s.inSeq) fun _ _ same => (Prod.mk.inj same).2
        simpa [Function.comp_def] using paired
      have same : jobs.map (fun j => (j.ticket.seq, j.ticket.sub)) = jobs.map fun j => (s.inSeq, j.ticket.sub) :=
        List.map_congr_left fun j member => by rw [(posted j member).1]
      simpa [Function.comp_def, same] using subs
    · rw [Multiset.disjoint_left]
      intro p new there
      obtain ⟨t, member, rfl⟩ := Multiset.mem_map.1 there
      obtain ⟨t', member', same⟩ := Multiset.mem_map.1 new
      obtain ⟨j, posted', rfl⟩ := List.mem_map.1 (Multiset.mem_coe.1 member')
      exact old t member ((Prod.mk.inj same).1 ▸ (posted j posted').1)
  · intro t there
    have within : (s.enter slot jobs).inSeq = s.inSeq + 1 := by simp [State.inSeq, State.enter, Nat.add_assoc]
    rw [tickets, Multiset.mem_add] at there
    rw [within, slotAt_enter]
    obtain there | there := there
    · obtain ⟨j, member, rfl⟩ := List.mem_map.1 (Multiset.mem_coe.1 there)
      obtain ⟨here, awaits⟩ := posted j member
      refine ⟨by omega, fun slot' found => ?_⟩
      rw [if_pos here] at found
      exact Option.some.inj found ▸ awaits
    · obtain ⟨before, awaits⟩ := sound.awaited t there
      refine ⟨by omega, fun slot' found => awaits slot' ?_⟩
      rwa [if_neg (old t there)] at found
  · intro q slot' found
    rw [slotAt_enter] at found
    split at found
    · exact Option.some.inj found ▸ unanswered
    · exact sound.unanswered q slot' found
  · intro c member
    obtain ⟨pos, slot', stat, there, running⟩ := sound.running c member
    exact ⟨pos, slot', stat, by rw [slotAt_enter, if_neg (slotAt_lt there).ne, there], running⟩
  · intro q slot' stat found running
    rw [slotAt_enter] at found
    split at found
    next here =>
      have acks : acksOf s.cmds q = 0 := acksOf_eq_zero (sound.foreign fun slot stat there => by simp [here, none] at there)
      have count := started stat (Option.some.inj found ▸ running)
      change stat.finAck + acksOf s.cmds q + stat.todo.length ≤ stat.total
      omega
    · exact sound.counted q slot' stat found running
  · intro m member
    obtain ⟨before, known⟩ := sound.told m member
    refine ⟨?_, fun slot' mset found => known slot' mset ?_⟩
    · simp only [State.inSeq, State.enter, List.length_append] at before ⊢
      omega
    · rwa [slotAt_enter, if_neg before.ne] at found

theorem Sound.still_running (sound : Sound s) {c : MsetCmd} (old : c ∈ s.cmds)
    (runs : ∃ stat, new.mset = some (.running stat)) :
    0 < c.totalAcks ∧ (c.seq = seq ∧ (∃ stat, new.mset = some (.running stat)) ∨
      c.seq ≠ seq ∧ ∃ c' ∈ s.cmds, c'.seq = c.seq) := by
  have pos := (sound.running c old).1
  by_cases here : c.seq = seq
  · exact ⟨pos, .inl ⟨here, runs⟩⟩
  · exact ⟨pos, .inr ⟨here, c, old, rfl⟩⟩

theorem Sound.update (sound : Sound s) (at_ : ∀ q, s'.slotAt q = if q = seq then some new else s.slotAt q)
    (end_ : s'.inSeq = s.inSeq) (tickets : s'.tickets ≤ s.tickets)
    (awaits : ∀ t ∈ s'.tickets, t.seq = seq → new.Awaits t)
    (unanswered : new.mset.isSome → new.done = false ∧ new.replyType ≠ .buf)
    (cmds : ∀ c ∈ s'.cmds, 0 < c.totalAcks ∧ (c.seq = seq ∧ (∃ stat, new.mset = some (.running stat)) ∨
      c.seq ≠ seq ∧ ∃ c' ∈ s.cmds, c'.seq = c.seq))
    (others : ∀ q, q ≠ seq → acksOf s'.cmds q ≤ acksOf s.cmds q)
    (counted : ∀ stat, new.mset = some (.running stat) →
      stat.finAck + acksOf s'.cmds seq + stat.todo.length ≤ stat.total)
    (fins : s'.fins = s.fins)
    (told : ∀ m ∈ s.fins, m.seq = seq → ∀ mset, new.mset = some mset → ∃ stat, mset = .running stat ∧ stat.addr = m.stat) :
    Sound s' := by
  constructor
  · exact Multiset.nodup_of_le (Multiset.map_le_map tickets) sound.distinct
  · intro t there
    obtain ⟨before, awaited⟩ := sound.awaited t (Multiset.mem_of_le tickets there)
    refine ⟨end_ ▸ before, fun slot' found => ?_⟩
    rw [at_] at found
    split at found
    next here => exact Option.some.inj found ▸ awaits t there here
    · exact awaited slot' found
  · intro q slot' found
    rw [at_] at found
    split at found
    · exact Option.some.inj found ▸ unanswered
    · exact sound.unanswered q slot' found
  · intro c member
    obtain ⟨pos, ⟨here, stat, running⟩ | ⟨elsewhere, c', member', same⟩⟩ := cmds c member
    · exact ⟨pos, new, stat, by rw [at_, if_pos here], running⟩
    · obtain ⟨-, slot', stat, there, running⟩ := sound.running c' member'
      exact ⟨pos, slot', stat, by rw [at_, if_neg elsewhere, ← same, there], running⟩
  · intro q slot' stat found running
    rw [at_] at found
    split at found
    next here =>
      rw [here]
      exact counted stat (Option.some.inj found ▸ running)
    next elsewhere =>
      have count := sound.counted q slot' stat found running
      have less := others q elsewhere
      omega
  · intro m member
    obtain ⟨before, known⟩ := sound.told m (fins ▸ member)
    refine ⟨end_ ▸ before, fun slot' mset found => ?_⟩
    rw [at_] at found
    split at found
    next here => exact Option.some.inj found ▸ told m (fins ▸ member) here mset
    · exact known slot' mset found

end Invariant

/-- The commands that lose blocks: a GET or SET for another shard on the fast path, which has forgotten its argument arrays
once they are in the message, and MGET, whose header is in a slot that has no REPLY_TYPE_BUF. -/
def leaks (d : Dispatcher) : Action → Bool
  | .client env args =>
    match d.respDispatchProxy (fun _ => env.locked) args with
    | .send _ _ => env.arrays && fastName args
    | .mget => env.header
    | _ => false
  | _ => false

def Accounted (d : Dispatcher) (s s' : State) (leaky : Bool) : Prop :=
  Sound s' ∧ ∃ lost, Moves d s s' lost ∧ (lost = 0 ↔ leaky = false)

end FreakV.Serving
