import FreakV.Serving.Exchange

namespace FreakV.Serving

open Commands (Dispatcher Arg Request)
open Net (ReplyType ascii)
open Transition (follow)

section Locks

variable {d : Dispatcher} {s s' : State} {seq : Nat}

@[simp] theorem acksOf_cons (c : MsetCmd) (cmds : Multiset MsetCmd) (q : Nat) :
    acksOf (c ::ₘ cmds) q = (if c.seq = q then c.totalAcks else 0) + acksOf cmds q := by
  simp [acksOf]

@[simp] theorem acksOf_add (front back : Multiset MsetCmd) (q : Nat) :
    acksOf (front + back) q = acksOf front q + acksOf back q := by
  simp [acksOf]

structure Grown (seq : Nat) (old new : Multiset MsetCmd) : Prop where
  known : ∀ c ∈ new, c.seq = seq ∧ 0 < c.totalAcks ∨ c ∈ old
  acks : ∀ q, acksOf new q ≤ acksOf old q + if q = seq then 1 else 0

theorem Grown.refl (cmds : Multiset MsetCmd) : Grown seq cmds cmds := ⟨fun _ member => .inr member, fun _ => Nat.le_add_right _ _⟩

theorem Grown.add {old new : Multiset MsetCmd} (grown : Grown seq old new) (rest : Multiset MsetCmd) :
    Grown seq (old + rest) (new + rest) := by
  constructor
  · intro c member
    obtain member | member := Multiset.mem_add.1 member
    · exact (grown.known c member).imp_right (Multiset.mem_add.2 ∘ .inl)
    · exact .inr (Multiset.mem_add.2 (.inr member))
  · intro q
    have more := grown.acks q
    simp only [acksOf_add]
    omega

theorem Grown.again (c : MsetCmd) : Grown c.seq {c} {{ c with totalAcks := c.totalAcks + 1 }} := by
  constructor
  · intro c' member
    obtain rfl := Multiset.mem_singleton.1 member
    exact .inl ⟨rfl, Nat.succ_pos _⟩
  · intro q
    by_cases same : q = c.seq <;> simp [acksOf, same, eq_comm]

theorem Grown.new (seq addr : Nat) (cmds : Multiset MsetCmd) :
    Grown seq cmds (cmds + {{ cmdInfo := addr, seq := seq, totalAcks := 1 }}) := by
  constructor
  · intro c member
    obtain member | member := Multiset.mem_add.1 member
    · exact .inr member
    · obtain rfl := Multiset.mem_singleton.1 member
      exact .inl ⟨rfl, Nat.one_pos⟩
  · intro q
    by_cases same : q = seq <;> simp [acksOf, same, eq_comm]

theorem countIn_spec {queue queue' : List WaitGroup} (counted : LockEntry.countIn seq queue = some queue') :
    Grown seq (anchorsOf queue) (anchorsOf queue') ∧ queue'.flatMap WaitGroup.waiting = queue.flatMap WaitGroup.waiting ∧
      queue'.flatMap WaitGroup.addrs = queue.flatMap WaitGroup.addrs := by
  induction queue generalizing queue' with
  | nil => cases counted
  | cons group rest ih =>
    unfold LockEntry.countIn at counted
    split at counted
    next same =>
      cases counted
      refine ⟨?_, by simp, by simp [WaitGroup.addrs]⟩
      rw [anchorsOf_cons, anchorsOf_cons]
      exact same ▸ (Grown.again group.anchor).add _
    · obtain ⟨rest', found, rfl⟩ := Option.map_eq_some_iff.1 counted
      obtain ⟨grown, waiting, addrs⟩ := ih found
      refine ⟨?_, by simp [waiting], by simp [addrs]⟩
      simp only [anchorsOf_cons, add_comm {group.anchor}]
      exact grown.add _

structure Joined (seq : Nat) (e e' : LockEntry) (added : Multiset Block) : Prop where
  grown : Grown seq e.cmds e'.cmds
  tickets : e'.tickets = e.tickets
  blocks : e'.blocks = e.blocks + added

theorem countAgain_joined {e e' : LockEntry} (counted : e.countAgain seq = some e') : Joined seq e e' 0 := by
  unfold LockEntry.countAgain at counted
  split at counted
  next same =>
    cases counted
    refine ⟨?_, rfl, by simp [LockEntry.blocks]⟩
    exact same ▸ (Grown.again e.holder).add _
  · obtain ⟨queue, found, rfl⟩ := Option.map_eq_some_iff.1 counted
    obtain ⟨grown, waiting, addrs⟩ := countIn_spec found
    refine ⟨?_, by simp [LockEntry.tickets, waiting], by simp [LockEntry.blocks, addrs]⟩
    simp only [LockEntry.cmds, add_comm {e.holder}]
    exact grown.add _

theorem addMset_joined (e : LockEntry) (s : State) :
    Joined seq e (e.addMset s.next seq) (s.newBlocks e.shard e.addedBlocks) := by
  unfold LockEntry.addMset LockEntry.addedBlocks
  cases opened : e.opened with
  | none =>
    refine ⟨?_, by simp [LockEntry.tickets, opened], ?_⟩
    · simp only [LockEntry.cmds, anchorsOf_append, anchorsOf_cons, anchorsOf_nil, add_zero, ← add_assoc]
      exact Grown.new seq s.next _
    · simp only [LockEntry.blocks, opened, Option.elim_none, Option.isSome_none, Bool.false_eq_true, ↓reduceIte,
        List.flatMap_append, List.flatMap_cons, List.flatMap_nil, WaitGroup.addrs, List.map_nil,
        List.append_nil, allAt_cons, allAt_append, allAt_nil, newBlocks_succ, newBlocks_zero, add_zero, zero_add]
      abel
  | some group =>
    refine ⟨?_, by simp [LockEntry.tickets, opened], ?_⟩
    · simp only [LockEntry.cmds, anchorsOf_append, anchorsOf_cons, anchorsOf_nil, add_zero, ← add_assoc]
      exact Grown.new seq s.next _
    · simp only [LockEntry.blocks, opened, Option.elim_some, Option.elim_none, Option.isSome_some, ↓reduceIte,
        List.flatMap_append, List.flatMap_cons, List.flatMap_nil, WaitGroup.addrs, List.cons_append,
        List.append_nil, allAt_cons, allAt_append, newBlocks_succ, newBlocks_zero, add_zero, zero_add]
      abel

section Prepare

variable {target : Nat} {outcome : Prepared}

structure Locked (d : Dispatcher) (seq : Nat) (s s' : State) : Prop where
  slots : s'.slots = s.slots
  outSeq : s'.outSeq = s.outSeq
  tickets : s'.tickets = s.tickets
  grown : Grown seq s.cmds s'.cmds
  fins : s'.fins = s.fins
  moves : Moves d s s' 0

theorem joined_locked {e e' : LockEntry} {pool n : Nat} (there : e ∈ s.entries)
    (joined : Joined seq e e' (s.newBlocks pool n)) :
    Locked d seq s { s.alloc pool n with entries := e' ::ₘ s.entries.erase e } := by
  refine ⟨rfl, rfl, ?_, ?_, rfl, s.newBlocks pool n, 0, (Multiset.sub_zero _).symm, ?_⟩
  · simp only [State.tickets, State.alloc, Multiset.map_cons, Multiset.sum_cons, joined.tickets,
      Ledger.sum_erase LockEntry.tickets there]
  · simp only [State.cmds, Multiset.map_cons, Multiset.sum_cons, Ledger.sum_erase LockEntry.cmds there]
    exact joined.grown.add _
  · simp only [State.held, State.alloc, Multiset.map_cons, Multiset.sum_cons, joined.blocks,
      Ledger.sum_erase LockEntry.blocks there]
    abel

theorem prepareAt_locked (moved : s.prepareAt seq target outcome = some s') : Locked d seq s s' := by
  cases outcome with
  | failed =>
    cases moved
    exact ⟨rfl, rfl, rfl, .refl _, rfl, 0, 0, by simp, by simp⟩
  | acquired =>
    cases moved
    refine ⟨rfl, rfl, ?_, ?_, rfl, s.newBlocks target 2, 0, (Multiset.sub_zero _).symm, ?_⟩
    · simp [State.tickets, State.alloc, LockEntry.tickets]
    · have acquired := Grown.new seq s.next s.cmds
      rw [add_comm] at acquired
      simpa only [State.cmds, Multiset.map_cons, Multiset.sum_cons, LockEntry.cmds, anchorsOf_nil, add_zero] using acquired
    · simp only [State.held, State.alloc, Multiset.map_cons, Multiset.sum_cons, LockEntry.blocks, List.flatMap_nil,
        Option.elim_none, List.append_nil, allAt_cons, allAt_nil, newBlocks_succ, newBlocks_zero, add_zero, zero_add]
      abel
  | found e =>
    simp only [State.prepareAt] at moved
    split at moved
    next found =>
      split at moved
      next e' counted =>
        cases moved
        have joined : Joined seq e e' (s.newBlocks target 0) := countAgain_joined counted
        have same : ({ s with entries := e' ::ₘ s.entries.erase e } : State) =
            { s.alloc target 0 with entries := e' ::ₘ s.entries.erase e } := by simp [State.alloc]
        rw [same]
        exact joined_locked found.1 joined
      · cases moved
        exact joined_locked found.1 (found.2 ▸ addMset_joined e s)
    · cases moved

theorem setStat_held {slot : Slot} {stat stat' : MsetStat} (there : s.slotAt seq = some slot)
    (running : slot.mset = some (.running stat)) (addr : stat'.addr = stat.addr) (batches : stat'.batches = stat.batches) :
    (s.setStat seq slot stat').held d = s.held d := by
  have change : slot.blocks d.self + 0 = ({ slot with mset := some (.running stat') } : Slot).blocks d.self + 0 := by
    simp only [Slot.blocks, Slot.released, Slot.freed, running, Option.elim_some, Mset.blocks, addr, batches]
  have held := held_setSlot d there change
  rw [add_zero, add_zero] at held
  exact held.symm

theorem accounted_prepare (sound : Sound s) (moved : s.prepare seq target outcome = some s') :
    Accounted d s s' false := by
  unfold State.prepare at moved
  split at moved
  next slot there =>
    split at moved
    next stat running =>
      split at moved
      next due =>
        set stat' : MsetStat := { stat with todo := stat.todo.erase target }
        have locked : Locked d seq (s.setStat seq slot stat') s' := prepareAt_locked moved
        have at_ : ∀ q, s'.slotAt q = if q = seq then some { slot with mset := some (.running stat') } else s.slotAt q := by
          intro q
          rw [State.slotAt, locked.slots, locked.outSeq]
          exact slotAt_setSlot there _ q
        have held : (s.setStat seq slot stat').held d = s.held d := setStat_held there running rfl rfl
        refine .nothing_lost (sound.update at_ ?_ locked.tickets.le ?_ ?_ ?_ ?_ ?_ locked.fins
          (sound.told_stat there running rfl)) ?_
        · simp [State.inSeq, locked.slots, locked.outSeq, State.setStat, State.setSlot]
        · exact fun t member here => absurd here (sound.no_reply there running t (locked.tickets ▸ member))
        · exact fun _ => sound.unanswered seq slot there (by simp [running])
        · intro c member
          obtain ⟨here, pos⟩ | old := locked.grown.known c member
          · exact ⟨pos, .inl ⟨here, stat', rfl⟩⟩
          · exact sound.still_running old ⟨stat', rfl⟩
        · intro q elsewhere
          have acks := locked.grown.acks q
          rwa [if_neg elsewhere] at acks
        · rintro _ ⟨⟩
          have acks := locked.grown.acks seq
          have count := sound.counted seq slot stat there running
          have shorter := List.length_erase_of_mem due
          have some := List.length_pos_of_mem due
          rw [if_pos rfl] at acks
          change acksOf s'.cmds seq ≤ acksOf s.cmds seq + 1 at acks
          simp only [stat', shorter]
          omega
        · obtain ⟨taken, given, live, balance⟩ := locked.moves
          rw [held] at balance
          exact ⟨taken, given, live, balance⟩
      · cases moved
    · cases moved
  · cases moved

end Prepare

section Fin

variable (e : LockEntry)

theorem passedOn_cmds : e.cmds = {e.holder} + e.passedOn.elim 0 LockEntry.cmds := by
  unfold LockEntry.passedOn LockEntry.cmds
  cases e.queue <;> simp

theorem passedOn_tickets : e.tickets = ticketsOf e.woken + e.passedOn.elim 0 LockEntry.tickets := by
  unfold LockEntry.passedOn LockEntry.woken LockEntry.tickets
  cases e.queue <;> simp

theorem passedOn_blocks : e.blocks = e.finFreed + e.passedOn.elim 0 LockEntry.blocks := by
  unfold LockEntry.finFreed LockEntry.passedOn LockEntry.woken LockEntry.blocks
  cases e.queue with
  | nil =>
    cases e.opened with
    | none =>
      simp only [Option.elim_none, List.map_nil, List.flatMap_nil, List.append_nil, allAt_cons, allAt_nil, add_zero]
      abel
    | some group =>
      simp only [Option.elim_none, Option.elim_some, List.flatMap_nil, List.cons_append, List.nil_append, allAt_cons,
        allAt_nil, add_zero]
      abel
  | cons group rest =>
    simp only [Option.elim_some, List.flatMap_cons, WaitGroup.addrs, List.cons_append, List.append_assoc, allAt_cons,
      allAt_append, allAt_nil, add_zero]
    abel

theorem passedOn_sum {M : Type} [AddCommMonoid M] (f : LockEntry → M) (kept : Option LockEntry) (rest : Multiset LockEntry) :
    (((kept.elim 0 fun e => {e}) + rest).map f).sum = kept.elim 0 f + (rest.map f).sum := by
  cases kept <;> simp

variable {e : LockEntry} (there : e ∈ s.entries)

include there

theorem passOn_cmds : s.cmds = {e.holder} + (s.passOn e).cmds := by
  simp only [State.cmds, State.passOn, State.free, passedOn_sum]
  rw [Ledger.sum_erase LockEntry.cmds there, passedOn_cmds e, add_assoc]

theorem passOn_tickets : (s.passOn e).tickets = s.tickets := by
  have woken : ((e.woken : Multiset Waiter).map Waiter.job).map Job.ticket = ticketsOf e.woken := by
    rw [Multiset.map_map]
    rfl
  simp only [State.tickets, State.passOn, State.free]
  rw [passedOn_sum, Multiset.map_add, woken, Ledger.sum_erase LockEntry.tickets there, passedOn_tickets e]
  abel

theorem passOn_held (d : Dispatcher) : s.held d = (s.passOn e).held d + e.finFreed := by
  simp only [State.held, State.passOn, State.free, passedOn_sum]
  rw [Ledger.sum_erase LockEntry.blocks there, passedOn_blocks e]
  abel

omit there

theorem accounted_fin (sound : Sound s) (moved : s.fin e = some s') : Accounted d s s' false := by
  unfold State.fin at moved
  split at moved
  next slot there =>
    split at moved
    next stat running =>
      split at moved
      next found =>
        cases moved
        set stat' : MsetStat := { stat with finAck := stat.finAck + e.holder.totalAcks } with counted
        set s' : State := s.setStat e.holder.seq slot stat'
        have held : s'.held d = s.held d := setStat_held there running rfl rfl
        have tickets : (s'.passOn e).tickets = s.tickets := passOn_tickets (s := s') found.1
        have cmds : s.cmds = {e.holder} + (s'.passOn e).cmds := passOn_cmds (s := s') found.1
        have acks : ∀ q, acksOf s.cmds q =
            (if e.holder.seq = q then e.holder.totalAcks else 0) + acksOf (s'.passOn e).cmds q := by
          intro q
          rw [cmds, Multiset.singleton_add, acksOf_cons]
        refine .nothing_lost (sound.update (slotAt_setSlot there _) ?_ tickets.le ?_ ?_ ?_ ?_ ?_ rfl
          (sound.told_stat there running rfl)) ⟨0, e.finFreed, by rw [add_zero]; rfl, ?_⟩
        · simp [State.inSeq, State.passOn, State.free, s', State.setStat, State.setSlot]
        · exact fun t member here => absurd here (sound.no_reply there running t (tickets ▸ member))
        · exact fun _ => sound.unanswered _ slot there (by simp [running])
        · intro c member
          have old : c ∈ s.cmds := cmds ▸ Multiset.mem_add.2 (.inr member)
          exact sound.still_running old ⟨stat', rfl⟩
        · intro q _
          have more := acks q
          omega
        · rintro _ ⟨⟩
          have count := sound.counted _ slot stat there running
          rw [acks, if_pos rfl] at count
          simp only [counted]
          omega
        · rw [add_zero, add_zero, ← held]
          exact passOn_held (s := s') found.1 d
      · cases moved
    · cases moved
  · cases moved

end Fin

section Finish

theorem accounted_sendFin (sound : Sound s) {e : LockEntry} (moved : s.sendFin d e = some s') : Accounted d s s' false := by
  unfold State.sendFin at moved
  split at moved
  next slot there =>
    split at moved
    next stat running =>
      split at moved
      · cases moved
        refine .nothing_lost ⟨sound.distinct, sound.awaited, sound.unanswered, sound.running, sound.counted, ?_⟩
          ⟨0, 0, by simp, (add_zero _).symm⟩
        intro m member
        obtain rfl | member := Multiset.mem_cons.1 member
        · refine ⟨slotAt_lt there, fun slot' mset there' running' => ⟨stat, ?_, rfl⟩⟩
          obtain rfl : slot = slot' := Option.some.inj (there.symm.trans there')
          exact Option.some.inj (running'.symm.trans running)
        · exact sound.told m member
      · cases moved
    · cases moved
  · cases moved

theorem accounted_takeFin (sound : Sound s) {m : FinMsg} (moved : s.takeFin m = some s') : Accounted d s s' false := by
  unfold State.takeFin at moved
  split at moved
  · cases moved
    exact .nothing_lost (sound.keep rfl rfl le_rfl rfl (Multiset.erase_le m s.fins)) ⟨0, 0, by simp, (add_zero _).symm⟩
  · cases moved

theorem Sound.settle (sound : Sound s) {slot new : Slot} {mset : Mset} (there : s.slotAt seq = some slot)
    (running : slot.mset = some mset) (plain : new.mset = none) (none : ∀ c ∈ s.cmds, c.seq ≠ seq) :
    Sound (s.setSlot seq new) := by
  refine sound.update (slotAt_setSlot there _) ?_ le_rfl ?_ (by simp [plain]) ?_ (fun _ _ => le_rfl) (by simp [plain])
    rfl (by simp [plain])
  · simp [State.inSeq, State.setSlot]
  · exact fun t member here => absurd here (sound.no_reply there running t member)
  · exact fun c member => ⟨(sound.running c member).1, .inr ⟨none c member, c, member, rfl⟩⟩

theorem accounted_finish (sound : Sound s) (moved : s.finish d seq = some s') : Accounted d s s' false := by
  unfold State.finish at moved
  split at moved
  next slot there =>
    split at moved
    next stat running =>
      split at moved
      next all =>
        cases moved
        have count := sound.counted seq slot stat there running
        have none : ∀ c ∈ s.cmds, c.seq ≠ seq := by
          rintro c member rfl
          have pos := acksOf_pos member (sound.running c member).1
          omega
        have plain := (sound.unanswered seq slot there (by simp [running])).2
        refine .nothing_lost ((sound.settle there running rfl none).keep rfl rfl le_rfl rfl le_rfl)
          ⟨0, allAt d.self (stat.addr :: stat.batches), by rw [add_zero]; rfl, ?_⟩
        refine (held_setSlot d there ?_).trans (add_zero _).symm
        simp [Slot.blocks, Slot.released, Slot.freed, running, plain, Mset.blocks]
      · cases moved
    · cases moved
  · cases moved

theorem accounted_resume (sound : Sound s) {room : Bool} (moved : s.resume d seq room = some s') :
    Accounted d s s' false := by
  unfold State.resume at moved
  split at moved
  next slot there =>
    split at moved
    next argv arglen shards held =>
      have none : ∀ c ∈ s.cmds, c.seq ≠ seq := by
        refine sound.foreign fun slot' stat there' => ?_
        obtain rfl := Option.some.inj (there'.symm.trans there)
        simp [held]
      have plain := sound.unanswered seq slot there (by simp [held])
      split at moved
      · cases moved
        have acks : acksOf s.cmds seq = 0 := acksOf_eq_zero none
        have kept : Sound (s.setStat seq slot (newStat d s shards)) := by
          refine sound.update (slotAt_setSlot there _) ?_ le_rfl ?_ (fun _ => plain) ?_ (fun _ _ => le_rfl) ?_
            rfl ?_
          · simp [State.inSeq, State.setStat, State.setSlot]
          · exact fun t member here => absurd here (sound.no_reply there held t member)
          · exact fun c member => ⟨(sound.running c member).1, .inr ⟨none c member, c, member, rfl⟩⟩
          · rintro _ ⟨⟩
            change 0 + acksOf s.cmds seq + shards.length ≤ shards.length
            omega
          · rintro m member rfl
            obtain ⟨stat, other, -⟩ := (sound.told m member).2 slot _ there held
            cases other
        refine .nothing_lost (kept.keep rfl rfl le_rfl rfl le_rfl)
          ⟨s.newBlocks d.self (1 + batchCount d shards), allAt d.self [argv, arglen], rfl, ?_⟩
        refine (held_setSlot d there ?_).trans (add_zero _).symm
        simp only [Slot.blocks, Slot.released, Slot.freed, held, Option.elim_some, Mset.blocks, newBlocks_stat, newStat]
        abel
      · cases moved
        refine .nothing_lost ((sound.settle there held rfl none).keep rfl rfl le_rfl rfl le_rfl)
          ⟨0, allAt d.self [argv, arglen], by rw [add_zero]; rfl, ?_⟩
        refine (held_setSlot d there ?_).trans (add_zero _).symm
        simp [Slot.blocks, Slot.released, Slot.freed, held, plain.2, Mset.blocks]
    · cases moved
  · cases moved

end Finish

end Locks

section Runs

variable {d : Dispatcher} {s s' : State}

theorem accounted_step (sound : Sound s) {action : Action} (moved : s.step d action = some s') :
    Accounted d s s' (leaks d action) := by
  cases action with
  | client env args =>
    cases moved
    exact accounted_client sound env args
  | exec job outcome => exact accounted_exec sound moved
  | deliver a => exact accounted_deliver sound moved
  | flush => exact accounted_flush sound moved
  | release b => exact accounted_release sound moved
  | prepare seq target outcome => exact accounted_prepare sound moved
  | fin e => exact accounted_fin sound moved
  | sendFin e => exact accounted_sendFin sound moved
  | takeFin m => exact accounted_takeFin sound moved
  | finish seq => exact accounted_finish sound moved
  | resume seq room => exact accounted_resume sound moved

theorem balanced_run {before lost : Multiset Block} {actions : List Action} (sound : Sound s)
    (balanced : Ledger.Balanced before s.live (s.held d) lost)
    (ran : follow (State.step d) (fun _ _ => true) actions s = some s') :
    Sound s' ∧ ∃ more, Ledger.Balanced before s'.live (s'.held d) (lost + more) ∧
      (more = 0 ↔ ∀ action ∈ actions, leaks d action = false) := by
  induction actions generalizing s lost with
  | nil =>
    cases ran
    exact ⟨sound, 0, by rwa [add_zero], by simp⟩
  | cons action rest ih =>
    simp only [follow, if_true] at ran
    split at ran
    next middle moved =>
      obtain ⟨sound', more, ⟨taken, given, live, moves⟩, first⟩ := accounted_step sound moved
      have balanced' := live ▸ balanced.move moves
      obtain ⟨sound'', more', balanced'', later⟩ := ih sound' balanced' ran
      refine ⟨sound'', more + more', by rwa [← add_assoc], ?_⟩
      rw [add_eq_zero_iff_of_nonneg (Multiset.zero_le _) (Multiset.zero_le _), first, later, List.forall_mem_cons]
    · cases ran

theorem Sound.held_settled (sound : Sound s) (settled : s.Settled) : s.held d = 0 := by
  obtain ⟨slots, -, answers, releases⟩ := settled
  have entries : s.entries = 0 := by
    refine Multiset.eq_zero_of_forall_notMem fun e member => ?_
    have holder : e.holder ∈ s.cmds := by
      rw [State.cmds, Ledger.sum_erase LockEntry.cmds member]
      simp [LockEntry.cmds]
    obtain ⟨-, slot, stat, there, -⟩ := sound.running e.holder holder
    simp [State.slotAt, slots] at there
  simp [State.held, slots, answers, releases, entries]

theorem Sound.idle (live : Multiset Block) (next seq : Nat) : Sound { live := live, next := next, outSeq := seq } := by
  constructor <;> simp [State.tickets, State.cmds, State.slotAt]

theorem serving_leaks_nothing_iff (d : Dispatcher) (live : Multiset Block) (next seq : Nat) (actions : List Action)
    (s : State) (ran : follow (State.step d) (fun _ _ => true) actions { live := live, next := next, outSeq := seq } = some s)
    (settled : s.Settled) : s.live = live ↔ ∀ action ∈ actions, leaks d action = false := by
  have start : Ledger.Balanced live live (State.held d { live := live, next := next, outSeq := seq }) 0 := by
    simp [Ledger.Balanced, State.held]
  obtain ⟨sound, lost, balanced, none⟩ := balanced_run (Sound.idle live next seq) start ran
  rw [sound.held_settled settled, zero_add] at balanced
  rw [balanced.unchanged_iff, none]

section Idle

variable {d : Dispatcher} {live : Multiset Block} {next seq : Nat} {actions : List Action} {s s' : State}
  (ran : follow (State.step d) (fun _ _ => true) actions { live := live, next := next, outSeq := seq } = some s)

include ran

theorem idle_run : Sound s ∧ live + s.held d ≤ s.live := by
  have start : Ledger.Balanced live live (State.held d { live := live, next := next, outSeq := seq }) 0 := by
    simp [Ledger.Balanced, State.held]
  obtain ⟨sound, lost, balanced, -⟩ := balanced_run (Sound.idle live next seq) start ran
  refine ⟨sound, ?_⟩
  rw [balanced]
  exact Multiset.le_add_right _ _

theorem stat_live {q : Nat} {slot : Slot} {stat : MsetStat} (there : s.slotAt q = some slot)
    (running : slot.mset = some (.running stat)) : { pool := d.self, addr := stat.addr } ∈ s.live := by
  have mine : ({ pool := d.self, addr := stat.addr } : Block) ∈ slot.blocks d.self := by
    simp [Slot.blocks, running, Mset.blocks]
  have held := Multiset.mem_of_le (slot_le_held d there) mine
  exact Multiset.mem_of_le (idle_run ran).2 (Multiset.mem_add.2 (.inr held))

/-- In whatever order the messages arrive, what a slot, a reply, a release or a lock refers to is live, and as often, so
that nothing is freed twice. So is the stat that the commands of an MSET point to, and the one that a FIN points to, but
the latter only until the MSET is answered. -/
theorem serving_holds_live : live + s.held d ≤ s.live ∧
    (∀ c ∈ s.cmds, ∃ slot stat, s.slotAt c.seq = some slot ∧ slot.mset = some (.running stat) ∧
      { pool := d.self, addr := stat.addr } ∈ s.live) ∧
    ∀ m ∈ s.fins, ∀ slot, s.slotAt m.seq = some slot → slot.mset ≠ none → { pool := d.self, addr := m.stat } ∈ s.live := by
  have sound := (idle_run ran).1
  refine ⟨(idle_run ran).2, ?_, ?_⟩
  · intro c member
    obtain ⟨-, slot, stat, there, running⟩ := sound.running c member
    exact ⟨slot, stat, there, running, stat_live ran there running⟩
  · intro m member slot there unanswered
    obtain ⟨mset, under⟩ := Option.ne_none_iff_exists'.1 unanswered
    obtain ⟨stat, rfl, addr⟩ := (sound.told m member).2 slot mset there under
    exact addr ▸ stat_live ran there under

theorem serving_mset_finished {q : Nat} (moved : s.finish d q = some s') : (∀ c ∈ s.cmds, c.seq ≠ q) ∧
    ∃ slot stat, s.slotAt q = some slot ∧ slot.mset = some (.running stat) ∧ stat.todo = [] := by
  have sound := (idle_run ran).1
  obtain ⟨slot, stat, there, running, all⟩ : ∃ slot stat,
      s.slotAt q = some slot ∧ slot.mset = some (.running stat) ∧ stat.finAck = stat.total := by
    unfold State.finish at moved
    grind -ring -linarith
  have count := sound.counted q slot stat there running
  refine ⟨?_, slot, stat, there, running, List.length_eq_zero_iff.1 (by omega)⟩
  rintro c member rfl
  have pos := acksOf_pos member (sound.running c member).1
  omega

end Idle

end Runs

section Samples

def onTwo : Dispatcher := { self := 0, numShards := 2 }

def serve (actions : List Action) : Option State :=
  follow (State.step onTwo) (fun _ _ => true) actions { live := 0, next := 0, outSeq := 0 }

def args (words : List String) : List Arg := words.map fun word => { text := ascii word }

def onA (seq : Nat) : Ticket := { owner := 1, seq := seq, sub := 0 }

def lockB : LockEntry := { shard := 0, openGroups := 6, holder := { cmdInfo := 5, seq := 1, totalAcks := 1 } }

def lockA : LockEntry := { shard := 1, openGroups := 8, holder := { cmdInfo := 7, seq := 1, totalAcks := 1 } }

def typeA : Job := { ticket := onA 0, req := .regular .type (args ["TYPE", "a"]) }

def msetBehindType : List Action :=
  [.client {} (args ["TYPE", "a"]), .client {} (args ["MSET", "a", "1", "b", "2"]), .exec typeA (.done .none true),
    .prepare 1 0 .acquired, .prepare 1 1 .acquired, .sendFin lockA, .fin lockB, .fin lockA,
    .takeFin { seq := 1, stat := 2 }, .finish 1,
    .deliver { ticket := onA 0, replyType := .buf, replyBuf := some 4, typed := fun _ => rfl }, .flush, .flush,
    .release { pool := 1, addr := 4 }]

theorem mset_behind_type_leaks_nothing : ∃ s, serve msetBehindType = some s ∧ s.Settled ∧ s.live = 0 := by
  have checked : (serve msetBehindType).map (fun s => decide s.Settled) = some true := by decide +kernel
  obtain ⟨s, ran, settled⟩ := Option.map_eq_some_iff.1 checked
  have harmless : ∀ action ∈ msetBehindType, leaks onTwo action = false := by decide +kernel
  exact ⟨s, ran, of_decide_eq_true settled,
    (serving_leaks_nothing_iff onTwo 0 0 0 msetBehindType s ran (of_decide_eq_true settled)).2 harmless⟩

theorem mset_behind_type_finished : ∃ s s', serve (msetBehindType.take 9) = some s ∧ s.finish onTwo 1 = some s' ∧
    ∀ c ∈ s.cmds, c.seq ≠ 1 := by
  have checked : ((serve (msetBehindType.take 9)).bind fun s => s.finish onTwo 1).isSome = true := by decide +kernel
  obtain ⟨s', both⟩ := Option.isSome_iff_exists.1 checked
  obtain ⟨s, ran, moved⟩ := Option.bind_eq_some_iff.1 both
  exact ⟨s, s', ran, moved, (serving_mset_finished ran moved).1⟩

theorem mset_behind_type_live : ∃ s, serve (msetBehindType.take 7) = some s ∧ 0 + s.held onTwo ≤ s.live ∧
    lockA.holder ∈ s.cmds ∧ { pool := 0, addr := 2 } ∈ s.live := by
  have checked : (serve (msetBehindType.take 7)).map (fun s => (s.fins, s.entries,
      (s.slotAt 1).map fun slot => slot.mset.isSome)) = some ({{ seq := 1, stat := 2 }}, {lockA}, some true) := by
    decide +kernel
  obtain ⟨s, ran, seen⟩ := Option.map_eq_some_iff.1 checked
  simp only [Prod.mk.injEq] at seen
  obtain ⟨fins, entries, mset⟩ := seen
  obtain ⟨slot, there, unanswered⟩ := Option.map_eq_some_iff.1 mset
  obtain ⟨held, -, told⟩ := serving_holds_live ran
  refine ⟨s, ran, held, by simp [State.cmds, entries, LockEntry.cmds], ?_⟩
  exact told { seq := 1, stat := 2 } (by simp [fins]) slot there (Option.isSome_iff_ne_none.1 unanswered)

/-- Shard 1 commits early: the MSET is answered and its stat freed before the FIN that points to it is taken. -/
theorem late_fin_stale :
    (serve [.client {} (args ["MSET", "a", "1", "b", "2"]), .prepare 0 0 .acquired, .prepare 0 1 .acquired,
      .sendFin { lockA with openGroups := 5, holder := { cmdInfo := 4, seq := 0, totalAcks := 1 } },
      .fin { lockA with openGroups := 5, holder := { cmdInfo := 4, seq := 0, totalAcks := 1 } },
      .fin { lockB with openGroups := 3, holder := { cmdInfo := 2, seq := 0, totalAcks := 1 } }, .finish 0, .flush]).map
      (fun s => (s.fins, s.live)) = some ({{ seq := 0, stat := 0 }}, 0) := by
  decide +kernel

def servedOnA (words : List String) (req : Request) (replyType : ReplyType) : List Action :=
  [.client {} (args words), .exec { ticket := onA 0, req := req } (.done replyType true),
    .deliver { ticket := onA 0, replyType := replyType, replyBuf := none, typed := nofun }, .flush]

theorem get_and_mget_leak :
    (serve (servedOnA ["GET", "a"] (.regular .get (args ["GET", "a"])) .nil)).map
        (fun s => (decide s.Settled, s.live)) = some (true, allAt 0 [0, 1]) ∧
      (serve (servedOnA ["MGET", "a"] (.mgetPart (ascii "a")) .nil)).map
        (fun s => (decide s.Settled, s.live)) = some (true, allAt 0 [4]) := by
  constructor <;> decide +kernel

end Samples

end FreakV.Serving
