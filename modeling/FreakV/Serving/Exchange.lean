import FreakV.Serving.Accounts

namespace FreakV.Serving

open Commands (Dispatcher Arg Request)
open Net (ReplyType)

section Client

variable {d : Dispatcher} {s : State}

theorem Sound.alloc (sound : Sound s) (pool n : Nat) : Sound (s.alloc pool n) := sound.keep rfl rfl le_rfl rfl le_rfl

theorem moves_enter {pool n : Nat} {slot : Slot} {lost : Multiset Block} (jobs : List Job)
    (taken : s.newBlocks pool n = slot.blocks d.self + lost) : Moves d s ((s.alloc pool n).enter slot jobs) lost := by
  refine ⟨s.newBlocks pool n, 0, (Multiset.sub_zero _).symm, ?_⟩
  simp only [State.held, State.enter, State.alloc, List.map_append, List.sum_append, List.map_cons, List.map_nil,
    List.sum_singleton, taken]
  abel

theorem accounted_enter (sound : Sound s) {pool n : Nat} {slot : Slot} {jobs : List Job} {leaky : Bool}
    (lost : Multiset Block) (taken : s.newBlocks pool n = slot.blocks d.self + lost) (lose : lost = 0 ↔ leaky = false)
    (posted : ∀ j ∈ jobs, j.ticket.seq = s.inSeq ∧ slot.Awaits j.ticket)
    (distinct : (jobs.map fun j => j.ticket.sub).Nodup) (plain : slot.mset = none) :
    Accounted d s ((s.alloc pool n).enter slot jobs) leaky :=
  ⟨(sound.alloc pool n).enter posted distinct (by simp [plain]) (by simp [plain]), lost, moves_enter jobs taken, lose⟩

theorem accounted_answerHere (sound : Sound s) (text : Bool) : Accounted d s (s.answerHere d text) false := by
  cases text with
  | false =>
    have nothing : s.answerHere d false = (s.alloc d.self 0).enter { done := true, shardOwner := d.self } [] := by
      simp [State.answerHere, State.alloc]
    rw [nothing]
    refine accounted_enter sound 0 ?_ (by simp) (by simp) (by simp) rfl
    simp [Slot.blocks, Slot.released, Slot.freed]
  | true =>
    refine accounted_enter sound 0 ?_ (by simp) (by simp) (by simp) rfl
    simp [newBlocks_succ, Slot.blocks, Slot.released, Slot.freed]

theorem accounted_forward (sound : Sound s) (owner : Nat) (op : Commands.ProxyOp) (args : List Arg) (kept : Bool) :
    Accounted d s (s.forward d owner op args kept) (!kept) := by
  refine accounted_enter sound (if kept then 0 else allAt d.self [s.next, s.next + 1]) ?_ ?_ ?_ (by simp) rfl
  · cases kept <;> simp [newBlocks_succ, Slot.blocks, Slot.released, Slot.freed]
  · cases kept <;> simp
  · simp [Slot.Awaits]

section Parts

variable (part : Bytes → Request) (keys : List Arg)

theorem partJobs_distinct : ((s.partJobs d part keys).map fun j => j.ticket.sub).Nodup := by
  have subs : (s.partJobs d part keys).map (fun j => j.ticket.sub) = keys.zipIdx.map Prod.snd := by
    simp [State.partJobs, Function.comp_def]
  rw [subs, List.zipIdx_map_snd]
  exact List.nodup_range'

theorem partJobs_posted {slot : Slot} {m : Multi} (plain : slot.mset = none) (multi : slot.multi = some m)
    (parts : m.parts = List.replicate keys.length {}) (owned : m.owners.isSome = true) :
    ∀ j ∈ s.partJobs d part keys, j.ticket.seq = s.inSeq ∧ slot.Awaits j.ticket := by
  intro j member
  obtain ⟨⟨key, i⟩, there, rfl⟩ := List.mem_map.1 member
  have inside : i < keys.length := by
    have bound := List.snd_lt_of_mem_zipIdx there
    simpa using bound
  refine ⟨rfl, plain, ?_⟩
  rw [multi]
  refine ⟨{}, by simp [parts, inside], rfl, fun missing => ?_⟩
  simp [missing] at owned

end Parts

theorem accounted_mget (sound : Sound s) (keys : List Arg) (header : Bool) :
    Accounted d s (s.mget d keys header) header := by
  refine accounted_enter sound (if header then allAt d.self [s.next + 4] else 0) ?_ ?_
    (partJobs_posted _ keys rfl rfl rfl rfl) (partJobs_distinct _ keys) rfl
  · cases header <;> simp [newBlocks_succ, Slot.blocks, Slot.released, Slot.freed]
  · cases header <;> simp

theorem accounted_del (sound : Sound s) (keys : List Arg) : Accounted d s (s.del d keys) false := by
  refine accounted_enter sound 0 ?_ (by simp) (partJobs_posted _ keys rfl rfl rfl rfl) (partJobs_distinct _ keys) rfl
  simp [newBlocks_succ, Slot.blocks, Slot.released, Slot.freed]

theorem ownPart_sum (self addr n : Nat) :
    ((List.range n).map fun j => atPool j (if j = self then some addr else none)).sum =
      if self < n then {⟨self, addr⟩} else 0 := by
  induction n with
  | zero => simp
  | succ n ih =>
    rw [List.range_succ, List.map_append, List.sum_append, ih]
    obtain less | rfl | more := Nat.lt_trichotomy self n
    · simp [less, Nat.lt_succ_of_lt less, Nat.ne_of_gt less]
    · simp
    · simp [Nat.not_lt_of_lt more, Nat.ne_of_lt more, show ¬self < n + 1 from by omega]

theorem accounted_dbsize (sound : Sound s) : Accounted d s (s.dbsize d) false := by
  refine accounted_enter sound 0 ?_ (by simp) ?_ ?_ rfl
  · by_cases inside : d.self < d.numShards
    · have order := Multiset.pair_comm (⟨d.self, s.next + 1⟩ : Block) ⟨d.self, s.next + 2⟩
      simpa [newBlocks_succ, Slot.blocks, Slot.released, Slot.freed, Function.comp_def, ownPart_sum, inside] using order
    · simp [newBlocks_succ, Slot.blocks, Slot.released, Slot.freed, Function.comp_def, ownPart_sum, inside]
  · intro j member
    obtain ⟨i, there, rfl⟩ := List.mem_map.1 member
    obtain ⟨inside, other⟩ := List.mem_filter.1 there
    refine ⟨rfl, rfl, { owner := i, reply := none }, ?_, rfl, fun _ => rfl⟩
    simp only [decide_eq_true_eq] at other
    simp [List.mem_range.1 inside, other]
  · simpa [Function.comp_def] using List.nodup_range.filter _

theorem accounted_mset (sound : Sound s) (env : Env) (shards : List Nat) :
    Accounted d s (s.mset d env shards) false := by
  unfold State.mset
  split
  · split
    · refine ⟨(sound.alloc _ _).enter (by simp) (by simp) (by simp) ?_, 0, moves_enter [] ?_, by simp⟩
      · rintro stat started
        cases started
        simp [newStat]
      · simp [newBlocks_stat, Slot.blocks, Slot.released, Slot.freed, Mset.blocks, newStat]
    · exact accounted_answerHere sound env.text
  · split
    · refine ⟨(sound.alloc _ _).enter (by simp) (by simp) (by simp) (by simp), 0, moves_enter [] ?_, by simp⟩
      simp [newBlocks_succ, Slot.blocks, Slot.released, Slot.freed, Mset.blocks]
    · exact accounted_answerHere sound env.text

theorem accounted_client (sound : Sound s) (env : Env) (args : List Arg) :
    Accounted d s (s.client d env args) (leaks d (.client env args)) := by
  simp only [State.client, leaks]
  generalize d.respDispatchProxy (fun _ => env.locked) args = route
  cases route with
  | nothing => exact accounted_answerHere sound false
  | here => exact accounted_answerHere sound env.text
  | execLocalKey op =>
    dsimp only
    split
    · simpa using accounted_forward sound d.self op args true
    · exact accounted_answerHere sound env.text
  | send owner op =>
    dsimp only
    split
    next arrays => simpa [arrays] using accounted_forward sound owner op args (!fastName args)
    next arrays => simpa [arrays] using accounted_answerHere sound env.text
  | mget => exact accounted_mget sound args.tail env.header
  | del => exact accounted_del sound args.tail
  | dbsize => exact accounted_dbsize sound
  | mset =>
    dsimp only
    split
    · exact accounted_answerHere sound env.text
    · exact accounted_mset sound env _

end Client

section Exchange

variable {d : Dispatcher} {s s' : State}

theorem Accounted.nothing_lost (sound : Sound s') (moves : Moves d s s' 0) :
    Accounted d s s' false := ⟨sound, 0, moves, by simp⟩

section Defer

variable (e : LockEntry) (addr : Nat) (job : Job)

theorem addRegular_tickets : (e.addRegular addr job).tickets = e.tickets + {job.ticket} := by
  unfold LockEntry.addRegular
  cases opened : e.opened <;> simp [LockEntry.tickets, opened, add_assoc]

theorem addRegular_cmds : (e.addRegular addr job).cmds = e.cmds := by
  unfold LockEntry.addRegular
  cases e.opened <;> rfl

theorem addRegular_blocks (s : State) :
    (e.addRegular s.next job).blocks = e.blocks + s.newBlocks e.shard e.addedBlocks := by
  unfold LockEntry.addRegular
  cases opened : e.opened with
  | none =>
    simp only [LockEntry.blocks, LockEntry.addedBlocks, opened, Option.elim_some, Option.elim_none, Option.isSome_none,
      Bool.false_eq_true, ↓reduceIte, List.map_cons, List.map_nil, List.cons_append, List.append_nil, allAt_cons,
      allAt_append, allAt_nil, newBlocks_succ, newBlocks_zero, add_zero, zero_add]
    abel
  | some group =>
    simp only [LockEntry.blocks, LockEntry.addedBlocks, opened, Option.elim_some, Option.isSome_some, ↓reduceIte,
      List.map_append, List.map_cons, List.map_nil, List.cons_append, allAt_cons, allAt_append, allAt_nil,
      newBlocks_succ, newBlocks_zero, add_zero, zero_add]
    abel

end Defer

theorem tickets_erase {job : Job} (there : job ∈ s.jobs) :
    s.jobs.map Job.ticket = job.ticket ::ₘ (s.jobs.erase job).map Job.ticket := by
  rw [← Multiset.map_cons, Multiset.cons_erase there]

theorem accounted_reply (sound : Sound s) {job : Job} {replyType : ReplyType} {room : Bool} (there : job ∈ s.jobs)
    (moved : ({ s with jobs := s.jobs.erase job } : State).reply job replyType room = some s') :
    Accounted d s s' false := by
  have kept := tickets_erase there
  unfold State.reply at moved
  split at moved
  · cases moved
    refine .nothing_lost (sound.keep rfl rfl (le_of_eq ?_) rfl le_rfl) ⟨s.newBlocks job.ticket.owner 1, 0, ?_, ?_⟩
    · simp only [State.tickets, State.alloc, Multiset.map_cons, kept]
      simp [Multiset.cons_add, Multiset.add_cons]
    · exact (Multiset.sub_zero _).symm
    · simp only [State.held, State.alloc, Multiset.map_cons, Multiset.sum_cons, Answer.blocks, newBlocks_succ,
        newBlocks_zero, atPool_some, zero_add, add_zero]
      abel
  · split at moved
    · cases moved
      refine .nothing_lost (sound.keep rfl rfl (le_of_eq ?_) rfl le_rfl) ⟨0, 0, ?_, ?_⟩
      · simp only [State.tickets, Multiset.map_cons, kept]
        simp [Multiset.cons_add, Multiset.add_cons]
      · simp
      · simp [State.held, Answer.blocks]
    · cases moved

theorem accounted_exec (sound : Sound s) {job : Job} {outcome : Outcome} (moved : s.exec job outcome = some s') :
    Accounted d s s' false := by
  unfold State.exec at moved
  split at moved
  next there =>
    cases outcome with
    | done replyType room => exact accounted_reply sound there moved
    | deferred e =>
      dsimp only at moved
      split at moved
      next found =>
        cases moved
        have kept := tickets_erase there
        refine .nothing_lost (sound.keep rfl rfl (le_of_eq ?_) ?_ le_rfl) ⟨s.newBlocks e.shard e.addedBlocks, 0, ?_, ?_⟩
        · simp only [State.tickets, State.alloc, Multiset.map_cons, Multiset.sum_cons, addRegular_tickets]
          rw [kept, Ledger.sum_erase LockEntry.tickets found.1, ← Multiset.singleton_add]
          abel
        · simp only [State.cmds, Multiset.map_cons, Multiset.sum_cons, addRegular_cmds,
            Ledger.sum_erase LockEntry.cmds found.1]
        · exact (Multiset.sub_zero _).symm
        · simp only [State.held, State.alloc, Multiset.map_cons, Multiset.sum_cons, addRegular_blocks,
            Ledger.sum_erase LockEntry.blocks found.1]
          abel
      · cases moved
  · cases moved

theorem giveBack_held (blocks : Multiset Block) :
    (s.giveBack d blocks).held d + blocks.filter (fun b => b.pool = d.self) = s.held d + blocks := by
  have parts := Multiset.filter_add_not (fun b : Block => b.pool = d.self) blocks
  calc (s.giveBack d blocks).held d + blocks.filter (fun b => b.pool = d.self)
      = s.held d + (blocks.filter (fun b => b.pool = d.self) + blocks.filter fun b => ¬b.pool = d.self) := by
        simp only [State.held, State.giveBack, State.free]
        abel
    _ = s.held d + blocks := by rw [parts]

section Deliver

variable {slot : Slot} {a : Answer}

theorem answer_mset : (slot.answer a).mset = slot.mset := by
  unfold Slot.answer
  split
  · split <;> rfl
  · rfl

theorem answer_blocks (awaits : slot.Awaits a.ticket) (self : Nat) :
    (slot.answer a).blocks self = slot.blocks self + a.blocks := by
  obtain ⟨plain, place⟩ := awaits
  unfold Slot.answer
  cases multi : slot.multi with
  | none =>
    rw [multi] at place
    have own : (if a.replyType = .buf then atPool a.ticket.owner a.replyBuf else 0) = a.blocks := by
      split
      · rfl
      next other =>
        have none : a.replyBuf = none := Option.not_isSome_iff_eq_none.1 fun some => other (a.typed some)
        simp [Answer.blocks, none]
    simp only [Slot.blocks, Slot.released, Slot.freed, multi, own, if_neg place.2, plain]
    simp only [Option.elim_none, add_zero, zero_add]
    abel
  | some m =>
    rw [multi] at place
    obtain ⟨part, there, empty, owner⟩ := place
    obtain ⟨inside, -⟩ := List.getElem?_eq_some_iff.1 there
    have same : (if m.owners.isSome then a.ticket.owner else part.owner) = a.ticket.owner := by
      cases owned : m.owners with
      | none => simp [owner owned]
      | some => simp
    have stored : (m.store a).parts = m.parts.set a.ticket.sub { owner := a.ticket.owner, reply := a.replyBuf } := by
      simp only [Multi.store, List.modify_eq_set_getElem?, there, Option.map_eq_map, Option.map_some, Option.getD_some, same]
    have sum := Ledger.sum_set (fun part : Part => atPool part.owner part.reply) there
      { owner := a.ticket.owner, reply := a.replyBuf }
    rw [← stored] at sum
    simp only [empty, atPool_none, add_zero] at sum
    simp only [if_pos inside, Slot.blocks, Slot.released, Slot.freed, multi, plain, Option.elim_some, sum, Answer.blocks]
    simp only [Multi.store]
    abel

theorem Awaits.other (awaits : slot.Awaits a.ticket) {t : Ticket} (still : slot.Awaits t) (apart : t.sub ≠ a.ticket.sub) :
    (slot.answer a).Awaits t := by
  obtain ⟨plain, place⟩ := awaits
  obtain ⟨-, place'⟩ := still
  unfold Slot.answer
  cases multi : slot.multi with
  | none =>
    rw [multi] at place place'
    exact absurd (place'.1.trans place.1.symm) apart
  | some m =>
    rw [multi] at place'
    obtain ⟨part, there, empty, owner⟩ := place'
    dsimp only
    split
    · refine ⟨plain, part, ?_, empty, owner⟩
      simp [Multi.store, apart.symm, there]
    · exact ⟨plain, by rw [multi]; exact ⟨part, there, empty, owner⟩⟩

theorem accounted_deliver (sound : Sound s) (moved : s.deliver d a = some s') : Accounted d s s' false := by
  unfold State.deliver at moved
  split at moved
  next there =>
    dsimp only at moved
    set rest : State := { s with answers := s.answers.erase a } with same
    have kept : s.tickets = a.ticket ::ₘ rest.tickets := by
      have taken : s.answers.map Answer.ticket = a.ticket ::ₘ rest.answers.map Answer.ticket := by
        rw [← Multiset.map_cons, Multiset.cons_erase there]
      simp only [State.tickets, taken, ← Multiset.singleton_add]
      abel
    have held : s.held d = rest.held d + a.blocks := by
      simp only [State.held, Ledger.sum_erase Answer.blocks there]
      abel
    have fewer : rest.tickets ≤ s.tickets := kept ▸ Multiset.le_cons_self _ _
    split at moved
    · cases moved
      refine .nothing_lost (sound.keep rfl rfl fewer rfl le_rfl) ⟨0, a.blocks.filter fun b => b.pool = d.self, ?_, ?_⟩
      · rw [add_zero]
        rfl
      · rw [add_zero, add_zero, held]
        exact (giveBack_held a.blocks).symm
    next slot found =>
      cases moved
      have mine : slot.Awaits a.ticket := (sound.awaited a.ticket (kept ▸ Multiset.mem_cons_self _ _)).2 slot found
      have plain : (slot.answer a).mset = none := answer_mset.trans mine.1
      have foreign : ∀ c ∈ s.cmds, c.seq ≠ a.ticket.seq := by
        refine sound.foreign fun slot' stat there' => ?_
        obtain rfl := Option.some.inj (there'.symm.trans found)
        simp [mine.1]
      refine .nothing_lost (sound.update (slotAt_setSlot found _) ?_ fewer ?_ (by simp [plain]) ?_ (fun _ _ => le_rfl)
        (by simp [plain]) rfl (by simp [plain])) ⟨0, 0, ?_, ?_⟩
      · simp [State.inSeq, State.setSlot, same]
      · intro t member here
        have still := (sound.awaited t (Multiset.mem_of_le fewer member)).2 slot (here ▸ found)
        refine Awaits.other mine still fun sub => ?_
        have distinct := sound.distinct
        rw [kept, Multiset.map_cons, Multiset.nodup_cons] at distinct
        exact distinct.1 (Multiset.mem_map.2 ⟨t, member, by rw [here, sub]⟩)
      · exact fun c member => ⟨(sound.running c member).1, .inr ⟨foreign c member, c, member, rfl⟩⟩
      · simp [State.setSlot, same]
      · have change : slot.blocks d.self + a.blocks = (slot.answer a).blocks d.self + 0 := by
          rw [answer_blocks mine, add_zero]
        rw [add_zero, add_zero, held]
        exact held_setSlot d found change
  · cases moved

end Deliver

theorem slot_blocks_plain {slot : Slot} (plain : slot.mset = none) (self : Nat) :
    slot.blocks self = slot.released + slot.freed self := by
  rw [Slot.blocks, plain, Option.elim_none, add_zero]

theorem Sound.flush (sound : Sound s) {slot : Slot} {rest : List Slot} (first : s.slots = slot :: rest)
    (plain : slot.mset = none) : Sound { s with slots := rest, outSeq := s.outSeq + 1 } := by
  have here : s.slotAt s.outSeq = some slot := by simp [State.slotAt, first]
  have later : ∀ q slot', ({ s with slots := rest, outSeq := s.outSeq + 1 } : State).slotAt q = some slot' →
      s.slotAt q = some slot' := by
    intro q slot' found
    rw [slotAt_tail first] at found
    split at found
    · cases found
    · exact found
  constructor
  · exact sound.distinct
  · intro t member
    obtain ⟨before, awaits⟩ := sound.awaited t member
    refine ⟨?_, fun slot' found => awaits slot' (later _ _ found)⟩
    simp only [State.inSeq, first, List.length_cons] at before ⊢
    omega
  · exact fun q slot' found => sound.unanswered q slot' (later _ _ found)
  · intro c member
    obtain ⟨pos, slot', stat, there, running⟩ := sound.running c member
    refine ⟨pos, slot', stat, ?_, running⟩
    have behind : c.seq ≠ s.outSeq := by
      refine sound.foreign (fun slot' stat there' => ?_) c member
      obtain rfl := Option.some.inj (there'.symm.trans here)
      simp [plain]
    rw [slotAt_tail first, if_neg behind, there]
  · exact fun q slot' stat found => sound.counted q slot' stat (later _ _ found)
  · intro m member
    obtain ⟨before, known⟩ := sound.told m member
    refine ⟨?_, fun slot' mset found => known slot' mset (later _ _ found)⟩
    simp only [State.inSeq, first, List.length_cons] at before ⊢
    omega

theorem accounted_flush (sound : Sound s) (moved : s.flush d = some s') : Accounted d s s' false := by
  unfold State.flush at moved
  split at moved
  · cases moved
  next slot rest first =>
    split at moved
    next done =>
      cases moved
      have plain : slot.mset = none := by
        have here : s.slotAt s.outSeq = some slot := by simp [State.slotAt, first]
        refine Option.not_isSome_iff_eq_none.1 fun mset => ?_
        have waiting := (sound.unanswered _ slot here mset).1
        rw [done] at waiting
        cases waiting
      set left : State := { s with slots := rest, outSeq := s.outSeq + 1 } with same
      have held : s.held d = left.held d + (slot.released + slot.freed d.self) := by
        simp only [State.held, first, List.map_cons, List.sum_cons, slot_blocks_plain plain, same]
        abel
      refine .nothing_lost ((sound.flush first plain).keep rfl rfl le_rfl rfl le_rfl)
        ⟨0, slot.released.filter (fun b => b.pool = d.self) + slot.freed d.self, ?_, ?_⟩
      · rw [add_zero, Multiset.sub_add_eq_sub_sub]
        rfl
      · rw [add_zero, add_zero, held, ← add_assoc, ← add_assoc, ← giveBack_held slot.released]
        rfl
    · cases moved

theorem accounted_release (sound : Sound s) {b : Block} (moved : s.release b = some s') : Accounted d s s' false := by
  unfold State.release at moved
  split at moved
  next there =>
    cases moved
    refine .nothing_lost (sound.keep rfl rfl le_rfl rfl le_rfl) ⟨0, {b}, by rw [add_zero]; rfl, ?_⟩
    have taken : s.releases = {b} + s.releases.erase b := by rw [Multiset.singleton_add, Multiset.cons_erase there]
    simp only [State.held, State.free]
    nth_rewrite 1 [taken]
    abel
  · cases moved

end Exchange

end FreakV.Serving
