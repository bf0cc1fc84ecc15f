import FreakV.Coordinator.Pending
import FreakV.Lib.Chain

namespace FreakV.Coordinator

variable {s s' : Coordinator} {c : ConnId} {queue : List ConnId}

section Frame

theorem conns_updConn (s : Coordinator) (c d : ConnId) (f : Conn → Conn) :
    (s.updConn c f).conns d = if d = c then f (s.conns c) else s.conns d := by
  simp [updConn, setConn, Function.update_apply]

theorem field_updConn {T : Type} (field : Conn → T) {f : Conn → Conn} (kept : ∀ conn, field (f conn) = field conn)
    (s : Coordinator) (c d : ConnId) : field ((s.updConn c f).conns d) = field (s.conns d) := by
  rw [conns_updConn]
  split
  next same => rw [kept, same]
  · rfl

def Conn.bare (conn : Conn) : Conn := { conn with cap := 0, slots := fun _ => {}, pendingPipelineIdx := 0, pendingArgs := [] }

def Conn.unlisted (conn : Conn) : Conn := { conn with pendingNext := none, pendingQueued := false }

def bare (s : Coordinator) : Coordinator :=
  { s with
    msetInflight := 0, enqueued := 0, resumed := 0, maxLen := 0, stats := [], nextStat := 0
    conns := fun d => (s.conns d).bare }

def unlisted (s : Coordinator) : Coordinator :=
  { s with head := none, tail := none, len := 0, enqueued := 0, maxLen := 0, conns := fun d => (s.conns d).unlisted }

theorem bare_updConn {f : Conn → Conn} (kept : ∀ conn, (f conn).bare = conn.bare) : (s.updConn c f).bare = s.bare :=
  congrArg (fun conns => { s.bare with conns := conns }) (funext (field_updConn _ kept s c))

theorem unlisted_updConn {f : Conn → Conn} (kept : ∀ conn, (f conn).unlisted = conn.unlisted) :
    (s.updConn c f).unlisted = s.unlisted :=
  congrArg (fun conns => { s.unlisted with conns := conns }) (funext (field_updConn _ kept s c))

theorem bare_setSlot (s : Coordinator) (c : ConnId) (seq : Nat) (f : Slot → Slot) :
    (s.updConn c fun conn => conn.setSlot seq f).bare = s.bare :=
  bare_updConn fun _ => rfl

theorem unlisted_setNext (s : Coordinator) (c : ConnId) (next : Option ConnId) : (s.setNext c next).unlisted = s.unlisted :=
  unlisted_updConn fun _ => rfl

theorem unlisted_setQueued (s : Coordinator) (c : ConnId) (queued : Bool) : (s.setQueued c queued).unlisted = s.unlisted :=
  unlisted_updConn fun _ => rfl

theorem unlisted_link (s : Coordinator) (prev next : Option ConnId) : (s.link prev next).unlisted = s.unlisted := by
  cases prev with
  | none => rfl
  | some p => exact s.unlisted_setNext p next

theorem unlisted_append (s : Coordinator) (c : ConnId) : (s.append c).unlisted = s.unlisted :=
  (unlisted_setQueued _ c true).trans ((unlisted_link _ _ _).trans (s.unlisted_setNext c none))

theorem unlisted_pop (s : Coordinator) (c : ConnId) : (s.pop c).unlisted = s.unlisted :=
  (unlisted_setQueued _ c false).trans (s.unlisted_setNext c none)

def detached (s : Coordinator) (c : ConnId) (prev : Option ConnId) : Coordinator :=
  ((s.unlink c (.behind prev)).setNext c none).setQueued c false

theorem unlisted_detached (s : Coordinator) (c : ConnId) (prev : Option ConnId) : (s.detached c prev).unlisted = s.unlisted :=
  (unlisted_setQueued _ c false).trans ((unlisted_setNext _ c none).trans (s.unlisted_link _ _))

end Frame

section Counter

structure Counted (s : Coordinator) : Prop where
  inflight : s.msetInflight = s.stats.length
  nodup : s.stats.Nodup
  fresh : ∀ stat ∈ s.stats, stat < s.nextStat
  limit : s.msetInflight ≤ s.msetMaxConcurrent

structure Relisted (s s' : Coordinator) : Prop where
  taken : s'.taken = s.taken
  cancelled : s'.cancelled = s.cancelled
  tickets : s'.tickets = s.tickets
  max : s'.msetMaxConcurrent = s.msetMaxConcurrent
  reason : ∀ d, (s'.conns d).pendingReason = (s.conns d).pendingReason
  ticket : ∀ d, (s'.conns d).ticket = (s.conns d).ticket
  state : ∀ d, (s'.conns d).state = (s.conns d).state
  counted : Counted s → Counted s'

theorem Relisted.of_unlisted (same : s'.unlisted = s.unlisted) : Relisted s s' := by
  have conn (d : ConnId) := congrFun (congrArg Coordinator.conns same) d
  refine ⟨(congrArg Coordinator.taken same :), (congrArg Coordinator.cancelled same :), (congrArg Coordinator.tickets same :),
    (congrArg msetMaxConcurrent same :), fun d => (congrArg Conn.pendingReason (conn d) :), fun d => (congrArg Conn.ticket (conn d) :),
    fun d => (congrArg Conn.state (conn d) :), fun counted => ?_⟩
  have plain : Counted s.unlisted := ⟨counted.inflight, counted.nodup, counted.fresh, counted.limit⟩
  rw [← same] at plain
  exact ⟨plain.inflight, plain.nodup, plain.fresh, plain.limit⟩

theorem Counted.updConn (counted : Counted s) (f : Conn → Conn) : Counted (s.updConn c f) :=
  ⟨counted.inflight, counted.nodup, counted.fresh, counted.limit⟩

theorem Counted.allocStat (counted : Counted s) (room : s.msetInflight < s.msetMaxConcurrent) : Counted s.allocStat := by
  obtain ⟨count, nodup, fresh, limit⟩ := counted
  have new : s.nextStat ∉ s.stats := fun there => Nat.lt_irrefl _ (fresh _ there)
  constructor
  · simp [Coordinator.allocStat, count]
  · refine List.nodup_append.2 ⟨nodup, List.nodup_singleton _, fun a there b same eq => new ?_⟩
    rwa [← List.mem_singleton.1 same, ← eq]
  · intro stat there
    obtain there | same := List.mem_append.1 there
    · exact Nat.lt_succ_of_lt (fresh stat there)
    · rw [List.mem_singleton.1 same]
      exact Nat.lt_succ_self _
  · exact room

theorem statFreeReal_keeps {stat : StatId} (freed : s.statFreeReal stat = some s') :
    s'.bare = s.bare ∧ (Counted s → Counted s') := by
  unfold statFreeReal at freed
  split at freed
  next live =>
    cases freed
    refine ⟨rfl, fun ⟨count, nodup, fresh, limit⟩ => ⟨?_, nodup.erase stat, fun other there => ?_, ?_⟩⟩
    · dsimp only
      rw [List.length_erase_of_mem live, count]
    · exact fresh other (List.mem_of_mem_erase there)
    · dsimp only
      omega
  · cases freed

theorem complete_keeps {completed : List StatId} (done : complete completed s = some s') :
    s'.bare = s.bare ∧ (Counted s → Counted s') := by
  induction completed generalizing s with
  | nil =>
    cases done
    exact ⟨rfl, id⟩
  | cons stat rest ih =>
    obtain ⟨t, freed, done⟩ := Option.bind_eq_some_iff.1 done
    obtain ⟨same, counts⟩ := statFreeReal_keeps freed
    obtain ⟨same', counts'⟩ := ih done
    exact ⟨same'.trans same, fun counted => counts' (counts counted)⟩

theorem dispatchArgv_keeps {seq : Nat} {env : DispatchEnv} {ok : Bool}
    (done : s.coordinatorDispatchArgv c seq env = some (s', ok)) (room : s.msetInflight < s.msetMaxConcurrent) :
    s'.bare = s.bare ∧ (Counted s → Counted s') ∧ (env.statAlloc = true ∧ env.batchAlloc = true → ok = true) := by
  unfold coordinatorDispatchArgv at done
  dsimp only at done
  split at done
  next failed =>
    cases done
    exact ⟨rfl, id, fun alloc => absurd alloc.1 failed⟩
  have slotted : (s.allocStat.updConn c fun conn => conn.setSlot seq fun slot =>
      { slot with stat := some s.nextStat, mset := true }).bare = s.bare := bare_setSlot s.allocStat c seq _
  split at done
  next failed =>
    obtain ⟨t, freed, eq⟩ := Option.map_eq_some_iff.1 done
    cases eq
    obtain ⟨same, counts⟩ := statFreeReal_keeps freed
    exact ⟨same.trans ((bare_setSlot _ c seq _).trans slotted),
      fun counted => counts (((counted.allocStat room).updConn _).updConn _), fun alloc => absurd alloc.2 failed⟩
  · obtain ⟨t, completed, eq⟩ := Option.map_eq_some_iff.1 done
    cases eq
    obtain ⟨same, counts⟩ := complete_keeps completed
    exact ⟨same.trans slotted, fun counted => counts ((counted.allocStat room).updConn _), fun _ => rfl⟩

end Counter

section List

structure Chained (s : Coordinator) (queue : List ConnId) : Prop where
  path : Linked.Path (fun d => (s.conns d).pendingNext) s.head queue none
  tail : s.tail = queue.getLast?
  len : s.len = queue.length
  nodup : queue.Nodup
  queued : ∀ d, (s.conns d).pendingQueued = true ↔ d ∈ queue

structure Listed (s : Coordinator) (queue : List ConnId) : Prop extends Chained s queue where
  pending : ∀ d, (s.conns d).pendingReason = true ↔ d ∈ queue
  alive : ∀ d ∈ queue, (s.conns d).state ≠ .dead

structure Ordered (s : Coordinator) (queue : List ConnId) : Prop where
  fifo : (s.taken.map Prod.fst ++ queue.map fun d => (s.conns d).ticket).Pairwise (· < ·)
  once : (s.taken.map Prod.fst ++ (queue.map fun d => (s.conns d).ticket) ++ s.cancelled).Perm (List.range s.tickets)

theorem Chained.congr (chained : Chained s queue) (head : s'.head = s.head) (tail : s'.tail = s.tail) (len : s'.len = s.len)
    (next : ∀ d ∈ queue, (s'.conns d).pendingNext = (s.conns d).pendingNext)
    (queued : ∀ d, (s'.conns d).pendingQueued = (s.conns d).pendingQueued) : Chained s' queue := by
  refine ⟨?_, tail.trans chained.tail, len.trans chained.len, chained.nodup, fun d => ?_⟩
  · rw [head]
    exact chained.path.congr next
  · rw [queued]
    exact chained.queued d

theorem Listed.same (listed : Listed s queue) (same : s'.bare = s.bare) : Listed s' queue := by
  have plain : Listed s.bare queue :=
    ⟨⟨listed.path, listed.tail, listed.len, listed.nodup, listed.queued⟩, listed.pending, listed.alive⟩
  rw [← same] at plain
  exact ⟨⟨plain.path, plain.tail, plain.len, plain.nodup, plain.queued⟩, plain.pending, plain.alive⟩

theorem Ordered.congr (ordered : Ordered s queue) (tickets : s'.tickets = s.tickets) (taken : s'.taken = s.taken)
    (cancelled : s'.cancelled = s.cancelled) (ticket : ∀ d ∈ queue, (s'.conns d).ticket = (s.conns d).ticket) :
    Ordered s' queue := by
  have same : (queue.map fun d => (s'.conns d).ticket) = queue.map fun d => (s.conns d).ticket := List.map_congr_left ticket
  constructor
  · rw [taken, same]
    exact ordered.fifo
  · rw [taken, same, cancelled, tickets]
    exact ordered.once

theorem Ordered.same (ordered : Ordered s queue) (same : s'.bare = s.bare) : Ordered s' queue := by
  have plain : Ordered s.bare queue := ⟨ordered.fifo, ordered.once⟩
  rw [← same] at plain
  exact ⟨plain.fifo, plain.once⟩

end List

section Links

theorem next_setNext (s : Coordinator) (c d : ConnId) (next : Option ConnId) :
    ((s.setNext c next).conns d).pendingNext = if d = c then next else (s.conns d).pendingNext := by
  rw [setNext, conns_updConn]
  split <;> rfl

theorem next_link (s : Coordinator) (prev next : Option ConnId) (d : ConnId) :
    ((s.link prev next).conns d).pendingNext = if prev = some d then next else (s.conns d).pendingNext := by
  cases prev with
  | none => rfl
  | some p =>
    rw [link, next_setNext]
    simp [eq_comm]

theorem head_link (s : Coordinator) (prev next : Option ConnId) :
    (s.link prev next).head = if prev = none then next else s.head := by
  cases prev <;> rfl

theorem queued_setNext (s : Coordinator) (c d : ConnId) (next : Option ConnId) :
    ((s.setNext c next).conns d).pendingQueued = (s.conns d).pendingQueued :=
  field_updConn Conn.pendingQueued (by intro; rfl) s c d

theorem queued_link (s : Coordinator) (prev next : Option ConnId) (d : ConnId) :
    ((s.link prev next).conns d).pendingQueued = (s.conns d).pendingQueued := by
  cases prev with
  | none => rfl
  | some p => exact s.queued_setNext p d next

theorem next_setQueued (s : Coordinator) (c d : ConnId) (queued : Bool) :
    ((s.setQueued c queued).conns d).pendingNext = (s.conns d).pendingNext :=
  field_updConn Conn.pendingNext (by intro; rfl) s c d

theorem queued_setQueued (s : Coordinator) (c d : ConnId) (queued : Bool) :
    ((s.setQueued c queued).conns d).pendingQueued = if d = c then queued else (s.conns d).pendingQueued := by
  rw [setQueued, conns_updConn]
  split <;> rfl

end Links

section Operations

theorem Chained.append (chained : Chained s queue) (away : c ∉ queue) : Chained (s.append c) (queue ++ [c]) := by
  have next (d : ConnId) : ((s.append c).conns d).pendingNext =
      if queue.getLast? = some d then some c else if d = c then none else (s.conns d).pendingNext := by
    rw [Coordinator.append, next_setQueued, next_link, next_setNext, chained.tail]
  have path : Linked.Path (fun d => (s.conns d).pendingNext) s.head (queue ++ []) none := by simpa using chained.path
  refine ⟨path.insert (by simpa using chained.nodup) ?_ ?_ ?_ ?_, by rw [List.getLast?_concat]; rfl, ?_, ?_, fun d => ?_⟩
  · refine (head_link _ _ _).trans ?_
    rw [chained.tail]
    exact if_congr List.getLast?_eq_none_iff rfl rfl
  · intro last isLast
    rw [next, if_pos isLast]
  · rw [next, if_neg (fun last => away (List.mem_of_getLast? last)), if_pos rfl, List.head?_nil]
  · intro a there other
    rw [next, if_neg other, if_neg fun same => away (by simpa [same] using there)]
  · rw [List.length_append, List.length_singleton, ← chained.len]
    rfl
  · refine List.nodup_append.2 ⟨chained.nodup, List.nodup_singleton _, fun a there b same eq => away ?_⟩
    rwa [← List.mem_singleton.1 same, ← eq]
  · rw [Coordinator.append, queued_setQueued, queued_link, queued_setNext]
    by_cases same : d = c <;> simp [same, chained.queued]

theorem Chained.pop {rest : List ConnId} (chained : Chained s (c :: rest)) : Chained (s.pop c) rest := by
  obtain ⟨⟨head, path⟩, tail, len, nodup, queued⟩ := chained
  obtain ⟨away, nodup⟩ := List.nodup_cons.1 nodup
  have first : (s.conns c).pendingNext = rest.head? := path.start_eq.trans Option.or_none
  refine ⟨?_, ?_, ?_, nodup, fun d => ?_⟩
  · refine path.congr fun d there => ?_
    have other : d ≠ c := fun same => away (same ▸ there)
    exact (next_setQueued _ c d false).trans ((next_setNext s c d none).trans (if_neg other))
  · change (if (s.conns c).pendingNext = none then none else s.tail) = _
    rw [first, tail]
    cases rest with
    | nil => rfl
    | cons a more => simp
  · change s.len - 1 = _
    rw [len]
    rfl
  · refine (iff_of_eq (congrArg (· = true) (queued_setQueued _ c d false))).trans ?_
    rw [queued_setNext]
    by_cases same : d = c <;> simp [same, away, queued]

theorem search_behind {next : ConnId → Option ConnId} {front back : List ConnId} {start prev : Option ConnId} {fuel : Nat}
    (path : Linked.Path next start (front ++ c :: back) none) (away : c ∉ front) (enough : front.length < fuel) :
    search next c fuel prev start = some (.behind (front.getLast?.or prev)) := by
  induction front generalizing prev start fuel with
  | nil =>
    obtain ⟨fuel, rfl⟩ : ∃ f, fuel = f + 1 := ⟨fuel - 1, by simp at enough; omega⟩
    rw [path.1, search, if_pos rfl]
    rfl
  | cons a rest ih =>
    obtain ⟨fuel, rfl⟩ : ∃ f, fuel = f + 1 := ⟨fuel - 1, by omega⟩
    have other : a ≠ c := fun same => away (by simp [same])
    rw [path.1, search, if_neg other, ih path.2 (fun there => away (List.mem_cons_of_mem a there)) (by simpa using enough)]
    cases last : rest.getLast? with
    | none =>
      rw [List.getLast?_eq_none_iff] at last
      simp [last]
    | some z => simp [List.getLast?_cons, last]

theorem Chained.detached {front back : List ConnId} (chained : Chained s (front ++ c :: back)) :
    Chained (s.detached c front.getLast?) (front ++ back) := by
  obtain ⟨path, tail, len, nodup, queued⟩ := chained
  obtain ⟨away, nodup'⟩ := List.nodup_cons.1 (List.nodup_middle.1 nodup)
  have next (d : ConnId) : ((s.detached c front.getLast?).conns d).pendingNext =
      if d = c then none else if front.getLast? = some d then (s.conns c).pendingNext else (s.conns d).pendingNext := by
    rw [Coordinator.detached, next_setQueued, next_setNext]
    exact if_congr Iff.rfl rfl (next_link s _ _ d)
  refine ⟨path.remove nodup' ?_ ?_ ?_, ?_, ?_, nodup', fun d => ?_⟩
  · exact (head_link s _ _).trans (if_congr List.getLast?_eq_none_iff rfl rfl)
  · intro last isLast
    have other : last ≠ c := fun same => away (same ▸ List.mem_append_left _ (List.mem_of_getLast? isLast))
    rw [next, if_neg other, if_pos isLast]
  · intro d there notLast
    have other : d ≠ c := fun same => away (same ▸ there)
    rw [next, if_neg other, if_neg notLast]
  · change (if s.tail = some c then front.getLast? else s.tail) = _
    rw [tail]
    cases back with
    | nil => simp
    | cons a more =>
      have other : (front ++ c :: a :: more).getLast? = (front ++ a :: more).getLast? := by
        simp [List.getLast?_append, List.getLast?_cons_cons]
      have last : (front ++ a :: more).getLast? ≠ some c := fun same => away (List.mem_of_getLast? same)
      rw [other, if_neg last]
  · change s.len - 1 = _
    rw [len]
    simp
  · have kept : ((s.unlink c (.behind front.getLast?)).conns d).pendingQueued = (s.conns d).pendingQueued := queued_link s _ _ d
    rw [Coordinator.detached, queued_setQueued, queued_setNext, kept]
    by_cases same : d = c
    · subst same
      simpa using away
    · simp [same, queued]

def idle (s : Coordinator) (c : ConnId) (cancelled : List Nat) : Coordinator :=
  { s.updConn c fun conn => { conn with pendingReason := false } with cancelled := cancelled }

theorem bare_pendingStateFree (s : Coordinator) (c : ConnId) : (s.pendingStateFree c).bare = (s.idle c s.cancelled).bare := by
  refine congrArg (fun conns => { s.bare with conns := conns }) (funext fun d => ?_)
  by_cases same : d = c <;> simp [pendingStateFree, idle, conns_updConn, same, Conn.bare]

theorem bare_dropPending (s : Coordinator) (c : ConnId) : (s.dropPending c).bare =
    (s.idle c (if (s.conns c).pendingReason then s.cancelled ++ [(s.conns c).ticket] else s.cancelled)).bare := by
  unfold dropPending
  dsimp only
  split
  · refine congrArg (fun conns => { s.bare with conns := conns, cancelled := s.cancelled ++ [(s.conns c).ticket] })
      (funext fun d => ?_)
    by_cases same : d = c <;> simp [pendingStateFree, idle, conns_updConn, same, Conn.bare, Conn.setSlot]
  · exact bare_pendingStateFree s c

theorem field_idle {T : Type} (field : Conn → T) (kept : ∀ conn, field { conn with pendingReason := false } = field conn)
    (s : Coordinator) (c : ConnId) (cancelled : List Nat) (d : ConnId) :
    field ((s.idle c cancelled).conns d) = field (s.conns d) :=
  field_updConn field kept s c d

theorem Chained.idle (chained : Chained s queue) (pending : ∀ d, d ≠ c → ((s.conns d).pendingReason = true ↔ d ∈ queue))
    (away : c ∉ queue) (alive : ∀ d ∈ queue, (s.conns d).state ≠ .dead) (cancelled : List Nat) :
    Listed (s.idle c cancelled) queue := by
  refine ⟨chained.congr rfl rfl rfl (fun d _ => field_idle Conn.pendingNext (fun _ => rfl) s c cancelled d)
    (field_idle Conn.pendingQueued (fun _ => rfl) s c cancelled), fun d => ?_, fun d there => ?_⟩
  · by_cases same : d = c
    · simp [Coordinator.idle, conns_updConn, same, away]
    · simpa [Coordinator.idle, conns_updConn, same] using pending d same
  · rw [field_idle Conn.state fun _ => rfl]
    exact alive d there

theorem Listed.search (listed : Listed s queue) (there : c ∈ queue) : ∃ front back, queue = front ++ c :: back ∧
    Coordinator.search (fun d => (s.conns d).pendingNext) c s.len none s.head = some (.behind front.getLast?) := by
  obtain ⟨front, back, rfl⟩ := List.append_of_mem there
  have nodup := (List.nodup_cons.1 (List.nodup_middle.1 listed.nodup)).1
  refine ⟨front, back, rfl, ?_⟩
  rw [search_behind listed.path (fun inside => nodup (List.mem_append_left _ inside)), Option.or_none]
  rw [listed.len, List.length_append, List.length_cons]
  omega

end Operations

section Cancel

theorem Listed.cancel_there {front back : List ConnId} (listed : Listed s (front ++ c :: back))
    (ordered : Ordered s (front ++ c :: back)) :
    Listed ((s.detached c front.getLast?).dropPending c) (front ++ back) ∧
    Ordered ((s.detached c front.getLast?).dropPending c) (front ++ back) := by
  have away := (List.nodup_cons.1 (List.nodup_middle.1 listed.nodup)).1
  have chained := listed.toChained.detached
  obtain ⟨taken, cancelled, numbers, -, reason, ticket, state, -⟩ := Relisted.of_unlisted (s.unlisted_detached c front.getLast?)
  have dropped := (s.detached c front.getLast?).bare_dropPending c
  rw [reason, (listed.pending c).2 (by simp), if_pos rfl, cancelled, ticket] at dropped
  generalize s.detached c front.getLast? = t at *
  constructor
  · refine (chained.idle (fun d other => ?_) away (fun d there => ?_) _).same dropped
    · rw [reason, listed.pending]
      simp [other]
    · rw [state]
      exact listed.alive d (by simp only [List.mem_append, List.mem_cons] at there ⊢; tauto)
  · refine Ordered.same ?_ dropped
    have tickets : ((front ++ back).map fun d => ((t.idle c (s.cancelled ++ [(s.conns c).ticket])).conns d).ticket) =
        (front ++ back).map fun d => (s.conns d).ticket :=
      List.map_congr_left fun d _ => (field_idle Conn.ticket (fun _ => rfl) _ c _ d).trans (ticket d)
    obtain ⟨fifo, once⟩ := ordered
    rw [← taken] at fifo once
    rw [← numbers] at once
    constructor
    · rw [tickets]
      refine fifo.sublist (List.Sublist.append_left (List.Sublist.map _ ?_) _)
      exact List.Sublist.append_left (List.sublist_cons_self c back) front
    · rw [tickets]
      refine List.Perm.trans ?_ once
      rw [List.perm_iff_count]
      intro t
      simp only [List.map_append, List.map_cons, List.count_append, List.count_cons]
      simp only [Coordinator.idle, updConn, setConn, List.count_append, List.count_cons, List.count_nil]
      omega

theorem Listed.cancel_away (listed : Listed s queue) (ordered : Ordered s queue) (away : c ∉ queue) :
    Listed (s.dropPending c) queue ∧ Ordered (s.dropPending c) queue := by
  have dropped := s.bare_dropPending c
  have idle : (s.conns c).pendingReason = false := by
    rw [← Bool.not_eq_true, listed.pending]
    exact away
  rw [idle] at dropped
  have kept : Ordered (s.idle c s.cancelled) queue :=
    ordered.congr rfl rfl rfl fun d _ => field_idle Conn.ticket (fun _ => rfl) s c s.cancelled d
  exact ⟨(listed.toChained.idle (fun d _ => listed.pending d) away listed.alive _).same dropped, kept.same dropped⟩

theorem Listed.cancel (listed : Listed s queue) (ordered : Ordered s queue) (c : ConnId) : ∃ (t : Coordinator) (queue' : List ConnId),
    s.pendingConnCancel c = some (t.dropPending c) ∧ t.unlisted = s.unlisted ∧ c ∉ queue' ∧
      Listed (t.dropPending c) queue' ∧ Ordered (t.dropPending c) queue' := by
  unfold pendingConnCancel
  by_cases there : c ∈ queue
  case pos =>
    obtain ⟨front, back, rfl, found⟩ := listed.search there
    have away := (List.nodup_cons.1 (List.nodup_middle.1 listed.nodup)).1
    rw [if_pos ((listed.queued c).2 there), found, Option.map_some]
    exact ⟨_, front ++ back, rfl, s.unlisted_detached c _, away, listed.cancel_there ordered⟩
  case neg =>
    rw [if_neg fun queued => there ((listed.queued c).1 queued)]
    exact ⟨s, queue, rfl, rfl, there, listed.cancel_away ordered there⟩

theorem Counted.dropPending (counted : Counted s) (c : ConnId) : Counted (s.dropPending c) := by
  unfold Coordinator.dropPending
  dsimp only
  split <;> exact ⟨counted.inflight, counted.nodup, counted.fresh, counted.limit⟩

end Cancel

section Enqueue

theorem markPending_fields (s : Coordinator) (c d : ConnId) (args : List Bytes) (seq : Nat) :
    ((s.markPending c args seq).conns d).pendingNext = (s.conns d).pendingNext ∧
    ((s.markPending c args seq).conns d).pendingQueued = (s.conns d).pendingQueued ∧
    ((s.markPending c args seq).conns d).state = (s.conns d).state ∧
    ((s.markPending c args seq).conns d).pendingReason = (if d = c then true else (s.conns d).pendingReason) ∧
    ((s.markPending c args seq).conns d).ticket = if d = c then s.tickets else (s.conns d).ticket := by
  by_cases same : d = c
  · subst same
    simp [markPending, conns_updConn, Conn.setSlot]
  · simp [markPending, conns_updConn, same]

theorem Ordered.ticket_lt (ordered : Ordered s queue) {t : Nat}
    (there : t ∈ s.taken.map Prod.fst ++ queue.map fun d => (s.conns d).ticket) : t < s.tickets :=
  List.mem_range.1 (ordered.once.subset (List.mem_append_left _ there))

theorem Listed.enqueue_cases (listed : Listed s queue) (c : ConnId) (args : List Bytes) (seq : Nat) (alloc : Bool) :
    (s.pendingConnEnqueue c args seq alloc).1 = s ∨
      c ∉ queue ∧ (s.pendingConnEnqueue c args seq alloc).1 = (s.markPending c args seq).append c := by
  unfold pendingConnEnqueue
  split
  · exact .inl rfl
  next idle =>
    split
    · exact .inl rfl
    · have away : c ∉ queue := fun there => idle ((listed.pending c).2 there)
      have unqueued : ¬((s.markPending c args seq).conns c).pendingQueued = true := by
        rw [(s.markPending_fields c c args seq).2.1, listed.queued]
        exact away
      dsimp only
      rw [if_neg unqueued]
      exact .inr ⟨away, rfl⟩

theorem Listed.enqueue (listed : Listed s queue) (ordered : Ordered s queue) (alive : (s.conns c).state ≠ .dead)
    (away : c ∉ queue) (args : List Bytes) (seq : Nat) : Listed ((s.markPending c args seq).append c) (queue ++ [c]) ∧
      Ordered ((s.markPending c args seq).append c) (queue ++ [c]) := by
  have fields (d : ConnId) := s.markPending_fields c d args seq
  obtain ⟨taken, cancelled, numbers, -, reason, ticket, state, -⟩ :=
    Relisted.of_unlisted ((s.markPending c args seq).unlisted_append c)
  have marked : Chained (s.markPending c args seq) queue :=
    listed.toChained.congr rfl rfl rfl (fun d _ => (fields d).1) fun d => (fields d).2.1
  refine ⟨⟨marked.append away, fun d => ?_, fun d there => ?_⟩, ?_⟩
  · rw [reason, (fields d).2.2.2.1]
    by_cases same : d = c <;> simp [same, listed.pending]
  · rw [state, (fields d).2.2.1]
    obtain there | same := List.mem_append.1 there
    · exact listed.alive d there
    · rwa [List.mem_singleton.1 same]
  · have tickets : ((queue ++ [c]).map fun d => (((s.markPending c args seq).append c).conns d).ticket) =
        (queue.map fun d => (s.conns d).ticket) ++ [s.tickets] := by
      rw [List.map_append, List.map_singleton, ticket, (fields c).2.2.2.2, if_pos rfl]
      refine congrArg (· ++ _) (List.map_congr_left fun d there => ?_)
      have other : d ≠ c := fun same => away (same ▸ there)
      rw [ticket, (fields d).2.2.2.2, if_neg other]
    replace taken : _ = s.taken := taken
    replace cancelled : _ = s.cancelled := cancelled
    replace numbers : _ = s.tickets + 1 := numbers
    constructor
    · rw [tickets, taken, ← List.append_assoc]
      refine List.pairwise_append.2 ⟨ordered.fifo, List.pairwise_singleton _ _, fun t there n last => ?_⟩
      rw [List.mem_singleton.1 last]
      exact ordered.ticket_lt there
    · rw [tickets, taken, cancelled, numbers, List.range_succ]
      refine List.Perm.trans ?_ (ordered.once.append_right [s.tickets])
      rw [List.perm_iff_count]
      intro t
      simp only [List.count_append]
      omega

end Enqueue

section Drain

theorem Listed.resume {rest : List ConnId} {env : DispatchEnv} (listed : Listed s (c :: rest))
    (ordered : Ordered s (c :: rest)) (counted : Counted s) (room : s.msetInflight < s.msetMaxConcurrent)
    (done : (s.pop c).resume c env = some s') : Listed s' rest ∧ Ordered s' rest ∧ Counted s' ∧
      s'.msetMaxConcurrent = s.msetMaxConcurrent ∧
      ∃ ok, s'.taken = s.taken ++ [((s.conns c).ticket, ok)] ∧ (env.statAlloc = true ∧ env.batchAlloc = true → ok = true) := by
  obtain ⟨⟨t, ok⟩, dispatched, after⟩ := Option.map_eq_some_iff.1 done
  obtain ⟨same, counts, succeeded⟩ := dispatchArgv_keeps dispatched room
  obtain ⟨taken, cancelled, numbers, max, reason, ticket, state, -⟩ := Relisted.of_unlisted (s.unlisted_pop c)
  have freed := same.trans ((s.pop c).bare_pendingStateFree c)
  have before : t.taken = s.taken := (congrArg Coordinator.taken freed :).trans taken
  -- the reply to a dispatch that failed is a matter of the slot
  have whole : s'.bare = Coordinator.bare { (s.pop c).idle c (s.pop c).cancelled with
      taken := s.taken ++ [((s.conns c).ticket, ok)] } := by
    refine Eq.trans ?_ (congrArg (fun u => { u with taken := s.taken ++ [((s.conns c).ticket, ok)] }) freed :)
    rw [← after]
    dsimp only
    rw [before, ticket]
    split
    · rfl
    · exact bare_setSlot _ c _ _
  have off : Listed ((s.pop c).idle c (s.pop c).cancelled) rest := by
    refine listed.toChained.pop.idle (fun d other => ?_) (List.nodup_cons.1 listed.nodup).1 (fun d there => ?_) _
    · rw [reason, listed.pending]
      simp [other]
    · rw [state]
      exact listed.alive d (List.mem_cons_of_mem c there)
  refine ⟨Listed.same ?_ whole, Ordered.same ?_ whole, ?_, (congrArg msetMaxConcurrent whole :).trans max, ok,
    (congrArg Coordinator.taken whole :), succeeded⟩
  · exact ⟨⟨off.path, off.tail, off.len, off.nodup, off.queued⟩, off.pending, off.alive⟩
  · have tickets : (rest.map fun d => (((s.pop c).idle c (s.pop c).cancelled).conns d).ticket) =
        rest.map fun d => (s.conns d).ticket :=
      List.map_congr_left fun d _ => (field_idle Conn.ticket (fun _ => rfl) _ c _ d).trans (ticket d)
    obtain ⟨fifo, once⟩ := ordered
    rw [List.map_cons] at fifo once
    constructor
    · simpa [tickets] using fifo
    · replace cancelled : ((s.pop c).idle c (s.pop c).cancelled).cancelled = s.cancelled := cancelled
      replace numbers : ((s.pop c).idle c (s.pop c).cancelled).tickets = s.tickets := numbers
      simpa [tickets, cancelled, numbers] using once
  · obtain ⟨inflight, nodup, fresh, limit⟩ := counts ⟨counted.inflight, counted.nodup, counted.fresh, counted.limit⟩
    rw [← after]
    cases ok <;> exact ⟨inflight, nodup, fresh, limit⟩

theorem Listed.drain {envs : List DispatchEnv} (listed : Listed s queue) (ordered : Ordered s queue) (counted : Counted s)
    (done : pendingConnDrain envs s = some s') : (∃ queue', Listed s' queue' ∧ Ordered s' queue') ∧ Counted s' ∧
      s'.msetMaxConcurrent = s.msetMaxConcurrent ∧
      ((∀ env ∈ envs, env.statAlloc = true ∧ env.batchAlloc = true) → (∀ x ∈ s.taken, x.2 = true) → ∀ x ∈ s'.taken, x.2 = true) ∧
      (s'.head = none ∨ s'.msetInflight = s'.msetMaxConcurrent ∨ s'.taken.length = s.taken.length + envs.length) := by
  induction envs generalizing s queue with
  | nil =>
    cases done
    exact ⟨⟨queue, listed, ordered⟩, counted, rfl, fun _ all => all, .inr (.inr rfl)⟩
  | cons env rest ih =>
    rw [pendingConnDrain] at done
    split at done
    next room =>
      cases queue with
      | nil =>
        have empty : s.head = none := listed.path
        rw [empty] at done
        cases done
        exact ⟨⟨[], listed, ordered⟩, counted, rfl, fun _ all => all, .inl empty⟩
      | cons c more =>
        have first : s.head = some c := listed.path.1
        have sound : ¬ ((s.conns c).state = .dead ∨ (s.conns c).pendingReason = false) := by
          rintro (dead | idle)
          · exact listed.alive c List.mem_cons_self dead
          · have waits := (listed.pending c).2 List.mem_cons_self
            rw [idle] at waits
            cases waits
        rw [first] at done
        dsimp only at done
        rw [if_neg sound] at done
        obtain ⟨t, resumed, done⟩ := Option.bind_eq_some_iff.1 done
        obtain ⟨listed', ordered', counted', max, ok, taken, succeeded⟩ := listed.resume ordered counted room resumed
        obtain ⟨sound', counted'', max', all, progress⟩ := ih listed' ordered' counted' done
        refine ⟨sound', counted'', max'.trans max, fun alloc before => ?_, ?_⟩
        · refine all (fun env there => alloc env (List.mem_cons_of_mem _ there)) fun x there => ?_
          rw [taken] at there
          obtain there | there := List.mem_append.1 there
          · exact before x there
          · rw [List.mem_singleton.1 there]
            exact succeeded (alloc env List.mem_cons_self)
        · obtain empty | full | used := progress
          · exact .inl empty
          · exact .inr (.inl full)
          · refine .inr (.inr ?_)
            rw [used, taken]
            simp only [List.length_append, List.length_cons, List.length_nil]
            omega
    next full =>
      cases done
      exact ⟨⟨queue, listed, ordered⟩, counted, rfl, fun _ all => all, .inr (.inl (by have := counted.limit; omega))⟩

end Drain

section Runs

structure Sound (max : Nat) (s : Coordinator) : Prop where
  lists : ∃ queue, Listed s queue ∧ Ordered s queue
  counted : Counted s
  max : s.msetMaxConcurrent = max
  dispatched : ∀ x ∈ s.taken, x.2 = true

variable {max : Nat}

theorem sound_init (max : Nat) : Sound max { msetMaxConcurrent := max } := by
  refine ⟨⟨[], ⟨⟨rfl, rfl, rfl, List.nodup_nil, fun d => ?_⟩, fun d => ?_, fun d there => ?_⟩, ⟨List.Pairwise.nil, .refl _⟩⟩,
    ⟨rfl, List.nodup_nil, fun stat there => ?_, Nat.zero_le _⟩, rfl, fun x there => ?_⟩
  · simp
  · simp
  · cases there
  · cases there
  · cases there

theorem Sound.of_same (sound : Sound max s) (same : s'.bare = s.bare) (counted : Counted s') : Sound max s' := by
  obtain ⟨queue, listed, ordered⟩ := sound.lists
  have taken : s'.taken = s.taken := (congrArg Coordinator.taken same :)
  exact ⟨⟨queue, listed.same same, ordered.same same⟩, counted, (congrArg msetMaxConcurrent same :).trans sound.max,
    taken ▸ sound.dispatched⟩

theorem Sound.dispatch {args : List Bytes} {seq : Nat} {alloc : Bool} {env : DispatchEnv} (sound : Sound max s)
    (alive : (s.conns c).state ≠ .dead) (moved : s.coordinatorDispatch c args seq alloc env = some s') : Sound max s' := by
  unfold coordinatorDispatch at moved
  split at moved
  · cases moved
    obtain ⟨queue, listed, ordered⟩ := sound.lists
    obtain same | ⟨away, added⟩ := listed.enqueue_cases c args seq alloc
    · rw [same]
      exact sound
    · rw [added]
      have relisted := Relisted.of_unlisted ((s.markPending c args seq).unlisted_append c)
      have counted : Counted (s.markPending c args seq) :=
        ⟨sound.counted.inflight, sound.counted.nodup, sound.counted.fresh, sound.counted.limit⟩
      exact ⟨⟨_, listed.enqueue ordered alive away args seq⟩, relisted.counted counted, relisted.max.trans sound.max,
        relisted.taken ▸ sound.dispatched⟩
  next room =>
    obtain ⟨⟨t, ok⟩, done, rfl⟩ := Option.map_eq_some_iff.1 moved
    obtain ⟨same, counts, -⟩ := dispatchArgv_keeps done (Nat.lt_of_not_le room)
    exact sound.of_same same (counts sound.counted)

theorem Sound.cancel {f : Conn → Conn} (sound : Sound max s) (queued : ∀ conn, conn.pendingQueued = false → (f conn).pendingQueued = false)
    (reason : ∀ conn, conn.pendingReason = false → (f conn).pendingReason = false)
    (done : (s.pendingConnCancel c).map (·.updConn c f) = some s') : Sound max s' := by
  obtain ⟨queue, listed, ordered⟩ := sound.lists
  obtain ⟨u, queue', cancelled, same, away, listed', ordered'⟩ := listed.cancel ordered c
  have relisted := Relisted.of_unlisted same
  have counted := (relisted.counted sound.counted).dropPending c
  have dropped := u.bare_dropPending c
  rw [cancelled] at done
  cases done
  have taken : (u.dropPending c).taken = s.taken := (congrArg Coordinator.taken dropped :).trans relisted.taken
  have limit : (u.dropPending c).msetMaxConcurrent = max :=
    (congrArg msetMaxConcurrent dropped :).trans (relisted.max.trans sound.max)
  generalize u.dropPending c = t at *
  have other {d : ConnId} (there : d ∈ queue') : d ≠ c := fun same => away (same ▸ there)
  have kept {d : ConnId} (there : d ∈ queue') : (t.updConn c f).conns d = t.conns d := by
    rw [conns_updConn, if_neg (other there)]
  have unqueued : (t.conns c).pendingQueued = false := by
    rw [← Bool.not_eq_true, listed'.queued]
    exact away
  have idle : (t.conns c).pendingReason = false := by
    rw [← Bool.not_eq_true, listed'.pending]
    exact away
  refine ⟨⟨queue', ⟨listed'.toChained.congr rfl rfl rfl (fun d there => by rw [kept there]) fun d => ?_, fun d => ?_,
    fun d there => ?_⟩, ordered'.congr rfl rfl rfl fun d there => by rw [kept there]⟩,
    counted.updConn f, limit, ?_⟩
  · rw [conns_updConn]
    split
    next same => rw [same, unqueued, queued _ unqueued]
    · rfl
  · rw [conns_updConn]
    split
    next same => rw [same, reason _ idle, ← listed'.pending c, idle]
    · exact listed'.pending d
  · rw [kept there]
    exact listed'.alive d there
  · change ∀ x ∈ t.taken, x.2 = true
    rw [taken]
    exact sound.dispatched

theorem Sound.hangUp (sound : Sound max s) (c : ConnId) : Sound max (s.updConn c fun conn =>
    if conn.state = .alive then { conn with state := .closing } else conn) := by
  have kept {T : Type} {field : Conn → T} (apart : ∀ conn state, field { conn with state := state } = field conn)
      (d : ConnId) : field ((s.updConn c fun conn =>
        if conn.state = .alive then { conn with state := .closing } else conn).conns d) = field (s.conns d) := by
    refine field_updConn field (fun conn => ?_) s c d
    split
    · exact apart conn .closing
    · rfl
  obtain ⟨queue, listed, ordered⟩ := sound.lists
  refine ⟨⟨queue, ⟨listed.toChained.congr rfl rfl rfl (fun d _ => kept (fun _ _ => rfl) d) (kept fun _ _ => rfl), fun d => ?_,
    fun d there => ?_⟩, ordered.congr rfl rfl rfl fun d _ => kept (fun _ _ => rfl) d⟩,
    sound.counted.updConn _, sound.max, sound.dispatched⟩
  · exact (iff_of_eq (congrArg (· = true) (kept (fun _ _ => rfl) d))).trans (listed.pending d)
  · rw [conns_updConn]
    split
    next same =>
      split
      · simp
      · exact same ▸ listed.alive d there
    · exact listed.alive d there

theorem Sound.step {event : Event} (sound : Sound max s) (succeeds : event.Succeeds) (moved : s.step event = some s') :
    Sound max s' := by
  cases event with
  | dispatch c args seq alloc env =>
    rw [Coordinator.step] at moved
    split at moved
    · cases moved
    next alive => exact sound.dispatch alive moved
  | complete stat =>
    obtain ⟨same, counts⟩ := statFreeReal_keeps moved
    exact sound.of_same same (counts sound.counted)
  | hangUp c =>
    cases moved
    exact sound.hangUp c
  | markDead c =>
    exact sound.cancel (f := fun conn => { conn with state := .dead }) (fun _ idle => idle) (fun _ idle => idle) moved
  | free c => exact sound.cancel (f := fun _ => {}) (fun _ _ => rfl) (fun _ _ => rfl) moved
  | drain envs =>
    obtain ⟨queue, listed, ordered⟩ := sound.lists
    obtain ⟨lists, counted, limit, all, -⟩ := listed.drain ordered sound.counted moved
    exact ⟨lists, counted, limit.trans sound.max, all succeeds sound.dispatched⟩

theorem sound_of_run (run : Run max s) : Sound max s :=
  run.invariant (sound_init max) Sound.step

structure Bookkeeping (max : Nat) (s : Coordinator) : Prop where
  -- the counter is the number of live stats
  inflight : s.msetInflight = s.stats.length ∧ s.stats.Nodup ∧ s.msetInflight ≤ max
  -- the list is well formed and holds the connections with a pending MSET; these are taken up in their order
  lists : ∃ queue, Listed s queue ∧ Ordered s queue
  -- one that is taken up is dispatched
  dispatched : ∀ x ∈ s.taken, x.2 = true
  once : (s.taken.map Prod.fst).Nodup
  -- a cancelled one is not taken up
  cancelled : ∀ t ∈ s.cancelled, t ∉ s.taken.map Prod.fst
  -- a cancellation comes to its end
  cancels : ∀ c, s.pendingConnCancel c ≠ none
  -- a drain goes on until the list is empty, the limit is reached or its budget is used up
  drains : ∀ envs s', pendingConnDrain envs s = some s' →
    s'.head = none ∨ s'.msetInflight = max ∨ s'.taken.length = s.taken.length + envs.length

theorem bookkeeping_of_run (run : Run max s) : Bookkeeping max s := by
  have sound := sound_of_run run
  obtain ⟨queue, listed, ordered⟩ := sound.lists
  obtain ⟨inflight, nodup, -, limit⟩ := sound.counted
  have distinct := ordered.once.symm.nodup_iff.1 List.nodup_range
  refine ⟨⟨inflight, nodup, sound.max ▸ limit⟩, ⟨queue, listed, ordered⟩, sound.dispatched, ?_, fun t gone there => ?_,
    fun c => ?_, fun envs s' done => ?_⟩
  · exact (List.nodup_append.1 (List.nodup_append.1 distinct).1).1
  · exact (List.nodup_append.1 distinct).2.2 t (List.mem_append_left _ there) t gone rfl
  · obtain ⟨t, queue', done, -⟩ := listed.cancel ordered c
    simp [done]
  · obtain ⟨-, -, same, -, progress⟩ := listed.drain ordered sound.counted done
    rwa [same, sound.max] at progress

def heldBack : List Event :=
  [.dispatch 0 [] 0 true {}, .dispatch 1 [] 0 true {}, .dispatch 2 [] 0 true {}, .markDead 1, .complete 0, .drain [{}, {}]]

def afterwards : Coordinator :=
  (Transition.follow step (fun _ event => decide event.Succeeds) heldBack { msetMaxConcurrent := 1 }).getD
    { msetMaxConcurrent := 1 }

theorem bookkeeping_heldBack : Bookkeeping 1 afterwards ∧ afterwards.taken = [(1, true)] ∧ afterwards.cancelled = [0] := by
  have followed : Transition.follow step (fun _ event => decide event.Succeeds) heldBack { msetMaxConcurrent := 1 } =
      some afterwards := rfl
  have run : Run 1 afterwards := Transition.follow_reaches (fun _ _ => of_decide_eq_true) followed
  exact ⟨bookkeeping_of_run run, by decide +kernel, by decide +kernel⟩

end Runs

end FreakV.Coordinator
