import FreakV.Net.MasterFlush

namespace FreakV.EventLoop

open Reactor

variable {write : Nat → Nat → Answer} {r r' : Reactor} {id : Nat} {rest : List Nat} {c d : Conn}

section Reading

theorem handleReadResp_quiet (none : r.heard = []) (alive : c.state ≠ .dead) (alone : id ∉ r.dirty) :
    (r.handleReadResp id c).conns id = some c.pipelineTryFlush ∧
    (r.handleReadResp id c).dirty =
      if c.pipelineTryFlush.slots ≠ [] ∨ 0 < c.pipelineTryFlush.wbufLen then id :: r.dirty else r.dirty := by
  have silent : c.hangsUp { unparsed := c.unparsed } = false := rfl
  have same : c.hear { unparsed := c.unparsed } = c := by
    simp [Conn.hear, silent]
  have here : (Reactor.setConn { r with heard := r.heard.tail } id c).conns id = some c := Function.update_self id _ _
  simp only [Reactor.handleReadResp, none, List.headD_nil, silent, Bool.false_eq_true, if_false, same, List.foldl_nil]
  rw [none] at here
  simp only [here, Reactor.readDone, if_neg alive]
  split
  · exact ⟨by rw [conns_markDirty, setConn_self], by rw [dirty_markDirty]; exact if_neg alone⟩
  · exact ⟨setConn_self _ id _, rfl⟩

end Reading

section Round

def Quiet (r : Reactor) (c : Conn) : Prop := c.reads = false ∨ r.heard = []

structure Stuck (write : Nat → Nat → Answer) (r : Reactor) (id : Nat) (c : Conn) : Prop where
  quiet : Quiet r c
  fd : c.fd = true
  cause : (0 < c.output ∧ ∀ k, r.calls id ≤ k → write id k = .again) ∨
    (c.reads = true ∧ c.output = 0 ∧ c.pipelineTryFlush.slots ≠ [])

def Reactor.found (r : Reactor) (id : Nat) (c : Conn) : Option Conn :=
  if c.reads then ((r.listRemove id).handleReadResp id c).conns id else some c

structure Moves (write : Nat → Nat → Answer) (r : Reactor) : Prop where
  free : ∀ id rest c, r.dirty = id :: rest → r.conns id = some c → ¬ Stuck write r id c
  safe : ∀ id rest c c', r.dirty = id :: rest → r.conns id = some c → r.found id c = some c' → ¬ Dangles write r id c'

theorem reads_fd (reads : c.reads = true) : c.fd = true := by
  simp only [Conn.reads, Bool.and_eq_true] at reads
  exact reads.1.1

def Reactor.visited (r : Reactor) (id : Nat) (c : Conn) : Reactor :=
  if c.reads then (r.listRemove id).handleReadResp id c else r.listRemove id

structure Visits (r : Reactor) (id : Nat) (c d : Conn) : Prop where
  acts : Acts r (r.visited id c)
  here : (r.visited id c).conns id = some d
  found : r.found id c = some d
  heard : (r.visited id c).heard = if c.reads then r.heard.tail else r.heard
  rest : ((r.visited id c).calls, (r.visited id c).attempted) = (r.calls, r.attempted)
  dirty : ∀ j ∈ r.dirty, j ≠ id → j ∈ (r.visited id c).dirty
  round : ∀ write, r.round write = if c.reads = true ∧ d.state = .dead then
    some { r.visited id c with attempted := id :: (r.visited id c).attempted } else (r.visited id c).flushConn write id d

theorem exists_visits (wf : r.WF) (top : r.dirty = id :: rest) (here : r.conns id = some c) : ∃ d, Visits r id c d := by
  have removed := acts_listRemove wf id
  have others (j : Nat) (there : j ∈ r.dirty) (other : j ≠ id) : j ∈ (r.listRemove id).dirty :=
    (List.mem_erase_of_ne other).2 there
  cases reads : c.reads with
  | false =>
    have eq : r.visited id c = r.listRemove id := by simp [visited, reads]
    refine ⟨c, eq ▸ removed, eq ▸ here, by simp [Reactor.found, reads], by simp [eq, reads, listRemove], by rw [eq]; rfl,
      eq ▸ others, fun write => ?_⟩
    simp [Reactor.round, top, here, reads, eq]
  | true =>
    have eq : r.visited id c = (r.listRemove id).handleReadResp id c := by simp [visited, reads]
    have read := reads_handleReadResp removed.wf here
    obtain ⟨d, found⟩ := Option.ne_none_iff_exists'.1 (read.stays id (by simp [listRemove, here]))
    have heard : ((r.listRemove id).handleReadResp id c).heard = r.heard.tail := congrArg Prod.fst read.rest
    refine ⟨d, eq ▸ removed.trans ⟨read.wf, read.gone, read.known⟩, eq ▸ found,
      by simp [Reactor.found, reads, found], by simp [eq, reads, heard], eq ▸ congrArg Prod.snd read.rest,
      fun j there other => eq ▸ read.dirty j (others j there other) other, fun write => ?_⟩
    simp [Reactor.round, top, here, reads, eq, found]

theorem acts_round (wf : r.WF) (moved : r.round write = some r') : Acts r r' := by
  cases top : r.dirty with
  | nil =>
    obtain rfl : r = r' := by simpa [Reactor.round, top] using moved
    exact .refl wf
  | cons id rest =>
    obtain ⟨c, here⟩ := Option.ne_none_iff_exists'.1 (wf.live id (by simp [top]))
    obtain ⟨d, visits⟩ := exists_visits wf top here
    rw [visits.round] at moved
    split at moved
    · cases moved
      exact visits.acts.congr rfl
    · exact visits.acts.trans (acts_flushConn visits.acts.wf visits.here moved)

structure Rounded (r r' : Reactor) : Prop where
  dirty : ∀ j ∈ r.dirty, j ∈ r'.dirty ∨ j ∈ r'.attempted
  attempted : ∀ j ∈ r.attempted, j ∈ r'.attempted

theorem Dangles.congr (dangles : Dangles write r' id c) (calls : r'.calls = r.calls) : Dangles write r id c :=
  ⟨dangles.fd, dangles.closing, dangles.answered, dangles.output, calls ▸ dangles.drains⟩

theorem Visits.rounded (visits : Visits r id c d) (attempted : r'.attempted = id :: (r.visited id c).attempted)
    (dirty : ∀ j ∈ (r.visited id c).dirty, j ≠ id → j ∈ r'.dirty) : Rounded r r' := by
  have same : (r.visited id c).attempted = r.attempted := congrArg Prod.snd visits.rest
  refine ⟨fun j there => ?_, fun j there => ?_⟩
  · by_cases top : j = id
    · exact .inr (by simp [attempted, top])
    · exact .inl (dirty j (visits.dirty j there top) top)
  · rw [attempted, same]
    exact List.mem_cons_of_mem _ there

theorem round_cases (write : Nat → Nat → Answer) (wf : r.WF) (top : r.dirty = id :: rest) (here : r.conns id = some c) :
    (∃ r', r.round write = some r' ∧ Rounded r r' ∧ r'.heard = if c.reads then r.heard.tail else r.heard) ∨
    ∃ d, r.found id c = some d ∧ Dangles write r id d := by
  obtain ⟨d, visits⟩ := exists_visits wf top here
  rw [visits.round, ← visits.heard]
  split
  · exact .inl ⟨_, rfl, visits.rounded rfl fun _ there _ => there, rfl⟩
  · have passes {s : Reactor} (passes : Passes (r.visited id c) s id) : s.heard = (r.visited id c).heard ∧
        s.attempted = id :: (r.visited id c).attempted := Prod.mk.inj passes
    have flushed : Flushed write (r.visited id c) id d ((r.visited id c).flushConn write id d) :=
      flushed_flushConn visits.acts.wf visits.here
    generalize (r.visited id c).flushConn write id d = result at flushed ⊢
    cases flushed with
    | leaves s passed dirty =>
      obtain ⟨heard, attempted⟩ := passes passed
      exact .inl ⟨s, rfl, visits.rounded attempted fun j there other => dirty ▸ (List.mem_erase_of_ne other).2 there, heard⟩
    | stays s _ passed dirty _ _ =>
      obtain ⟨heard, attempted⟩ := passes passed
      exact .inl ⟨s, rfl, visits.rounded attempted fun j there _ => dirty ▸ there, heard⟩
    | again s _ passed dirty _ _ _ _ =>
      obtain ⟨heard, attempted⟩ := passes passed
      refine .inl ⟨s, rfl, visits.rounded attempted fun j there _ => ?_, heard⟩
      rw [dirty, dirty_markDirty]
      split
      · exact there
      · exact List.mem_cons_of_mem _ there
    | dangles dangles => exact .inr ⟨d, visits.found, dangles.congr (congrArg Prod.fst visits.rest)⟩

theorem Visits.quiet (visits : Visits r id c d) (wf : r.WF) (top : r.dirty = id :: rest) (here : r.conns id = some c)
    (quiet : Quiet r c) : d.pipelineTryFlush = c.pipelineTryFlush ∧ (r.visited id c).heard = r.heard ∧
    (∀ write, r.round write = (r.visited id c).flushConn write id d) ∧
    (r.visited id c).dirty = if c.reads = true ∧ (c.pipelineTryFlush.slots ≠ [] ∨ 0 < c.pipelineTryFlush.wbufLen) then
      id :: rest else rest := by
  have dirty : (r.listRemove id).dirty = rest := by simp [listRemove, top]
  have off : id ∉ rest := (List.nodup_cons.1 (top ▸ wf.dirty)).1
  have found := visits.here
  have heard := visits.heard
  have round := visits.round
  cases reads : c.reads with
  | false =>
    simp only [visited, reads, Bool.false_eq_true, if_false, false_and] at found heard round ⊢
    obtain rfl : c = d := Option.some.inj (here.symm.trans found)
    exact ⟨rfl, heard, round, dirty⟩
  | true =>
    have none : (r.listRemove id).heard = [] := quiet.resolve_left (by simp [reads])
    have alive : c.state ≠ .dead := fun dead => by simpa [(wf.conns id c here).closed dead] using reads_fd reads
    obtain ⟨known, marks⟩ := handleReadResp_quiet none alive (dirty ▸ off)
    simp only [visited, reads, if_true, true_and] at found heard round ⊢
    obtain rfl : c.pipelineTryFlush = d := Option.some.inj (known.symm.trans found)
    have nothing : r.heard = [] := none
    refine ⟨c.pipelineTryFlush_again, by rw [heard, nothing]; rfl, fun write => (round write).trans (if_neg alive), ?_⟩
    rw [marks, dirty]

structure Remains (write : Nat → Nat → Answer) (r r' : Reactor) (id : Nat) (rest : List Nat) (c : Conn) : Prop where
  dirty : r'.dirty = id :: rest
  progress : ∃ c', r'.conns id = some c' ∧ (c'.output < c.output ∨
    c'.output = c.output ∧ c.fd = true ∧ 0 < c.output ∧ r'.calls id = r.calls id + 1 ∧ write id (r.calls id) = .again)

theorem Flushed.remains {r'' : Reactor} (flushed : Flushed write r'' id c (some r')) (off : id ∉ rest)
    (calls : r''.calls = r.calls) (dirty : r''.dirty = rest ∨ r''.dirty = id :: rest ∧ c.fd = true ∧ 0 < c.output) :
    r'.dirty = rest ∨ Remains write r r' id rest c := by
  have erased : r''.dirty.erase id = rest := by
    obtain dirty | ⟨dirty, -⟩ := dirty
    · rw [dirty, List.erase_of_not_mem off]
    · rw [dirty, List.erase_cons_head]
  cases flushed with
  | leaves _ _ after => exact .inl (after.trans erased)
  | stays _ c' _ after found cause =>
    obtain dirty | ⟨dirty, active⟩ := dirty
    · exact .inl (after.trans dirty)
    · obtain idle | ⟨output, empty⟩ := cause
      · exact absurd active idle
      · exact .inr ⟨after.trans dirty, c', found, .inl (empty ▸ output)⟩
  | again _ c' _ after found fd output progress =>
    have front : r'.dirty = id :: rest := by
      rw [after, dirty_markDirty]
      obtain dirty | ⟨dirty, -⟩ := dirty
      · rw [dirty, if_neg off]
      · rw [dirty, if_pos List.mem_cons_self]
    refine .inr ⟨front, c', found, ?_⟩
    obtain less | ⟨same, next, refuses⟩ := progress
    · exact .inl less
    · rw [calls] at next refuses
      exact .inr ⟨same, fd, output, next, refuses⟩

theorem output_of_flushed (same : d.pipelineTryFlush = c.pipelineTryFlush) : d.output = c.output := by
  rw [← d.output_pipelineTryFlush, same, c.output_pipelineTryFlush]

theorem quiet_round (wf : r.WF) (top : r.dirty = id :: rest) (here : r.conns id = some c) (quiet : Quiet r c)
    (moves : Moves write r) (moved : r.round write = some r') : r'.dirty = rest ∨ Remains write r r' id rest c := by
  have off : id ∉ rest := (List.nodup_cons.1 (top ▸ wf.dirty)).1
  obtain ⟨d, visits⟩ := exists_visits wf top here
  obtain ⟨same, -, round, marks⟩ := visits.quiet wf top here quiet
  have output : d.output = c.output := output_of_flushed same
  have fd : d.fd = c.fd := (congrArg Conn.fd same :)
  have flushed : Flushed write (r.visited id c) id d (some r') :=
    moved ▸ round write ▸ flushed_flushConn visits.acts.wf visits.here
  have listed : (r.visited id c).dirty = rest ∨ (r.visited id c).dirty = id :: rest ∧ d.fd = true ∧ 0 < d.output := by
    rw [marks, output, fd]
    split
    next marked =>
      obtain ⟨reads, marked⟩ := marked
      refine .inr ⟨rfl, reads_fd reads, Nat.pos_of_ne_zero fun empty => ?_⟩
      have length := ((wf.conns id c here).fits.output_eq_zero empty).1
      have outstanding : c.pipelineTryFlush.slots ≠ [] := marked.resolve_right (by omega)
      exact moves.free id rest c top here ⟨quiet, reads_fd reads, .inr ⟨reads, empty, outstanding⟩⟩
    · exact .inl rfl
  refine (flushed.remains off (congrArg Prod.fst visits.rest) listed).imp_right fun ⟨front, c', after, progress⟩ => ?_
  rw [output, fd] at progress
  exact ⟨front, c', after, progress⟩

theorem flushConn_dangles (dangles : Dangles write r id c) : r.flushConn write id c = none := by
  obtain ⟨fd, closing, answered, output, drains⟩ := dangles
  obtain ⟨d, k, written, ends, eq⟩ := flushConn_ends write r id fd output
  rw [eq]
  cases ends with
  | drained _ _ =>
    have state : c.pipelineTryFlush.writeDone.state = .closing := closing
    have freed : ((r.afterWrite id c c.pipelineTryFlush.writeDone k).connTryFree id c.pipelineTryFlush.writeDone).conns id =
        none := by
      simp [Reactor.connTryFree, answered, Conn.writeDone]
    simp only [Reactor.writeEnds, state, Reactor.roundEnds, freed]
  | again _ _ _ _ stays _ => exact absurd drains stays
  | error _ _ _ stays => exact absurd drains stays

theorem round_dangles (wf : r.WF) (top : r.dirty = id :: rest) (here : r.conns id = some c) (found : r.found id c = some d)
    (dangles : Dangles write r id d) : r.round write = none := by
  obtain ⟨d', visits⟩ := exists_visits wf top here
  obtain rfl : d = d' := Option.some.inj (found.symm.trans visits.found)
  have calls : r.calls = (r.visited id c).calls := (congrArg Prod.fst visits.rest).symm
  rw [visits.round, if_neg (by simp [dangles.closing])]
  exact flushConn_dangles (dangles.congr calls)

structure Repeats (r r' : Reactor) (id : Nat) (rest : List Nat) (c : Conn) : Prop where
  dirty : r'.dirty = id :: rest
  conns : r'.conns id = some c.pipelineTryFlush
  heard : r'.heard = r.heard
  calls : r.calls id ≤ r'.calls id

theorem flushConn_refused (fd : c.fd = true) (output : 0 < c.output) (refuses : write id (r.calls id) = .again)
    (front : (r.markDirty id).dirty = id :: rest) :
    ∃ r', r.flushConn write id c = some r' ∧ Repeats r r' id rest c := by
  have less := Conn.output_pos.1 output
  have loop : c.pipelineTryFlush.writeLoop (write id) (c.output + 1) (r.calls id) =
      (c.pipelineTryFlush, r.calls id + 1, .again) := by
    simp only [Conn.writeLoop, if_neg (Nat.not_le_of_lt less), refuses]
  have here : ((r.afterWrite id c c.pipelineTryFlush (r.calls id + 1)).markDirty id).conns id = some c.pipelineTryFlush := by
    rw [conns_markDirty, conns_afterWrite]
  refine ⟨(r.afterWrite id c c.pipelineTryFlush (r.calls id + 1)).markDirty id, ?_, ?_, here, heard_markDirty _ id, ?_⟩
  · rw [flushConn_eq fd output loop, Reactor.writeEnds]
    exact roundEnds_of_unsent here less
  · rw [← front, dirty_markDirty, dirty_markDirty]
    rfl
  · rw [calls_markDirty]
    simp [Reactor.afterWrite]

theorem flushConn_idle (output : c.output = 0) (outstanding : c.pipelineTryFlush.slots ≠ []) (front : r.dirty = id :: rest) :
    ∃ r', r.flushConn write id c = some r' ∧ Repeats r r' id rest c := by
  have here : Reactor.conns { r.setConn id c.pipelineTryFlush with attempted := id :: r.attempted } id =
      some c.pipelineTryFlush := setConn_self r id _
  rw [flushConn_still (by omega), roundEnds_of_slots here outstanding]
  exact ⟨_, rfl, front, here, rfl, Nat.le_refl _⟩

theorem stuck_round (wf : r.WF) (top : r.dirty = id :: rest) (here : r.conns id = some c) (stuck : Stuck write r id c) :
    ∃ r', r.round write = some r' ∧ Repeats r r' id rest c := by
  have off : id ∉ rest := (List.nodup_cons.1 (top ▸ wf.dirty)).1
  obtain ⟨d, visits⟩ := exists_visits wf top here
  obtain ⟨same, heard, round, marks⟩ := visits.quiet wf top here stuck.quiet
  have output : d.output = c.output := output_of_flushed same
  have fd : d.fd = true := (congrArg Conn.fd same :).trans stuck.fd
  have calls : (r.visited id c).calls = r.calls := congrArg Prod.fst visits.rest
  rw [round]
  obtain ⟨r', flushed, repeats⟩ :
      ∃ r', (r.visited id c).flushConn write id d = some r' ∧ Repeats (r.visited id c) r' id rest d := by
    obtain ⟨some_left, refuses⟩ | ⟨reads, none_left, outstanding⟩ := stuck.cause
    · refine flushConn_refused fd (output ▸ some_left) (calls ▸ refuses _ (Nat.le_refl _)) ?_
      rw [dirty_markDirty, marks]
      split_ifs <;> simp_all
    · exact flushConn_idle (output.trans none_left) (same ▸ outstanding) (marks.trans (if_pos ⟨reads, .inl outstanding⟩))
  exact ⟨r', flushed, repeats.dirty, same ▸ repeats.conns, repeats.heard.trans heard, calls ▸ repeats.calls⟩

theorem Repeats.stuck (repeats : Repeats r r' id rest c) (stuck : Stuck write r id c) :
    Stuck write r' id c.pipelineTryFlush := by
  obtain ⟨quiet, fd, cause⟩ := stuck
  refine ⟨?_, fd, ?_⟩
  · rw [Quiet, repeats.heard]
    exact quiet
  · rw [Conn.output_pipelineTryFlush, Conn.pipelineTryFlush_again]
    obtain ⟨output, refuses⟩ | reading := cause
    · exact .inl ⟨output, fun k behind => refuses k (Nat.le_trans repeats.calls behind)⟩
    · exact .inr reading

end Round

section Rank

open Classical in
noncomputable def wait (write : Nat → Nat → Answer) (r : Reactor) (id : Nat) : Nat :=
  if later : ∃ d, write id (r.calls id + d) ≠ .again then Nat.find later else 0

theorem wait_lt (later : ∃ k, r.calls id ≤ k ∧ write id k ≠ .again) (refuses : write id (r.calls id) = .again)
    (next : r'.calls id = r.calls id + 1) : wait write r' id < wait write r id := by
  classical
  obtain ⟨k, behind, answers⟩ := later
  have before : ∃ d, write id (r.calls id + d) ≠ .again := ⟨k - r.calls id, by rwa [Nat.add_sub_cancel' behind]⟩
  have positive : 0 < Nat.find before := by
    rw [Nat.find_pos]
    simpa using refuses
  obtain ⟨d, eq⟩ : ∃ d, Nat.find before = d + 1 := ⟨Nat.find before - 1, by omega⟩
  have spec := Nat.find_spec before
  have same : r'.calls id + d = r.calls id + Nat.find before := by omega
  have after : ∃ d, write id (r'.calls id + d) ≠ .again := ⟨d, by rwa [same]⟩
  rw [wait, wait, dif_pos before, dif_pos after, eq]
  exact Nat.lt_succ_of_le (Nat.find_min' after (by rwa [same]))

noncomputable def rank (write : Nat → Nat → Answer) (r : Reactor) : Nat ×ₗ Nat ×ₗ Nat ×ₗ Nat :=
  toLex (r.heard.length, toLex (r.dirty.length,
    match r.dirty with
    | [] => toLex (0, 0)
    | id :: _ => toLex (((r.conns id).map Conn.output).getD 0, wait write r id)))

theorem rank_lt (wf : r.WF) (top : r.dirty = id :: rest) (here : r.conns id = some c) (moves : Moves write r)
    (moved : r.round write = some r') (heard : r'.heard = if c.reads then r.heard.tail else r.heard) :
    rank write r' < rank write r := by
  rw [rank, rank, Prod.Lex.toLex_lt_toLex]
  by_cases quiet : Quiet r c
  case pos =>
    have same : r'.heard.length = r.heard.length := by
      rw [heard]
      obtain no | none := quiet
      · rw [no]; rfl
      · rw [none]; split <;> rfl
    refine .inr ⟨same, ?_⟩
    rw [Prod.Lex.toLex_lt_toLex]
    obtain left | ⟨front, c', found, progress⟩ := quiet_round wf top here quiet moves moved
    · refine .inl ?_
      rw [left, top]
      exact Nat.lt_succ_self _
    · refine .inr ⟨by rw [front, top], ?_⟩
      simp only [front, top, found, here, Option.map_some, Option.getD_some, Prod.Lex.toLex_lt_toLex]
      obtain less | ⟨equal, fd, output, next, refuses⟩ := progress
      · exact .inl less
      · have later : ∃ k, r.calls id ≤ k ∧ write id k ≠ .again := by
          by_contra never
          refine moves.free id rest c top here ⟨quiet, fd, .inl ⟨output, fun k behind => ?_⟩⟩
          by_contra answers
          exact never ⟨k, behind, answers⟩
        exact .inr ⟨equal, wait_lt later refuses next⟩
  case neg =>
    have reads : c.reads = true := by
      by_contra silent
      exact quiet (.inl (by simpa using silent))
    have waiting : r.heard ≠ [] := fun none => quiet (.inr none)
    refine .inl ?_
    rw [heard, reads, if_pos rfl, List.length_tail]
    exact Nat.sub_lt (List.length_pos_iff.2 waiting) Nat.one_pos

end Rank

section Loop

def Flushes (write : Nat → Nat → Answer) (r : Reactor) : Prop :=
  ∃ n r', r.rounds write n = some r' ∧ r'.dirty = [] ∧ ∀ id ∈ r.dirty, id ∈ r'.attempted

theorem rounds_add (write : Nat → Nat → Answer) (n m : Nat) (r : Reactor) :
    r.rounds write (n + m) = (r.rounds write n).bind (Reactor.rounds write m) := by
  induction n generalizing r with
  | zero => rw [Nat.zero_add]; rfl
  | succ n ih =>
    rw [Nat.succ_add, Reactor.rounds, Reactor.rounds]
    cases r.round write with
    | none => rfl
    | some s => exact ih s

theorem rounds_of_empty (none : r.dirty = []) (n : Nat) : r.rounds write n = some r := by
  induction n with
  | zero => rfl
  | succ n ih =>
    have still : r.round write = some r := by simp [Reactor.round, none]
    rw [Reactor.rounds, still]
    exact ih

theorem ends_of_moves (wf : r.WF) (moves : ∀ n s, r.rounds write n = some s → Moves write s) :
    ∃ n r', r.rounds write n = some r' ∧ r'.dirty = [] ∧ ∀ id, id ∈ r.dirty ∨ id ∈ r.attempted → id ∈ r'.attempted := by
  induction ranked : rank write r using WellFoundedLT.induction generalizing r with
  | ind rk ih =>
    cases top : r.dirty with
    | nil => exact ⟨0, r, rfl, top, by simp⟩
    | cons id rest =>
      obtain ⟨c, here⟩ := Option.ne_none_iff_exists'.1 (wf.live id (by simp [top]))
      have now := moves 0 r rfl
      obtain ⟨s, moved, rounded, heard⟩ | ⟨c', found, dangles⟩ := round_cases write wf top here
      case inr => exact absurd dangles (now.safe id rest c c' top here found)
      have less := rank_lt wf top here now moved heard
      have later (n : Nat) (t : Reactor) (reached : s.rounds write n = some t) : Moves write t :=
        moves (n + 1) t (by rw [Reactor.rounds, moved]; exact reached)
      obtain ⟨n, r', reached, empty, tried⟩ := ih _ (ranked ▸ less) (acts_round wf moved).wf later rfl
      refine ⟨n + 1, r', by rw [Reactor.rounds, moved]; exact reached, empty, fun j there => tried j ?_⟩
      obtain there | there := there
      · exact rounded.dirty j (top ▸ there)
      · exact .inr (rounded.attempted j there)

theorem stuck_rounds (wf : r.WF) (top : r.dirty = id :: rest) (here : r.conns id = some c) (stuck : Stuck write r id c)
    (n : Nat) : ∃ r', r.rounds write n = some r' ∧ r'.dirty = id :: rest := by
  induction n generalizing r c with
  | zero => exact ⟨r, rfl, top⟩
  | succ n ih =>
    obtain ⟨s, moved, repeats⟩ := stuck_round wf top here stuck
    rw [Reactor.rounds, moved]
    exact ih (acts_round wf moved).wf repeats.dirty repeats.conns (repeats.stuck stuck)

theorem wf_rounds {s : Reactor} (wf : r.WF) {n : Nat} (reached : r.rounds write n = some s) : s.WF := by
  induction n generalizing r with
  | zero =>
    cases reached
    exact wf
  | succ n ih =>
    obtain ⟨t, moved, later⟩ := Option.bind_eq_some_iff.1 reached
    exact ih (acts_round wf moved).wf later

theorem Flushes.later {n : Nat} {s : Reactor} (flushes : Flushes write r) (reached : r.rounds write n = some s) :
    ∃ m s', s.rounds write m = some s' ∧ s'.dirty = [] := by
  obtain ⟨m, r', finished, empty, -⟩ := flushes
  have both : r.rounds write (m + n) = some r' := by
    rw [rounds_add, finished]
    exact rounds_of_empty empty n
  refine ⟨m, r', ?_, empty⟩
  rw [Nat.add_comm, rounds_add, reached] at both
  exact both

theorem moves_of_flushes (wf : r.WF) (flushes : Flushes write r) {n : Nat} {s : Reactor}
    (reached : r.rounds write n = some s) : Moves write s := by
  have wf' : s.WF := wf_rounds wf reached
  obtain ⟨m, s', finished, empty⟩ := flushes.later reached
  refine ⟨fun id rest c top here stuck => ?_, fun id rest c c' top here found dangles => ?_⟩
  · obtain ⟨t, there, list⟩ := stuck_rounds wf' top here stuck m
    rw [finished] at there
    cases there
    simp [empty] at list
  · cases m with
    | zero =>
      cases finished
      simp [empty] at top
    | succ m =>
      rw [Reactor.rounds, round_dangles wf' top here found dangles] at finished
      cases finished

theorem flushes_iff (write : Nat → Nat → Answer) (r : Reactor) (wf : r.WF) :
    Flushes write r ↔ ∀ n s, r.rounds write n = some s → Moves write s := by
  refine ⟨fun flushes n s reached => moves_of_flushes wf flushes reached, fun moves => ?_⟩
  obtain ⟨n, r', reached, empty, tried⟩ := ends_of_moves wf moves
  exact ⟨n, r', reached, empty, fun id there => tried id (.inl there)⟩

def slowClient : Reactor where
  conns id := if id = 0 then some { wbufLen := 1 } else none
  dirty := [0]

theorem wf_slowClient : slowClient.WF := by
  refine ⟨by decide, by decide, fun id there => ?_, fun id c here => ?_, fun id there => ?_⟩
  · obtain rfl := List.mem_singleton.1 there
    simp [slowClient]
  · simp only [slowClient] at here
    split at here
    · cases here
      exact ⟨.inl Nat.one_pos, fun dead => by cases dead⟩
    · cases here
  · cases there

theorem slow_client_flushed :
    slowClient.WF ∧ Flushes (fun _ k => if k = 0 then .again else .sent 0) slowClient ∧
    ∀ n s, slowClient.rounds (fun _ k => if k = 0 then .again else .sent 0) n = some s →
      Moves (fun _ k => if k = 0 then .again else .sent 0) s := by
  have flushes : Flushes (fun _ k => if k = 0 then .again else .sent 0) slowClient :=
    ⟨2, _, rfl, rfl, fun _ there => List.mem_cons.2 (.inl (List.mem_singleton.1 there))⟩
  exact ⟨wf_slowClient, flushes, (flushes_iff _ slowClient wf_slowClient).1 flushes⟩

theorem slow_client_blocks : slowClient.WF ∧ ¬ Flushes (fun _ _ => .again) slowClient := by
  refine ⟨wf_slowClient, fun ⟨n, r', reached, empty, _⟩ => ?_⟩
  have stuck : Stuck (fun _ _ => .again) slowClient 0 { wbufLen := 1 } :=
    ⟨.inl rfl, rfl, .inl ⟨by decide, fun _ _ => rfl⟩⟩
  obtain ⟨t, there, list⟩ := stuck_rounds wf_slowClient rfl rfl stuck n
  rw [reached] at there
  cases there
  simp [empty] at list

end Loop

end FreakV.EventLoop
