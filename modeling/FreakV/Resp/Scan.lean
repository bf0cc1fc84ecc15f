import FreakV.Resp.Bounds

namespace FreakV.Resp

/-- What the parser makes of a request. `unbounded` is a command with an argument of negative length, which reaches
over everything that has been received. -/
inductive Item
  | command (args : List Bytes)
  | unbounded
  | pong
deriving DecidableEq

structure Scan where
  state : ParseState
  argcExpected : Int
  lens : List Nat
  args : List Bytes
  argvCap : Int
  bulkLen : Int
  enqueued : Nat
deriving DecidableEq

inductive Turn
  | waits
  | dies
  | hangs
  | takes (n : Nat) (next : Scan) (items : List Item)
deriving DecidableEq

def IsPing (rest : Bytes) : Prop := (rest.take 4).map toLower = [112, 105, 110, 103]

instance (rest : Bytes) : Decidable (IsPing rest) := inferInstanceAs (Decidable (_ = _))

def lineTurn (rest : Bytes) (next : Int → Nat → Turn) : Turn :=
  match readNumber 0 0 rest.tail with
  | none => .waits
  | some (val, used) => next val used

namespace Scan

def start : Scan :=
  { state := .arrayLen, argcExpected := 0, lens := [], args := [], argvCap := 0, bulkLen := 0, enqueued := 0 }

def reset (p : Scan) : Scan := { p with state := .arrayLen, argcExpected := 0, lens := [], args := [], bulkLen := 0 }

def item (p : Scan) : Item := if ∀ n ∈ p.lens, n < 2 ^ 31 then .command p.args else .unbounded

def turnArrayLen (p : Scan) (rest : Bytes) : Turn :=
  if rest.take 2 = [13, 10] then .takes 2 p []
  else if rest.head? = some 13 then .waits
  else if rest.head? ≠ some 42 then
    if IsPing rest then
      .takes (4 + ((rest.drop 4).takeWhile fun b => b = 13 || b = 10).length) { p with enqueued := p.enqueued + 1 } [.pong]
    else .dies
  else
    lineTurn rest fun val used =>
      match argvEnsure p.argvCap val with
      | none => .hangs
      | some newcap =>
        .takes (1 + used) { p with argcExpected := val, lens := [], args := [], argvCap := newcap, state := .bulkLen } []

def turnBulkLen (p : Scan) (rest : Bytes) : Turn :=
  if rest.head? ≠ some 36 then .dies
  else lineTurn rest fun val used => .takes (1 + used) { p with bulkLen := val, state := .bulkData } []

def need (p : Scan) : Nat := (toSize p.bulkLen + 2) % 2 ^ 64

def collected (p : Scan) (rest : Bytes) : Scan :=
  { p with
    lens := p.lens ++ [toSize p.bulkLen]
    args := p.args ++ [if toSize p.bulkLen < 2 ^ 31 then rest.take (toSize p.bulkLen) else []] }

def complete (p : Scan) (n : Nat) : Turn :=
  if p.enqueued % 2 ^ 32 = 2 ^ 32 - 1 then .dies
  else .takes n { p.reset with enqueued := p.enqueued + 1 } [p.item]

def turnBulkData (p : Scan) (rest : Bytes) : Turn :=
  if rest.length < p.need then .waits
  else if p.argcExpected ≤ p.lens.length + 1 then (p.collected rest).complete p.need
  else .takes p.need { p.collected rest with state := .bulkLen } []

def turn (p : Scan) (rest : Bytes) : Turn :=
  match p.state with
  | .arrayLen => p.turnArrayLen rest
  | .bulkLen => p.turnBulkLen rest
  | .bulkData => p.turnBulkData rest

inductive Reads : Scan → Bytes → List Item → Status → Prop
  | empty {p : Scan} : Reads p [] [] .alive
  | waits {p : Scan} {rest : Bytes} (some : rest ≠ []) (turn : p.turn rest = .waits) : Reads p rest [] .alive
  | dies {p : Scan} {rest : Bytes} (some : rest ≠ []) (turn : p.turn rest = .dies) : Reads p rest [] .dead
  | hangs {p : Scan} {rest : Bytes} (some : rest ≠ []) (turn : p.turn rest = .hangs) : Reads p rest [] .hung
  | takes {p next : Scan} {rest : Bytes} {n : Nat} {items more : List Item} {status : Status} (some : rest ≠ [])
      (turn : p.turn rest = .takes n next items) (reads : Reads next (rest.drop n) more status) :
      Reads p rest (items ++ more) status

def scanFor : Nat → Scan → Bytes → List Item × Status
  | 0, _, _ => ([], .alive)
  | fuel + 1, p, rest =>
    if rest = [] then ([], .alive)
    else
      match p.turn rest with
      | .waits => ([], .alive)
      | .dies => ([], .dead)
      | .hangs => ([], .hung)
      | .takes n next items =>
        let later := scanFor fuel next (rest.drop n)
        (items ++ later.1, later.2)

def work (p : Scan) (rest : Bytes) : Nat := 2 * rest.length + (if p.state = .bulkData then 1 else 0)

end Scan

def requests (stream : Bytes) : List Item := (Scan.scanFor (2 * stream.length + 1) .start stream).1

theorem readNumber_append {val v : Int} {used u : Nat} {line : Bytes} (more : Bytes)
    (number : readNumber val used line = some (v, u)) : readNumber val used (line ++ more) = some (v, u) := by
  induction line generalizing val used with
  | nil => simp [readNumber] at number
  | cons b rest ih =>
    cases rest with
    | nil => simp [readNumber] at number
    | cons b' rest =>
      simp only [readNumber, List.cons_append] at number ih ⊢
      split at number
      next digit =>
        rw [if_pos digit]
        exact ih number
      next other =>
        rw [if_neg other]
        exact number

theorem readNumber_open_append {val v : Int} {used u : Nat} {line more : Bytes} (missing : readNumber val used line = none)
    (number : readNumber val used (line ++ more) = some (v, u)) : used + line.length < u := by
  induction line generalizing val used with
  | nil =>
    have bounds := Conn.readNumber_used number
    simp only [List.length_nil]
    omega
  | cons b rest ih =>
    cases rest with
    | nil =>
      have bounds := Conn.readNumber_used number
      simp only [List.length_cons, List.length_nil]
      omega
    | cons b' rest =>
      simp only [readNumber, List.cons_append] at number missing ih
      split at number
      next digit =>
        rw [if_pos digit] at missing
        have further := ih missing number
        simp only [List.length_cons] at further ⊢
        omega
      next other =>
        rw [if_neg other, number] at missing
        cases missing

theorem lineTurn_append {rest : Bytes} {next : Int → Nat → Turn} (some : rest ≠ []) (more : Bytes)
    (ready : lineTurn rest next ≠ .waits) : lineTurn (rest ++ more) next = lineTurn rest next := by
  obtain ⟨b, line, rfl⟩ := List.exists_cons_of_ne_nil some
  simp only [lineTurn, List.cons_append, List.tail_cons] at ready ⊢
  cases number : readNumber 0 0 line with
  | none => simp [number] at ready
  | some result => rw [readNumber_append more number]

theorem lineTurn_waits {rest more : Bytes} {next : Int → Nat → Turn} (some : rest ≠ []) (waits : lineTurn rest next = .waits)
    {n : Nat} {p : Scan} {items : List Item} (whole : ∀ val used, next val used ≠ .waits)
    (exact : ∀ val used, next val used = .takes n p items → n = 1 + used)
    (takes : lineTurn (rest ++ more) next = .takes n p items) : rest.length < n := by
  obtain ⟨b, line, rfl⟩ := List.exists_cons_of_ne_nil some
  simp only [lineTurn, List.cons_append, List.tail_cons] at waits takes
  cases missing : readNumber 0 0 line with
  | none =>
    cases number : readNumber 0 0 (line ++ more) with
    | none => simp [number] at takes
    | some result =>
      obtain ⟨val, used⟩ := result
      rw [number] at takes
      have further := readNumber_open_append missing number
      rw [exact val used takes, List.length_cons]
      omega
  | some result =>
    rw [missing] at waits
    exact absurd waits (whole _ _)

theorem IsPing.four {rest : Bytes} (ping : IsPing rest) : 4 ≤ rest.length := by
  have four := congrArg List.length ping
  rw [List.length_map, List.length_take] at four
  simp only [List.length_cons, List.length_nil] at four
  omega

theorem IsPing.head {rest : Bytes} (ping : IsPing rest) : ∃ b line, rest = b :: line ∧ b ≠ 13 ∧ b ≠ 42 := by
  cases rest with
  | nil => cases ping
  | cons b line =>
    have first : toLower b = 112 := by
      simp only [IsPing, List.take_succ_cons, List.map_cons, List.cons.injEq] at ping
      exact ping.1
    refine ⟨b, line, rfl, ?_, ?_⟩
    all_goals
      rintro rfl
      revert first
      decide

theorem IsPing.append {rest : Bytes} (ping : IsPing rest) (more : Bytes) : IsPing (rest ++ more) := by
  have four := ping.four
  unfold IsPing
  rw [List.take_append_of_le_length four]
  exact ping

namespace Scan

variable {p next : Scan} {rest more : Bytes} {n : Nat} {items : List Item}

section Prefixes

theorem turnArrayLen_star (p : Scan) (line : Bytes) : p.turnArrayLen (42 :: line) =
    lineTurn (42 :: line) fun val used =>
      match argvEnsure p.argvCap val with
      | none => .hangs
      | some newcap =>
        .takes (1 + used) { p with argcExpected := val, lens := [], args := [], argvCap := newcap, state := .bulkLen } [] := by
  simp [turnArrayLen]

theorem turnArrayLen_inline (p : Scan) {b : UInt8} (noReturn : b ≠ 13) (noStar : b ≠ 42) (line : Bytes) :
    p.turnArrayLen (b :: line) =
      if IsPing (b :: line) then
        .takes (4 + (((b :: line).drop 4).takeWhile fun b => b = 13 || b = 10).length)
          { p with enqueued := p.enqueued + 1 } [.pong]
      else .dies := by
  simp [turnArrayLen, noReturn, noStar]

theorem turnArrayLen_append (some : rest ≠ []) (ready : p.turnArrayLen rest ≠ .waits) (noPing : ¬IsPing (rest ++ more)) :
    p.turnArrayLen (rest ++ more) = p.turnArrayLen rest := by
  obtain ⟨b, rest, rfl⟩ := List.exists_cons_of_ne_nil some
  by_cases star : b = 42
  · subst star
    rw [turnArrayLen_star] at ready ⊢
    rw [List.cons_append, turnArrayLen_star, ← List.cons_append]
    exact lineTurn_append some more ready
  by_cases return_ : b = 13
  · subst return_
    cases rest with
    | nil => simp [turnArrayLen] at ready
    | cons b' rest => simp [turnArrayLen]
  · have noPing' : ¬IsPing (b :: rest) := fun ping => noPing (ping.append more)
    rw [turnArrayLen_inline p return_ star, if_neg noPing', List.cons_append, turnArrayLen_inline p return_ star]
    exact if_neg noPing

theorem turnArrayLen_waits (some : rest ≠ []) (waits : p.turnArrayLen rest = .waits)
    (takes : p.turnArrayLen (rest ++ more) = .takes n next items) : rest.length < n := by
  obtain ⟨b, rest, rfl⟩ := List.exists_cons_of_ne_nil some
  by_cases star : b = 42
  · subst star
    rw [turnArrayLen_star] at waits
    rw [List.cons_append, turnArrayLen_star, ← List.cons_append] at takes
    refine lineTurn_waits some waits (fun val used => ?_) (fun val used => ?_) takes
    · split <;> simp
    · split
      · simp
      · intro same
        cases same
        rfl
  by_cases return_ : b = 13
  · subst return_
    cases rest with
    | nil =>
      rw [turnArrayLen] at takes
      split at takes
      · cases takes
        simp
      · simp at takes
    | cons b' rest =>
      by_cases feed : b' = 10
      · simp [turnArrayLen, feed] at waits
      · simp [turnArrayLen, feed] at takes
  · rw [turnArrayLen_inline p return_ star] at waits
    split at waits <;> cases waits

theorem head_append (some : rest ≠ []) (more : Bytes) : (rest ++ more).head? = rest.head? := by
  obtain ⟨b, rest, rfl⟩ := List.exists_cons_of_ne_nil some
  rfl

theorem turnBulkLen_append (some : rest ≠ []) (ready : p.turnBulkLen rest ≠ .waits) :
    p.turnBulkLen (rest ++ more) = p.turnBulkLen rest := by
  unfold turnBulkLen at ready ⊢
  rw [head_append some]
  split
  · rfl
  next dollar =>
    rw [if_neg dollar] at ready
    exact lineTurn_append some more ready

theorem turnBulkLen_waits (some : rest ≠ []) (waits : p.turnBulkLen rest = .waits)
    (takes : p.turnBulkLen (rest ++ more) = .takes n next items) : rest.length < n := by
  unfold turnBulkLen at waits takes
  rw [head_append some] at takes
  split at waits
  · cases waits
  next dollar =>
    rw [if_neg dollar] at takes
    refine lineTurn_waits some waits (fun val used => by simp) (fun val used same => ?_) takes
    cases same
    rfl

theorem need_of_bounded (bounded : toSize p.bulkLen < 2 ^ 31) : p.need = toSize p.bulkLen + 2 :=
  Nat.mod_eq_of_lt (by omega)

theorem collected_append (room : p.need ≤ rest.length) : p.collected (rest ++ more) = p.collected rest := by
  unfold collected
  by_cases bounded : toSize p.bulkLen < 2 ^ 31
  · rw [need_of_bounded bounded] at room
    rw [List.take_append_of_le_length (by omega)]
  · simp only [if_neg bounded]

theorem turnBulkData_append (ready : p.turnBulkData rest ≠ .waits) :
    p.turnBulkData (rest ++ more) = p.turnBulkData rest := by
  unfold turnBulkData at ready ⊢
  split at ready
  · exact absurd rfl ready
  next room =>
    have longer : ¬(rest ++ more).length < p.need := by
      rw [List.length_append]
      omega
    rw [if_neg room, if_neg longer, collected_append (Nat.le_of_not_lt room)]

theorem complete_takes {m : Nat} (takes : p.complete m = .takes n next items) :
    n = m ∧ next = { p.reset with enqueued := p.enqueued + 1 } ∧ items = [p.item] := by
  unfold complete at takes
  split at takes
  · cases takes
  · cases takes
    exact ⟨rfl, rfl, rfl⟩

theorem turnBulkData_takes (takes : p.turnBulkData rest = .takes n next items) :
    n = p.need ∧ p.need ≤ rest.length ∧ next.state ≠ .bulkData := by
  unfold turnBulkData at takes
  split at takes
  · cases takes
  next room =>
    split at takes
    · obtain ⟨rfl, rfl, -⟩ := complete_takes takes
      exact ⟨rfl, Nat.le_of_not_lt room, by simp [reset]⟩
    · cases takes
      exact ⟨rfl, Nat.le_of_not_lt room, by simp⟩

theorem turnBulkData_waits (waits : p.turnBulkData rest = .waits)
    (takes : p.turnBulkData (rest ++ more) = .takes n next items) : rest.length < n := by
  obtain ⟨rfl, -⟩ := turnBulkData_takes takes
  unfold turnBulkData complete at waits
  split at waits
  next short => exact short
  · split at waits <;> try split at waits
    all_goals cases waits

theorem turn_append (some : rest ≠ []) (ready : p.turn rest ≠ .waits)
    (noPing : p.state = .arrayLen → ¬IsPing (rest ++ more)) : p.turn (rest ++ more) = p.turn rest := by
  unfold turn at ready ⊢
  cases state : p.state with
  | arrayLen =>
    rw [state] at ready
    exact turnArrayLen_append some ready (noPing state)
  | bulkLen =>
    rw [state] at ready
    exact turnBulkLen_append some ready
  | bulkData =>
    rw [state] at ready
    exact turnBulkData_append ready

theorem turn_waits_append (some : rest ≠ []) (waits : p.turn rest = .waits)
    (takes : p.turn (rest ++ more) = .takes n next items) : rest.length < n := by
  unfold turn at waits takes
  cases state : p.state with
  | arrayLen =>
    rw [state] at waits takes
    exact turnArrayLen_waits some waits takes
  | bulkLen =>
    rw [state] at waits takes
    exact turnBulkLen_waits some waits takes
  | bulkData =>
    rw [state] at waits takes
    exact turnBulkData_waits waits takes

end Prefixes

section Progress

theorem lineTurn_takes {f : Int → Nat → Turn} (takes : lineTurn rest f = .takes n next items) :
    ∃ val used, f val used = .takes n next items ∧ 1 + used ≤ rest.length := by
  unfold lineTurn at takes
  split at takes
  · cases takes
  next val used number =>
    have bounds := Conn.readNumber_used number
    rw [List.length_tail] at bounds
    exact ⟨val, used, takes, by omega⟩

theorem turnArrayLen_takes (takes : p.turnArrayLen rest = .takes n next items) : 0 < n ∧ n ≤ rest.length := by
  unfold turnArrayLen at takes
  split at takes
  next crlf =>
    have two := congrArg List.length crlf
    simp only [List.length_take, List.length_cons, List.length_nil] at two
    cases takes
    omega
  · split at takes
    · cases takes
    · split at takes
      · split at takes
        next ping =>
          have four := ping.four
          have blank : ((rest.drop 4).takeWhile fun b => b = 13 || b = 10).length ≤ (rest.drop 4).length :=
            (List.takeWhile_sublist _).length_le
          rw [List.length_drop] at blank
          cases takes
          omega
        · cases takes
      · obtain ⟨val, used, same, inside⟩ := lineTurn_takes takes
        split at same
        · cases same
        · cases same
          omega

theorem turnBulkLen_takes (takes : p.turnBulkLen rest = .takes n next items) : 0 < n ∧ n ≤ rest.length := by
  unfold turnBulkLen at takes
  split at takes
  · cases takes
  · obtain ⟨val, used, same, inside⟩ := lineTurn_takes takes
    cases same
    omega

theorem work_drop_lt (some : 0 < n) (inside : n ≤ rest.length) : next.work (rest.drop n) < p.work rest := by
  unfold work
  rw [List.length_drop]
  split <;> split <;> omega

theorem turn_takes (takes : p.turn rest = .takes n next items) :
    n ≤ rest.length ∧ next.work (rest.drop n) < p.work rest := by
  unfold turn at takes
  cases state : p.state with
  | arrayLen =>
    rw [state] at takes
    obtain ⟨some, inside⟩ := turnArrayLen_takes takes
    exact ⟨inside, work_drop_lt some inside⟩
  | bulkLen =>
    rw [state] at takes
    obtain ⟨some, inside⟩ := turnBulkLen_takes takes
    exact ⟨inside, work_drop_lt some inside⟩
  | bulkData =>
    rw [state] at takes
    obtain ⟨rfl, inside, other⟩ := turnBulkData_takes takes
    refine ⟨inside, ?_⟩
    rw [work, work, if_pos state, if_neg other, List.length_drop]
    omega

theorem reads_scanFor {fuel : Nat} (enough : p.work rest < fuel) :
    Reads p rest (scanFor fuel p rest).1 (scanFor fuel p rest).2 := by
  induction fuel generalizing p rest with
  | zero => omega
  | succ fuel ih =>
    rw [scanFor]
    split
    next none =>
      subst none
      exact .empty
    next some =>
      split
      next waits => exact .waits some waits
      next dies => exact .dies some dies
      next hangs => exact .hangs some hangs
      next takes =>
        have less := (turn_takes takes).2
        exact .takes some takes (ih (by omega))

theorem reads_requests (stream : Bytes) : ∃ status, Reads start stream (requests stream) status :=
  ⟨_, reads_scanFor (Nat.lt_succ_self _)⟩

end Progress

section Cuts

theorem turn_ping (state : p.state = .arrayLen) (ping : IsPing rest) : ∃ n next, p.turn rest = .takes n next [.pong] := by
  obtain ⟨b, line, rfl, noReturn, noStar⟩ := ping.head
  rw [turn, state]
  simp only
  rw [turnArrayLen_inline p noReturn noStar, if_pos ping]
  exact ⟨_, _, rfl⟩

theorem item_ne_pong (p : Scan) : p.item ≠ .pong := by
  unfold item
  split <;> simp

theorem pong_mem (takes : p.turn rest = .takes n next items) (pong : .pong ∈ items) :
    p.state = .arrayLen ∧ IsPing rest := by
  unfold turn at takes
  cases state : p.state with
  | arrayLen =>
    rw [state] at takes
    refine ⟨rfl, ?_⟩
    by_contra noPing
    simp only [turnArrayLen, if_neg noPing] at takes
    split at takes
    · cases takes
      simp at pong
    · split at takes
      · cases takes
      · split at takes
        · cases takes
        · obtain ⟨val, used, same, -⟩ := lineTurn_takes takes
          split at same
          · cases same
          · cases same
            simp at pong
  | bulkLen =>
    rw [state] at takes
    simp only [turnBulkLen] at takes
    split at takes
    · cases takes
    · obtain ⟨val, used, same, -⟩ := lineTurn_takes takes
      cases same
      simp at pong
  | bulkData =>
    rw [state] at takes
    simp only [turnBulkData] at takes
    split at takes
    · cases takes
    · split at takes
      · obtain ⟨-, -, rfl⟩ := complete_takes takes
        exact absurd (List.mem_singleton.1 pong).symm (item_ne_pong _)
      · cases takes
        simp at pong

theorem turn_cut (state : p.state = .arrayLen) (ping : IsPing rest) : p.turn (rest.take 3) = .dies := by
  have short : ¬IsPing (rest.take 3) := by
    intro again
    have four := again.four
    rw [List.length_take] at four
    omega
  obtain ⟨b, line, rfl, noReturn, noStar⟩ := ping.head
  rw [turn, state]
  rw [List.take_succ_cons] at short ⊢
  simp only
  rw [turnArrayLen_inline p noReturn noStar, if_neg short]

theorem turn_take {k : Nat} (some : rest.take (n + k) ≠ []) (takes : p.turn rest = .takes n next items)
    (noPong : .pong ∉ items) : p.turn (rest.take (n + k)) = .takes n next items := by
  have inside := (turn_takes takes).1
  rw [← List.take_append_drop (n + k) rest] at takes
  have ready : p.turn (rest.take (n + k)) ≠ .waits := by
    intro waits
    have beyond := turn_waits_append some waits takes
    rw [List.length_take] at beyond
    omega
  rw [← turn_append some ready, takes]
  intro state ping
  obtain ⟨n', next', ponged⟩ := turn_ping state ping
  rw [takes] at ponged
  cases ponged
  simp at noPong

theorem Reads.cut {status : Status} (reads : Reads p rest items status) (pong : .pong ∈ items) :
    ∃ k before, Reads p (rest.take k) before .dead ∧ .pong ∉ before := by
  induction reads with
  | empty => simp at pong
  | waits => simp at pong
  | dies => simp at pong
  | hangs => simp at pong
  | @takes p next rest n items more status some takes reads ih =>
    by_cases here : .pong ∈ items
    · obtain ⟨state, ping⟩ := pong_mem takes here
      have some' : rest.take 3 ≠ [] := by
        have four := ping.four
        rw [← List.length_pos_iff, List.length_take]
        omega
      exact ⟨3, [], .dies some' (turn_cut state ping), by simp⟩
    · obtain ⟨k, before, cut, silent⟩ := ih ((List.mem_append.1 pong).resolve_left here)
      have dropped : (rest.take (n + k)).drop n = (rest.drop n).take k := by
        rw [List.drop_take, Nat.add_sub_cancel_left]
      have some' : rest.take (n + k) ≠ [] := by
        intro none
        rw [← dropped, none, List.drop_nil] at cut
        cases cut with
        | dies some => exact some rfl
        | takes some => exact some rfl
      refine ⟨n + k, items ++ before, .takes some' (turn_take some' takes here) ?_, by simp [here, silent]⟩
      rw [dropped]
      exact cut

variable {status : Status}

theorem Reads.of_dies (reads : Reads p rest items status) (dies : p.turn rest = .dies) (some : rest ≠ []) :
    items = [] ∧ status = .dead := by
  cases reads with
  | empty => exact absurd rfl some
  | dies => exact ⟨rfl, rfl⟩
  | waits _ turn | hangs _ turn | takes _ turn =>
    rw [dies] at turn
    cases turn

theorem Reads.of_hangs (reads : Reads p rest items status) (hangs : p.turn rest = .hangs) (some : rest ≠ []) :
    items = [] ∧ status = .hung := by
  cases reads with
  | empty => exact absurd rfl some
  | hangs => exact ⟨rfl, rfl⟩
  | waits _ turn | dies _ turn | takes _ turn =>
    rw [hangs] at turn
    cases turn

theorem Reads.of_waits (reads : Reads p rest items status) (waits : rest = [] ∨ p.turn rest = .waits) :
    items = [] ∧ status = .alive := by
  cases reads with
  | empty | waits => exact ⟨rfl, rfl⟩
  | dies some turn | hangs some turn | takes some turn =>
    rw [turn] at waits
    simp [some] at waits

theorem Reads.of_takes {made : List Item} (reads : Reads p rest items status) (takes : p.turn rest = .takes n next made)
    (some : rest ≠ []) : ∃ later, items = made ++ later ∧ Reads next (rest.drop n) later status := by
  cases reads with
  | empty => exact absurd rfl some
  | waits _ turn | dies _ turn | hangs _ turn =>
    rw [takes] at turn
    cases turn
  | takes _ turn reads =>
    rw [takes] at turn
    cases turn
    exact ⟨_, rfl, reads⟩

theorem Reads.turn_eq (reads : Reads p (rest ++ more) items status) (some : rest ≠ []) (ready : p.turn rest ≠ .waits)
    (plain : more = [] ∨ .pong ∉ items) : p.turn (rest ++ more) = p.turn rest := by
  rcases plain with rfl | noPong
  · rw [List.append_nil]
  · refine turn_append some ready fun state ping => noPong ?_
    obtain ⟨n, next, ponged⟩ := turn_ping state ping
    obtain ⟨later, rfl, -⟩ := reads.of_takes ponged (by simp [some])
    simp

end Cuts

end Scan

end FreakV.Resp
