import FreakV.Resp.Boundaries
import FreakV.Resp.Encoding

namespace FreakV.Resp

structure Plenty (env : Env) : Prop where
  buf : ∀ n, env.bufAlloc n = true
  argv : ∀ n, env.argvAlloc n = true
  slot : ∀ n, env.slotAlloc n = true
  flows : ∀ n, env.fate n ≠ .paused

theorem Plenty.supplied {env : Env} (plenty : Plenty env) : Supplied env := ⟨plenty.buf, plenty.argv, plenty.slot⟩

def Encodable (args : List Bytes) : Prop := args ≠ [] ∧ args.length < 2 ^ 30 ∧ ∀ a ∈ args, a.length < 2 ^ 30

-- The capacities that resp_argv_ensure goes through.
def PowCap (cap : Int) : Prop := cap = 0 ∨ ∃ i, i ≤ 30 ∧ cap = 2 ^ i

theorem toInt_double {i : Nat} (below : i < 30) : toInt (2 ^ i * 2) = 2 ^ (i + 1) := by
  have fits : 2 ^ (i + 1) < 2 ^ 31 := Nat.pow_lt_pow_right (by norm_num) (by omega)
  have exact_val := toInt_of_small fits
  push_cast at exact_val
  rw [← pow_succ, exact_val]

theorem lt_of_pow_lt {i : Nat} {needed : Int} (within : i ≤ 30) (less : 2 ^ i < needed) (small : needed ≤ 2 ^ 30) :
    i < 30 := by
  by_contra top
  rw [show i = 30 by omega] at less
  omega

theorem doubleUntil_pow {fuel i : Nat} {needed : Int} (within : i ≤ 30) (enough : 30 < i + fuel) (small : needed ≤ 2 ^ 30) :
    ∃ j, j ≤ 30 ∧ doubleUntil fuel (2 ^ i) needed = some (2 ^ j) := by
  induction fuel generalizing i with
  | zero => omega
  | succ fuel ih =>
    rw [doubleUntil]
    split
    next less =>
      have below := lt_of_pow_lt within less small
      rw [toInt_double below]
      exact ih (by omega) (by omega)
    · exact ⟨i, within, rfl⟩

theorem PowCap.ensure {cap needed : Int} (pow : PowCap cap) (small : needed ≤ 2 ^ 30) :
    ∃ newcap, argvEnsure cap needed = some newcap ∧ PowCap newcap := by
  unfold argvEnsure
  split
  · exact ⟨cap, rfl, pow⟩
  next more =>
    rcases pow with rfl | ⟨i, within, rfl⟩
    · obtain ⟨j, bound, found⟩ := doubleUntil_pow (show 3 ≤ 30 by norm_num) (show 30 < 3 + 33 by norm_num) small
      exact ⟨2 ^ j, by simpa using found, .inr ⟨j, bound, rfl⟩⟩
    · have below := lt_of_pow_lt within (by omega) small
      have positive : (2 : Int) ^ i ≠ 0 := by positivity
      obtain ⟨j, bound, found⟩ := doubleUntil_pow (show i + 1 ≤ 30 by omega) (show 30 < i + 1 + 33 by omega) small
      rw [if_pos positive, toInt_double below]
      exact ⟨2 ^ j, found, .inr ⟨j, bound, rfl⟩⟩

namespace Scan

variable {p : Scan} {args : List Bytes} {tail : Bytes} {items : List Item} {status : Status}

def filled (p : Scan) (args : List Bytes) : Scan :=
  { p with lens := p.lens ++ args.map List.length, args := p.args ++ args, bulkLen := 0, state := .bulkData }

inductive Completes (p : Scan) (tail : Bytes) : List Item → Status → Prop
  | dies (last : p.enqueued % 2 ^ 32 = 2 ^ 32 - 1) : Completes p tail [] .dead
  | goes {items : List Item} {status : Status} (more : p.enqueued % 2 ^ 32 ≠ 2 ^ 32 - 1)
      (reads : Reads { p.reset with enqueued := p.enqueued + 1 } tail items status) : Completes p tail (p.item :: items) status

theorem lineTurn_decimal {n : Nat} (small : n < 2 ^ 31) (tag : UInt8) (rest : Bytes) (next : Int → Nat → Turn) :
    lineTurn (tag :: (decimal n ++ 13 :: 10 :: rest)) next = next n ((decimal n).length + 2) := by
  rw [lineTurn, List.tail_cons, readNumber_decimal small]

theorem drop_line (tag : UInt8) (n : Nat) (rest : Bytes) :
    (tag :: (decimal n ++ 13 :: 10 :: rest)).drop (1 + ((decimal n).length + 2)) = rest := by
  rw [Nat.add_comm, List.drop_succ_cons, ← List.drop_drop, List.drop_left]
  rfl

theorem Completes.reads_args (state : p.state = .bulkLen) (nonempty : args ≠ [])
    (expected : p.argcExpected = p.lens.length + args.length) (short : ∀ a ∈ args, a.length < 2 ^ 30)
    (completes : Completes (p.filled args) tail items status) : Reads p (encodeArgs args ++ tail) items status := by
  induction args generalizing p with
  | nil => exact absurd rfl nonempty
  | cons arg args ih =>
    have small : arg.length < 2 ^ 30 := short arg (by simp)
    have size : toSize arg.length = arg.length := by
      have exact_val := Conn.toSize_of_nonneg (x := arg.length) (by omega) (by omega)
      omega
    have need : need { p with bulkLen := arg.length, state := .bulkData } = arg.length + 2 := by
      rw [Scan.need, size]
      exact Nat.mod_eq_of_lt (by omega)
    have stream : encodeArgs (arg :: args) ++ tail =
        36 :: (decimal arg.length ++ 13 :: 10 :: (arg ++ 13 :: 10 :: (encodeArgs args ++ tail))) := by
      simp [encodeArgs_cons]
    have line : p.turn (encodeArgs (arg :: args) ++ tail) = .takes (1 + ((decimal arg.length).length + 2))
        { p with bulkLen := arg.length, state := .bulkData } [] := by
      rw [stream, turn, state]
      simp only [turnBulkLen, List.head?_cons, ne_eq, not_true_eq_false, if_false]
      rw [lineTurn_decimal (by omega)]
    have room : ¬(arg ++ 13 :: 10 :: (encodeArgs args ++ tail)).length < arg.length + 2 := by simp
    have collected : collected { p with bulkLen := arg.length, state := .bulkData } (arg ++ 13 :: 10 :: (encodeArgs args ++ tail)) =
        { p with lens := p.lens ++ [arg.length], args := p.args ++ [arg], bulkLen := arg.length, state := .bulkData } := by
      simp only [Scan.collected, size, if_pos (show arg.length < 2 ^ 31 by omega), List.take_left]
    have dropped : (arg ++ 13 :: 10 :: (encodeArgs args ++ tail)).drop (arg.length + 2) = encodeArgs args ++ tail := by
      rw [← List.drop_drop, List.drop_left]
      rfl
    have some : arg ++ 13 :: 10 :: (encodeArgs args ++ tail) ≠ [] := by simp
    have data : turn { p with bulkLen := arg.length, state := .bulkData } (arg ++ 13 :: 10 :: (encodeArgs args ++ tail)) =
        turnBulkData _ _ := rfl
    rw [turnBulkData, need, if_neg room, collected] at data
    rw [← List.nil_append items]
    refine .takes (by rw [stream]; simp) line ?_
    rw [stream, drop_line]
    cases args with
    | nil =>
      rw [if_pos (by simp [expected]), complete] at data
      cases completes with
      | dies last =>
        rw [if_pos (by exact last)] at data
        exact .dies some data
      | goes more reads =>
        rw [if_neg (by exact more)] at data
        refine .takes some data ?_
        rw [dropped]
        exact reads
    | cons next args =>
      rw [if_neg (by simp [expected])] at data
      rw [← List.nil_append items]
      refine .takes some data ?_
      rw [dropped]
      refine ih rfl (by simp) ?_ (fun a member => short a (by simp [member])) ?_
      · simp [expected]
        omega
      · simpa [filled] using completes

theorem only_commands {cmds : List (List Bytes)} {item : Item} (other : ∀ args, item ≠ .command args) :
    item ∉ cmds.map Item.command := by
  intro member
  obtain ⟨args, -, rfl⟩ := List.mem_map.1 member
  exact other args rfl

theorem reads_encode {cmds : List (List Bytes)} (encodable : ∀ args ∈ cmds, Encodable args) (state : p.state = .arrayLen)
    (cap : PowCap p.argvCap) (few : p.enqueued < 2 ^ 32) : ∃ status, status ≠ .hung ∧
      Reads p (encode cmds) ((cmds.take (2 ^ 32 - 1 - p.enqueued)).map .command) status ∧
      (status = .dead ↔ 2 ^ 32 ≤ p.enqueued + cmds.length) := by
  induction cmds generalizing p with
  | nil => exact ⟨.alive, by simp, by simpa [encode] using Reads.empty, by simp; omega⟩
  | cons args cmds ih =>
    obtain ⟨nonempty, count, short⟩ := encodable args (by simp)
    obtain ⟨newcap, ensured, pow⟩ := cap.ensure (show (args.length : Int) ≤ 2 ^ 30 by omega)
    let first : Scan := { p with argcExpected := args.length, lens := [], args := [], argvCap := newcap, state := .bulkLen }
    have line : p.turn (encode (args :: cmds)) = .takes (1 + ((decimal args.length).length + 2)) first [] := by
      rw [encode_cons, turn, state]
      simp only
      rw [turnArrayLen_star, lineTurn_decimal (by omega), ensured]
    have whole {items : List Item} {status : Status} (completes : Completes (first.filled args) (encode cmds) items status) :
        Reads p (encode (args :: cmds)) items status := by
      rw [← List.nil_append items]
      refine .takes (by simp [encode_cons]) line ?_
      rw [encode_cons, drop_line]
      exact completes.reads_args rfl nonempty (by simp [first]) short
    have number : (first.filled args).enqueued % 2 ^ 32 = p.enqueued := Nat.mod_eq_of_lt few
    by_cases last : p.enqueued = 2 ^ 32 - 1
    · refine ⟨.dead, by simp, ?_, by simp; omega⟩
      simpa [last] using whole (.dies (number.trans last))
    · obtain ⟨status, noHang, reads, dead⟩ := ih (fun args member => encodable args (by simp [member]))
        (p := { (first.filled args).reset with enqueued := p.enqueued + 1 }) rfl pow (by simp; omega)
      have item : (first.filled args).item = .command args := by
        have bounded : ∀ n ∈ (first.filled args).lens, n < 2 ^ 31 := by
          intro n member
          obtain ⟨a, inside, rfl⟩ := List.mem_map.1 (show n ∈ args.map List.length by simpa [first, filled] using member)
          have := short a inside
          omega
        rw [Scan.item, if_pos bounded]
        simp [first, filled]
      have completed := whole (.goes (number.trans_ne last) reads)
      rw [item] at completed
      refine ⟨status, noHang, ?_, by rw [dead]; simp; omega⟩
      rw [show 2 ^ 32 - 1 - p.enqueued = 2 ^ 32 - 1 - (p.enqueued + 1) + 1 by omega, List.take_succ_cons, List.map_cons]
      exact completed

end Scan

namespace Conn

variable {env : Env} {c c' : Conn} {items : List Item} {status : Status}

def serve (env : Env) : List (List Bytes) → Conn → Option (Conn × List Event)
  | [], c => some (c, [])
  | reads :: calls, c =>
    if c.status = .dead then some (c, [])
    else
      (c.handleRead env reads .drained).bind fun (c, events) =>
        (serve env calls c).map fun (c, later) => (c, events ++ later)

theorem Stands.serve {calls : List (List Bytes)} {events : List Event} (plenty : Plenty env) (noHang : status ≠ .hung)
    (stands : Stands env calls.flatten.flatten items status c) (noPong : .pong ∉ items)
    (served : serve env calls c = some (c', events)) :
    ∃ left, items = itemsOf events ++ left ∧ Stands env [] left status c' := by
  induction calls generalizing c items events with
  | nil =>
    cases served
    exact ⟨items, rfl, stands⟩
  | cons reads calls ih =>
    have rests := stands.rests plenty.flows
    cases stands with
    | finished ended closed none =>
      have dead : c.status = .dead := by
        rw [ended]
        cases status <;> simp_all
      rw [Conn.serve, if_pos dead] at served
      cases served
      exact ⟨items, rfl, .finished ended closed none⟩
    | going follows scans =>
      rw [Conn.serve, if_neg (by simp [follows.alive])] at served
      obtain ⟨⟨c₁, events₁⟩, handled, went⟩ := Option.bind_eq_some_iff.1 served
      obtain ⟨⟨c₂, later⟩, rested, same⟩ := Option.map_eq_some_iff.1 went
      cases same
      rw [List.flatten_cons, List.flatten_append] at scans
      obtain ⟨left, rfl, stands₁⟩ := follows.handleRead plenty.supplied scans (.inr noPong) handled
      obtain ⟨left', rfl, stands₂⟩ := ih stands₁ (fun member => noPong (by simp [member])) rested
      exact ⟨left', by rw [itemsOf_append, List.append_assoc], stands₂⟩

theorem serve_accept {cmds : List (List Bytes)} {calls : List (List Bytes)} {events : List Event} (plenty : Plenty env)
    (encodable : ∀ args ∈ cmds, Encodable args) (cut : calls.flatten.flatten = encode cmds)
    (served : serve env calls accept = some (c', events)) :
    commands events = cmds.take (2 ^ 32 - 1) ∧ (c'.status = .dead ↔ 2 ^ 32 ≤ cmds.length) := by
  obtain ⟨status, noHang, reads, dead⟩ := Scan.reads_encode (p := .start) encodable rfl (.inl rfl) (by decide)
  have stands : Stands env calls.flatten.flatten _ status accept := cut ▸ Stands.accept reads
  obtain ⟨left, made, stands'⟩ := stands.serve plenty noHang (Scan.only_commands (by simp)) served
  obtain ⟨rfl, ended⟩ := stands'.done (stands'.rests plenty.flows)
  rw [List.append_nil] at made
  have measured : ∀ e ∈ events, e.Measured := measured_iff.2 (made ▸ Scan.only_commands (by simp))
  refine ⟨?_, by rw [ended, dead]; simp [Scan.start]⟩
  rw [commands_eq measured, ← made, List.filterMap_map]
  exact List.filterMap_some

theorem serve_decodes (env : Env) {cmds : List (List Bytes)} {calls : List (List Bytes)} {events : List Event}
    (plenty : Plenty env) (encodable : ∀ args ∈ cmds, Encodable args) (cut : calls.flatten.flatten = encode cmds)
    (served : serve env calls accept = some (c', events)) : commands events = cmds ↔ cmds.length < 2 ^ 32 := by
  rw [(serve_accept plenty encodable cut served).1]
  constructor
  · intro whole
    have length := congrArg List.length whole
    rw [List.length_take] at length
    omega
  · intro few
    exact List.take_of_length_le (by omega)

theorem plenty_plentiful : Plenty (plentiful fun _ => .answered) :=
  ⟨fun _ => rfl, fun _ => rfl, fun _ => rfl, by simp [plentiful]⟩

def getThenPing : List (List Bytes) := [[[71, 69, 84], [107]], [[80, 73, 78, 71]]]

def getThenPingCut : List (List Bytes) :=
  [[[42, 50, 13, 10, 36], [51, 13, 10, 71, 69, 84, 13]], [[10, 36, 49, 13, 10, 107, 13, 10, 42]],
    [[49, 13, 10, 36, 52, 13, 10, 80], [73, 78, 71, 13, 10]]]

theorem serve_decodes_get_ping : ∃ c events, serve (plentiful fun _ => .answered) getThenPingCut accept = some (c, events) ∧
    commands events = getThenPing := by
  have ran : (serve (plentiful fun _ => .answered) getThenPingCut accept).isSome := by decide +kernel
  obtain ⟨⟨c, events⟩, served⟩ := Option.isSome_iff_exists.1 ran
  refine ⟨c, events, served, (serve_decodes _ plenty_plentiful ?_ ?_ served).2 (by decide)⟩
  · simp [getThenPing, Encodable]
  · decide +kernel

theorem Stands.serve_bytes {bytes : Bytes} (plenty : Plenty env) (noHang : status ≠ .hung) (noPong : .pong ∉ items)
    (stands : Stands env bytes items status c) : (Conn.serve env (bytes.map fun b => [[b]]) c).isSome := by
  induction bytes generalizing c items with
  | nil => rfl
  | cons b bytes ih =>
    have rests := stands.rests plenty.flows
    rw [List.map_cons, Conn.serve]
    split
    · rfl
    next alive =>
      cases stands with
      | finished ended closed none =>
        rw [ended] at alive
        cases status <;> simp_all
      | going follows scans =>
        have idle : c.pending = false := rests.resolve_left (by simp [follows.alive])
        obtain ⟨c₁, events, handled⟩ := handleRead_pieces plenty.buf [b] follows.alive idle
        obtain ⟨left, rfl, stands₁⟩ := follows.handleRead plenty.supplied (by simpa [pieces] using scans) (.inr noPong) handled
        rw [show [[b]] = pieces [b] from rfl, handled]
        simpa using ih (fun member => noPong (by simp [member])) stands₁

def manyPings : List (List Bytes) := List.replicate (2 ^ 32) [[80, 73, 78, 71]]

theorem serve_replicate (n : Nat) {args : List Bytes} (encodable : Encodable args) :
    ∃ c events, serve (plentiful fun _ => .answered) ((encode (List.replicate n args)).map fun b => [[b]]) accept =
      some (c, events) ∧ (commands events).length = min (2 ^ 32 - 1) n ∧ (c.status = .dead ↔ 2 ^ 32 ≤ n) := by
  have all : ∀ a ∈ List.replicate n args, Encodable a := fun a member => List.eq_of_mem_replicate member ▸ encodable
  obtain ⟨status, noHang, reads, -⟩ := Scan.reads_encode (p := .start) all rfl (.inl rfl) (by decide)
  have ran := (Stands.accept reads).serve_bytes plenty_plentiful noHang (Scan.only_commands (by simp))
  obtain ⟨⟨c, events⟩, served⟩ := Option.isSome_iff_exists.1 ran
  have cut : ((encode (List.replicate n args)).map fun b => [[b]]).flatten.flatten = encode (List.replicate n args) := by
    generalize encode (List.replicate n args) = bytes
    induction bytes with
    | nil => rfl
    | cons b bytes ih => simpa using ih
  obtain ⟨taken, dead⟩ := serve_accept plenty_plentiful all cut served
  refine ⟨c, events, served, ?_, ?_⟩
  · rw [taken, List.length_take, List.length_replicate]
  · rwa [List.length_replicate] at dead

theorem serve_drops_last : ∃ c events,
    serve (plentiful fun _ => .answered) ((encode manyPings).map fun b => [[b]]) accept = some (c, events) ∧
      commands events ≠ manyPings ∧ c.status = .dead := by
  have encodable : Encodable [[80, 73, 78, 71]] := by simp [Encodable]
  obtain ⟨c, events, served, length, dead⟩ := serve_replicate (2 ^ 32) encodable
  refine ⟨c, events, served, fun same => ?_, dead.2 (Nat.le_refl _)⟩
  rw [same, manyPings, List.length_replicate] at length
  omega

end Conn

end FreakV.Resp
