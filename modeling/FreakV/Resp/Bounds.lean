import FreakV.Resp.Buffer
import FreakV.Lib.Transition

namespace FreakV.Resp

def writtenNumber (val : Nat) : Bytes → Option Nat
  | b :: c :: rest =>
    if 48 ≤ b then writtenNumber (val * 10 + (b.toNat - 48)) (c :: rest)
    else if b = 13 ∧ c = 10 then some val
    else none
  | _ => none

theorem toInt_of_small {n : Nat} (small : n < 2 ^ 31) : toInt n = n := by
  apply Int.bmod_eq_of_le <;> norm_num
  omega

theorem readNumber_from {n used u : Nat} {v : Int} {line : Bytes} (number : readNumber (toInt n) used line = some (v, u)) :
    ∃ m, writtenNumber n line = some m ∧ v = toInt m := by
  induction line generalizing n used with
  | nil => simp [readNumber] at number
  | cons b rest ih =>
    cases rest with
    | nil => simp [readNumber] at number
    | cons b' rest =>
      simp only [readNumber, writtenNumber] at number ⊢
      split
      next digit =>
        rw [if_pos digit] at number
        have step : toInt (toInt n * 10 + ((b.toNat : Int) - 48)) = toInt ((n * 10 + (b.toNat - 48) : Nat) : Int) := by
          have large : 48 ≤ b.toNat := digit
          unfold toInt
          rw [← Int.bmod_add_bmod, Int.bmod_mul_bmod, Int.bmod_add_bmod]
          congr 1
          omega
        rw [step] at number
        exact ih number
      next digit =>
        rw [if_neg digit] at number
        split at number
        next crlf =>
          rw [if_pos crlf]
          simp only [Option.some.injEq, Prod.mk.injEq] at number
          exact ⟨n, rfl, number.1.symm⟩
        · cases number

theorem readNumber_written {u : Nat} {v : Int} {line : Bytes} (number : readNumber 0 0 line = some (v, u)) :
    ∃ m, writtenNumber 0 line = some m ∧ v = toInt m := by
  have zero : toInt ((0 : Nat) : Int) = 0 := toInt_of_small (by norm_num)
  rw [← zero] at number
  exact readNumber_from number

theorem le_doubleUntil {fuel : Nat} {newcap needed cap : Int} (found : doubleUntil fuel newcap needed = some cap) :
    needed ≤ cap := by
  induction fuel generalizing newcap with
  | zero => cases found
  | succ fuel ih =>
    simp only [doubleUntil] at found
    split at found
    · exact ih found
    next enough =>
      cases found
      omega

theorem le_argvEnsure {argvCap needed cap : Int} (ensured : argvEnsure argvCap needed = some cap) : needed ≤ cap := by
  unfold argvEnsure at ensured
  split at ensured
  next enough =>
    cases ensured
    exact enough
  · exact le_doubleUntil ensured

def Event.Inside : Event → Prop
  | .store idx cap => (idx : Int) < cap
  | .dispatch argv _ nb received _ => ∀ s ∈ argv, s.buf = nb ∧ s.off + s.len ≤ received
  | .pong => True

namespace Conn

def LineFits (c : Conn) : Prop :=
  (c.state = .arrayLen → c.unread.head? = some 42 → ∀ n ∈ writtenNumber 0 c.unread.tail, 1 ≤ n ∧ n < 2 ^ 31) ∧
  (c.state = .bulkLen → c.unread.head? = some 36 → ∀ n ∈ writtenNumber 0 c.unread.tail, n < 2 ^ 31)

instance (c : Conn) : Decidable c.LineFits := by
  unfold LineFits
  infer_instance

def RoundsFit (env : Env) : Nat → Conn → Prop
  | 0, _ => True
  | fuel + 1, c => c.rbufParsed < c.rbufLen →
    c.LineFits ∧ ((c.parseRound env).again = true → RoundsFit env fuel (c.parseRound env).conn)

instance decidableRoundsFit (env : Env) : (fuel : Nat) → (c : Conn) → Decidable (c.RoundsFit env fuel)
  | 0, _ => isTrue trivial
  | fuel + 1, c =>
    have := decidableRoundsFit env fuel (c.parseRound env).conn
    inferInstanceAs (Decidable (c.rbufParsed < c.rbufLen →
      c.LineFits ∧ ((c.parseRound env).again = true → RoundsFit env fuel (c.parseRound env).conn)))

def ActFits (env : Env) (c : Conn) : Act → Prop
  | .read reads _ => ∀ c' ∈ c.readLoop env reads, c'.RoundsFit env (c'.work + 1)
  | .resume => True

instance (env : Env) (c : Conn) : (a : Act) → Decidable (c.ActFits env a)
  | .read reads _ => inferInstanceAs (Decidable (∀ c' ∈ c.readLoop env reads, c'.RoundsFit env (c'.work + 1)))
  | .resume => isTrue trivial

structure Bounded (c : Conn) : Prop where
  layout : c.Layout
  sized : c.Sized
  room : c.status = .alive → c.state ≠ .arrayLen → (c.argv.length : Int) < c.argvCap ∧ c.argcExpected ≤ c.argvCap

variable {env : Env} {c : Conn}

theorem Bounded.accept : Bounded accept := ⟨Layout.accept, by simp [Sized, Conn.accept], by simp [Conn.accept]⟩

theorem Extends.bounded {c' : Conn} {more : Bytes} (extended : c.Extends c' more) (bounded : c.Bounded) : c'.Bounded := by
  have length : c'.argv.length = c.argv.length := by
    have same := congrArg List.length extended.args
    simpa [Conn.args] using same
  refine ⟨extended.layout, ?_, ?_⟩
  · intro data
    rw [extended.bulkLen]
    exact bounded.sized (extended.state ▸ data)
  · intro alive array
    rw [length, extended.argvCap, extended.argcExpected]
    refine bounded.room ?_ (extended.state ▸ array)
    rcases extended.status with same | dead
    · exact same ▸ alive
    · rw [dead] at alive
      cases alive

structure InRange (round : Round) : Prop where
  bounded : round.conn.Bounded
  events : ∀ e ∈ round.events, e.Inside
  alive : round.again = true → round.conn.status = .alive

theorem Bounded.stop (bounded : c.Bounded) : InRange { conn := c, again := false } := ⟨bounded, by simp, by simp⟩

theorem Bounded.kill (bounded : c.Bounded) : InRange { conn := c.markDead, again := false } :=
  ⟨⟨bounded.layout.markDead, bounded.sized, fun alive => by cases alive⟩, by simp, by simp⟩

theorem pipelineEnqueue_same (env : Env) (c : Conn) :
    (c.pipelineEnqueue env).1 = { c with enqueued := (c.pipelineEnqueue env).1.enqueued } := by
  unfold pipelineEnqueue
  split <;> rfl

theorem parserReset_status (c : Conn) : c.parserReset.state = .arrayLen ∧ c.parserReset.status = c.status := by
  unfold parserReset
  split <;> simp

theorem Layout.complete_inRange (env : Env) (layout : c.Layout) (alive : c.status = .alive) (sized : c.Sized) :
    InRange (c.commandComplete env) := by
  have parses := layout.commandComplete env
  have same := pipelineEnqueue_same env c
  unfold Conn.commandComplete at parses ⊢
  generalize c.pipelineEnqueue env = result at parses same ⊢
  obtain ⟨c', seq⟩ := result
  simp only at same
  cases seq with
  | none =>
    have sized' : c'.markDead.Sized := by
      rw [same]
      exact sized
    exact ⟨⟨parses.layout, sized', fun alive => by cases alive⟩, by simp, by simp⟩
  | some seq =>
    obtain ⟨array, status⟩ := parserReset_status c'
    refine ⟨⟨parses.layout, ?_, ?_⟩, ?_, ?_⟩
    · intro data
      rw [array] at data
      cases data
    · intro _ other
      exact absurd array other
    · simp only [List.mem_singleton]
      rintro e rfl s member
      obtain ⟨here, -, fits⟩ := layout.args s member
      exact ⟨here, le_trans fits layout.parsed⟩
    · intro _
      rw [show c'.status = c.status by rw [same]] at status
      exact status.trans alive

theorem Bounded.bulkData (bounded : c.Bounded) (alive : c.status = .alive) (data : c.state = .bulkData) :
    InRange (c.parseBulkData env c.unread) := by
  obtain ⟨index, expected⟩ := bounded.room alive (by rw [data]; decide)
  have store : (Event.store c.argv.length c.argvCap).Inside := index
  rw [bounded.sized.parseBulkData data]
  split
  · exact bounded.stop
  next room =>
    have stored := bounded.layout.stored data (Nat.le_of_not_lt room)
    split
    · obtain ⟨bounded', events, alive'⟩ := stored.layout.complete_inRange env alive bounded.sized
      refine ⟨bounded', fun e member => ?_, alive'⟩
      rcases List.mem_cons.1 member with rfl | later
      · exact store
      · exact events e later
    next more =>
      have layout' := stored.layout
      refine ⟨⟨⟨layout'.filled, layout'.parsed, layout'.started, (fun state => by cases state), layout'.args⟩,
        (fun state => by cases state), fun _ _ => ⟨?_, expected⟩⟩, by simpa using store, fun _ => alive⟩
      change ((c.argv ++ [_]).length : Int) < c.argvCap
      rw [List.length_append, List.length_singleton]
      push_cast
      omega

theorem Bounded.bulkLen (bounded : c.Bounded) (alive : c.status = .alive) (length : c.state = .bulkLen)
    (fits : c.LineFits) : InRange (c.parseBulkLen c.unread) := by
  have parses := bounded.layout.parseBulkLen
  have room := bounded.room alive (by rw [length]; decide)
  unfold parseBulkLen at parses ⊢
  split
  · exact bounded.kill
  next dollar =>
    rw [if_neg dollar] at parses
    cases number : readNumber 0 0 c.unread.tail with
    | none => exact bounded.stop
    | some line =>
      obtain ⟨val, used⟩ := line
      simp only [number] at parses
      obtain ⟨n, written, value⟩ := readNumber_written number
      have small := fits.2 length (by simpa using dollar) n written
      rw [toInt_of_small small] at value
      refine ⟨⟨parses.layout, ?_, fun _ _ => room⟩, by simp, fun _ => alive⟩
      intro _
      change 0 ≤ val ∧ val < 2 ^ 31
      omega

theorem Bounded.inlinePing (bounded : c.Bounded) (alive : c.status = .alive) (fresh : c.state = .arrayLen) :
    InRange (c.inlinePing env c.unread) := by
  have parses := bounded.layout.inlinePing env fresh
  have same := pipelineEnqueue_same env c
  unfold Conn.inlinePing at parses ⊢
  generalize c.pipelineEnqueue env = result at parses same ⊢
  split
  next ping =>
    rw [if_pos ping] at parses
    have state : result.1.state = .arrayLen := by rw [same]; exact fresh
    have status : result.1.status = .alive := by rw [same]; exact alive
    refine ⟨⟨parses.layout, ?_, ?_⟩, by simp [Event.Inside], fun _ => status⟩
    · intro data
      rw [show _ = ParseState.arrayLen from state] at data
      cases data
    · intro _ other
      exact absurd state other
  · exact bounded.kill

theorem Bounded.arrayLen (bounded : c.Bounded) (alive : c.status = .alive) (fresh : c.state = .arrayLen)
    (fits : c.LineFits) : InRange (c.parseArrayLen env c.unread) := by
  have parses := bounded.layout.parseArrayLen env fresh
  have sized {c' : Conn} (state : c'.state = .arrayLen) : c'.Sized := by
    intro data
    rw [state] at data
    cases data
  have started : Bounded { c with cmdStart := c.rbufParsed } :=
    ⟨bounded.layout.start fresh, sized fresh, fun _ other => absurd fresh other⟩
  unfold Conn.parseArrayLen at parses ⊢
  split
  next crlf =>
    rw [if_pos crlf] at parses
    exact ⟨⟨parses.layout, sized fresh, fun _ other => absurd fresh other⟩, by simp, fun _ => alive⟩
  next blank =>
    rw [if_neg blank] at parses
    split
    · exact bounded.stop
    next cr =>
      rw [if_neg cr] at parses
      simp only at parses ⊢
      split
      · exact started.inlinePing alive fresh
      next star =>
        rw [if_neg star] at parses
        cases number : readNumber 0 0 c.unread.tail with
        | none => exact started.stop
        | some line =>
          obtain ⟨val, used⟩ := line
          simp only [number] at parses ⊢
          obtain ⟨n, written, value⟩ := readNumber_written number
          obtain ⟨positive, small⟩ := fits.1 fresh (by simpa using star) n written
          rw [toInt_of_small small] at value
          cases ensured : argvEnsure c.argvCap val with
          | none =>
            simp only [ensured] at parses
            exact ⟨⟨parses.layout, sized fresh, fun alive => by cases alive⟩, by simp, by simp⟩
          | some newcap =>
            simp only [ensured] at parses ⊢
            split
            next refused =>
              rw [if_pos refused] at parses
              exact ⟨⟨parses.layout, sized fresh, fun alive => by cases alive⟩, by simp, by simp⟩
            next granted =>
              rw [if_neg granted] at parses
              have enough := le_argvEnsure ensured
              refine ⟨⟨parses.layout, (fun data => by cases data), fun _ _ => ⟨?_, enough⟩⟩, by simp, fun _ => alive⟩
              change ((0 : Nat) : Int) < newcap
              omega

theorem Bounded.parseRound (env : Env) (bounded : c.Bounded) (alive : c.status = .alive) (fits : c.LineFits) :
    InRange (c.parseRound env) := by
  unfold Conn.parseRound
  simp only
  split
  next fresh => exact bounded.arrayLen alive fresh fits
  next length => exact bounded.bulkLen alive length fits
  next data => exact bounded.bulkData alive data

theorem Bounded.parseRounds {fuel : Nat} (bounded : c.Bounded) (alive : c.status = .alive) (fits : c.RoundsFit env fuel) :
    (c.parseRounds env fuel).1.Bounded ∧ ∀ e ∈ (c.parseRounds env fuel).2, e.Inside := by
  induction fuel generalizing c with
  | zero => exact ⟨bounded, by simp [Conn.parseRounds]⟩
  | succ fuel ih =>
    rw [Conn.parseRounds]
    split
    next unparsed =>
      obtain ⟨line, later⟩ := fits unparsed
      have round := bounded.parseRound env alive line
      simp only
      split
      next again =>
        obtain ⟨bounded', events⟩ := ih round.bounded (round.alive again) (later again)
        refine ⟨bounded', fun e member => ?_⟩
        rcases List.mem_append.1 member with now | after
        · exact round.events e now
        · exact events e after
      · exact ⟨round.bounded, round.events⟩
    · exact ⟨bounded, by simp⟩

theorem Bounded.act {c' : Conn} {events : List Event} {a : Act} (bounded : c.Bounded) (fits : c.ActFits env a)
    (done : c.act env a = some (c', events)) : c'.Bounded ∧ ∀ e ∈ events, e.Inside := by
  cases a with
  | read reads ending =>
    simp only [Conn.act, handleRead] at done
    split at done
    · cases done
    next called =>
      obtain ⟨c₁, read, result⟩ := Option.map_eq_some_iff.1 done
      obtain ⟨more, extended, -⟩ := bounded.layout.readLoop read
      have bounded₁ := extended.bounded bounded
      split at result
      · cases result
        exact ⟨bounded₁, by simp⟩
      next living =>
        cases ending with
        | error =>
          cases result
          exact ⟨bounded₁.kill.bounded, by simp⟩
        | drained =>
          have alive : c₁.status = .alive := by
            rcases extended.status with same | dead
            · rw [same]
              by_contra other
              exact called (.inl other)
            · exact absurd dead living
          have parsed := bounded₁.parseRounds alive (fits c₁ read)
          rw [show c₁.parseRounds env (c₁.work + 1) = (c', events) from result] at parsed
          exact parsed
  | resume =>
    simp only [Conn.act] at done
    split at done
    · cases done
      exact ⟨⟨⟨bounded.layout.filled, bounded.layout.parsed, bounded.layout.started, bounded.layout.fresh,
        bounded.layout.args⟩, bounded.sized, bounded.room⟩, by simp⟩
    · cases done

open Transition in
theorem arguments_inside (env : Env) {c c' : Conn} {events : List Event} {a : Act}
    (reached : Reaches (step env) (ActFits env) accept c) (fits : c.ActFits env a)
    (done : c.act env a = some (c', events)) : ∀ e ∈ events, e.Inside := by
  have bounded : c.Bounded := by
    refine reached.invariant Bounded.accept fun bounded fits stepped => ?_
    obtain ⟨⟨c₂, events⟩, acted, rfl⟩ := Option.map_eq_some_iff.1 stepped
    exact (bounded.act fits acted).1
  exact (bounded.act fits done).2

def plentiful (fate : Nat → Fate) : Env :=
  { bufAlloc := fun _ => true, argvAlloc := fun _ => true, slotAlloc := fun _ => true, fate := fate }

def getInTwo : Act :=
  .read [[42, 50, 13, 10, 36, 51, 13, 10, 71, 69, 84, 13], [10, 36, 49, 13, 10, 107, 13, 10]] .drained

theorem arguments_inside_get : ∃ c' events, accept.act (plentiful fun _ => .answered) getInTwo = some (c', events) ∧
    events.length = 3 ∧ ∀ e ∈ events, e.Inside :=
  ⟨_, _, rfl, rfl, arguments_inside (plentiful fun _ => .answered) (a := getInTwo) .refl (by decide) rfl⟩

def zeroCount : Act := .read [[42, 48, 13, 10, 36, 51, 13, 10, 71, 69, 84, 13, 10]] .drained

def hugeLength : Act :=
  .read [[42, 49, 13, 10, 36, 52, 50, 57, 52, 57, 54, 55, 50, 57, 53, 13, 10, 120]] .drained

/-- On a new connection an argument after `*0` is stored at index 0 of an array of capacity 0, and a length of
4294967295 gives a slice of 2^64 - 1 bytes, dispatched when one of them has come. -/
theorem arguments_outside :
    (∃ c' events, accept.act (plentiful fun _ => .answered) zeroCount = some (c', events) ∧ .store 0 0 ∈ events ∧
      ¬(Event.store 0 0).Inside) ∧
    ∃ c' events, accept.act (plentiful fun _ => .answered) hugeLength = some (c', events) ∧
      .dispatch [⟨0, 17, 2 ^ 64 - 1⟩] [[120]] 0 18 .answered ∈ events ∧
      ¬(Event.dispatch [⟨0, 17, 2 ^ 64 - 1⟩] [[120]] 0 18 .answered).Inside :=
  ⟨⟨_, _, rfl, by decide, by simp [Event.Inside]⟩, _, _, rfl, by decide, by simp [Event.Inside]⟩

end Conn

end FreakV.Resp
