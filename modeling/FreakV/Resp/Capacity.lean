import FreakV.Resp.Decode

namespace FreakV.Resp

inductive Doubles (needed : Int) : Int → Int → Prop
  | stop {newcap : Int} (enough : needed ≤ newcap) : Doubles needed newcap newcap
  | double {newcap last : Int} (short : newcap < needed) (rest : Doubles needed (toInt (newcap * 2)) last) :
      Doubles needed newcap last

def Ensures (argvCap needed newcap : Int) : Prop :=
  if needed ≤ argvCap then newcap = argvCap
  else Doubles needed (if argvCap ≠ 0 then toInt (argvCap * 2) else 8) newcap

theorem doubles_of_doubleUntil {fuel : Nat} {newcap needed last : Int}
    (found : doubleUntil fuel newcap needed = some last) : Doubles needed newcap last := by
  induction fuel generalizing newcap with
  | zero => cases found
  | succ fuel ih =>
    rw [doubleUntil] at found
    split at found
    next short => exact .double short (ih found)
    next enough =>
      cases found
      exact .stop (by omega)

theorem ensures_of_argvEnsure {argvCap needed newcap : Int} (ensured : argvEnsure argvCap needed = some newcap) :
    Ensures argvCap needed newcap := by
  unfold argvEnsure at ensured
  unfold Ensures
  split
  next enough =>
    rw [if_pos enough] at ensured
    exact (Option.some.inj ensured).symm
  next short =>
    rw [if_neg short] at ensured
    exact doubles_of_doubleUntil ensured

def Lost (newcap : Int) : Prop := newcap = 0 ∨ newcap = -2 ^ 31 ∨ ∃ i, i ≤ 30 ∧ newcap = 2 ^ i

theorem Lost.double {newcap : Int} (lost : Lost newcap) : Lost (toInt (newcap * 2)) := by
  rcases lost with rfl | rfl | ⟨i, within, rfl⟩
  · exact .inl (by decide)
  · exact .inl (by decide)
  · rcases Nat.lt_or_eq_of_le within with below | rfl
    · exact .inr (.inr ⟨i + 1, below, toInt_double below⟩)
    · exact .inr (.inl (by decide))

theorem Lost.le {newcap : Int} (lost : Lost newcap) : newcap ≤ 2 ^ 30 := by
  rcases lost with rfl | rfl | ⟨i, within, rfl⟩
  · norm_num
  · norm_num
  · exact pow_le_pow_right₀ (by norm_num) within

theorem Lost.not_doubles {newcap needed last : Int} (lost : Lost newcap) (large : 2 ^ 30 < needed) :
    ¬Doubles needed newcap last := by
  intro ended
  induction ended with
  | stop enough => exact absurd enough (by have := lost.le; omega)
  | double _ _ ih => exact ih lost.double

theorem PowCap.lost {cap : Int} (pow : PowCap cap) : Lost cap := by
  rcases pow with rfl | power
  · exact .inl rfl
  · exact .inr (.inr power)

theorem PowCap.not_ensures {cap needed newcap : Int} (pow : PowCap cap) (large : 2 ^ 30 < needed) :
    ¬Ensures cap needed newcap := by
  intro ensured
  have short : ¬needed ≤ cap := by
    have := pow.lost.le
    omega
  rw [Ensures, if_neg short] at ensured
  split at ensured
  · exact pow.lost.double.not_doubles large ensured
  · have eight : Lost 8 := .inr (.inr ⟨3, by norm_num, by norm_num⟩)
    exact eight.not_doubles large ensured

theorem PowCap.ensured {cap needed newcap : Int} (pow : PowCap cap) (ensured : argvEnsure cap needed = some newcap) :
    PowCap newcap := by
  by_cases small : needed ≤ 2 ^ 30
  · obtain ⟨found, same, kept⟩ := pow.ensure small
    rw [same] at ensured
    cases ensured
    exact kept
  · exact absurd (ensures_of_argvEnsure ensured) (pow.not_ensures (by omega))

namespace Conn

variable {env : Env} {c c' : Conn}

theorem pipelineEnqueue_argvCap (env : Env) (c : Conn) : (c.pipelineEnqueue env).1.argvCap = c.argvCap := by
  unfold pipelineEnqueue
  split <;> rfl

theorem commandComplete_argvCap (env : Env) (c : Conn) : (c.commandComplete env).conn.argvCap = c.argvCap := by
  have queued := pipelineEnqueue_argvCap env c
  unfold commandComplete
  split
  next enqueued => rw [enqueued] at queued; exact queued
  next enqueued =>
    rw [enqueued] at queued
    exact (parserReset_fields _).2.1.trans queued

theorem inlinePing_argvCap (env : Env) (c : Conn) (rest : Bytes) : (c.inlinePing env rest).conn.argvCap = c.argvCap := by
  unfold inlinePing
  split
  · exact pipelineEnqueue_argvCap env c
  · rfl

theorem parseArrayLen_powCap (pow : PowCap c.argvCap) (rest : Bytes) :
    PowCap (c.parseArrayLen env rest).conn.argvCap := by
  unfold parseArrayLen
  split
  · exact pow
  · split
    · exact pow
    · split
      · rw [inlinePing_argvCap]
        exact pow
      · split
        · exact pow
        next val used _ =>
          dsimp only
          split
          · exact pow
          next newcap ensured =>
            split
            · exact pow
            · exact pow.ensured ensured

theorem parseRound_powCap (pow : PowCap c.argvCap) : PowCap (c.parseRound env).conn.argvCap := by
  unfold parseRound
  split
  · exact parseArrayLen_powCap pow _
  · unfold parseBulkLen
    dsimp only
    split
    · exact pow
    · split <;> exact pow
  · unfold parseBulkData
    dsimp only
    split
    · exact pow
    · split
      · rw [commandComplete_argvCap]
        exact pow
      · exact pow

theorem parseRounds_powCap {fuel : Nat} (pow : PowCap c.argvCap) : PowCap (c.parseRounds env fuel).1.argvCap := by
  induction fuel generalizing c with
  | zero => exact pow
  | succ fuel ih =>
    rw [parseRounds]
    split
    · dsimp only
      split
      · exact ih (parseRound_powCap pow)
      · exact parseRound_powCap pow
    · exact pow

theorem makeRoom_argvCap (env : Env) (c : Conn) : (c.makeRoom env).argvCap = c.argvCap := by
  unfold makeRoom rbufGrow
  split
  · split
    · rfl
    · dsimp only; split <;> rfl
  · rfl

theorem readLoop_argvCap {reads : List Bytes} (read : c.readLoop env reads = some c') : c'.argvCap = c.argvCap := by
  induction reads generalizing c with
  | nil =>
    cases read
    exact makeRoom_argvCap env c
  | cons bytes rest ih =>
    simp only [readLoop] at read
    split at read
    · cases read
      exact makeRoom_argvCap env c
    · split at read
      · cases read
      · exact (ih read).trans (makeRoom_argvCap env c)

theorem step_powCap {a : Act} (pow : PowCap c.argvCap) (stepped : c.step env a = some c') : PowCap c'.argvCap := by
  obtain ⟨⟨after, events⟩, acted, rfl⟩ := Option.map_eq_some_iff.1 stepped
  cases a with
  | read reads ending =>
    simp only [act, handleRead] at acted
    split at acted
    · cases acted
    · obtain ⟨c₁, read, result⟩ := Option.map_eq_some_iff.1 acted
      have kept : PowCap c₁.argvCap := by
        rw [readLoop_argvCap read]
        exact pow
      split at result
      · cases result
        exact kept
      · cases ending with
        | error =>
          cases result
          exact kept
        | drained =>
          have parsed : PowCap (c₁.parseRounds env (c₁.work + 1)).1.argvCap := parseRounds_powCap kept
          rw [show c₁.parseRounds env (c₁.work + 1) = (after, events) from result] at parsed
          exact parsed
  | resume =>
    simp only [act] at acted
    split at acted
    · cases acted
      exact pow
    · cases acted

open Transition in
theorem argvEnsure_ends_iff (env : Env) {c : Conn} (reached : Reaches (step env) (fun _ _ => True) accept c)
    (val : Int) : (∃ newcap, Ensures c.argvCap val newcap ∧ val ≤ newcap) ↔ val ≤ 2 ^ 30 := by
  have pow : PowCap c.argvCap :=
    reached.invariant (.inl rfl) fun pow _ stepped => step_powCap pow stepped
  constructor
  · rintro ⟨newcap, ensured, -⟩
    by_contra large
    exact pow.not_ensures (by omega) ensured
  · intro small
    obtain ⟨newcap, ensured, -⟩ := pow.ensure small
    exact ⟨newcap, ensures_of_argvEnsure ensured, le_argvEnsure ensured⟩

theorem argvEnsure_ends_three : ∃ newcap, Ensures accept.argvCap 3 newcap ∧ 3 ≤ newcap :=
  (argvEnsure_ends_iff (plentiful fun _ => .answered) .refl 3).2 (by norm_num)

def overCount : Bytes := [49, 48, 55, 51, 55, 52, 49, 56, 50, 53, 13, 10]

theorem argvEnsure_hangs : readNumber 0 0 overCount = some (2 ^ 30 + 1, 12) ∧
    (∀ newcap, ¬Ensures accept.argvCap (2 ^ 30 + 1) newcap) ∧
    ∃ c events, accept.act (plentiful fun _ => .answered) (.read [42 :: overCount] .drained) = some (c, events) ∧
      c.status = .hung :=
  ⟨by decide, fun _ => PowCap.not_ensures (.inl rfl) (by norm_num), _, _, rfl, by decide⟩

end Conn

end FreakV.Resp
