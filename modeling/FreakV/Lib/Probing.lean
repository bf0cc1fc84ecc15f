import Mathlib.Data.Int.ModEq
import Mathlib.Data.Finset.Card
import Mathlib.Tactic.Ring

namespace Probing

section Search

variable {A : Type} {n : Nat}

def probe (n : Nat) (visit : Nat → Option A) : Nat → Nat → Option A
  | 0, _ => none
  | fuel + 1, place =>
    match visit place with
    | some result => some result
    | none => probe n visit fuel ((place + 1) % n)

theorem probe_eq_some_of {visit : Nat → Option A} {result : A} {fuel home d : Nat} (near : d < fuel)
    (before : ∀ e < d, visit ((home + e) % n) = none) (here : visit ((home + d) % n) = some result)
    (inside : home < n) : probe n visit fuel home = some result := by
  induction d generalizing fuel home with
  | zero =>
    obtain ⟨fuel, rfl⟩ := Nat.exists_eq_succ_of_ne_zero (Nat.ne_of_gt near)
    rw [Nat.add_zero, Nat.mod_eq_of_lt inside] at here
    simp [probe, here]
  | succ d ih =>
    obtain ⟨fuel, rfl⟩ := Nat.exists_eq_succ_of_ne_zero (by omega : fuel ≠ 0)
    have first := before 0 (Nat.succ_pos d)
    rw [Nat.add_zero, Nat.mod_eq_of_lt inside] at first
    have shift (e : Nat) : ((home + 1) % n + e) % n = (home + (e + 1)) % n := by
      rw [Nat.mod_add_mod, Nat.add_assoc, Nat.add_comm 1]
    simp only [probe, first]
    apply ih (by omega)
    · intro e small
      rw [shift]
      exact before (e + 1) (by omega)
    · rw [shift, here]
    · exact Nat.mod_lt _ (by omega)

theorem probe_visits {visit : Nat → Option A} {result : A} {fuel home : Nat} (inside : home < n)
    (found : probe n visit fuel home = some result) : ∃ place < n, visit place = some result := by
  induction fuel generalizing home with
  | zero => cases found
  | succ fuel ih =>
    cases here : visit home with
    | some _ => exact ⟨home, inside, by simpa [probe, here] using found⟩
    | none => exact ih (Nat.mod_lt _ (by omega)) (by simpa [probe, here] using found)

end Search

section Chains

variable {n : Nat}

def Unbroken (n : Nat) (vacant : Nat → Prop) (home place : Nat) : Prop :=
  ∃ d < n, place = (home + d) % n ∧ ∀ e < d, ¬vacant ((home + e) % n)

theorem Unbroken.mono {vacant vacant' : Nat → Prop} {home place : Nat} (chain : Unbroken n vacant home place)
    (fewer : ∀ q, vacant' q → vacant q) : Unbroken n vacant' home place := by
  obtain ⟨d, near, rfl, before⟩ := chain
  exact ⟨d, near, rfl, fun e small there => before e small (fewer _ there)⟩

theorem exists_distance {home place : Nat} (inside : home < n) (there : place < n) :
    ∃ d < n, place = (home + d) % n := by
  by_cases after : home ≤ place
  · exact ⟨place - home, by omega, by rw [Nat.add_sub_cancel' after, Nat.mod_eq_of_lt there]⟩
  · refine ⟨place + n - home, by omega, ?_⟩
    rw [Nat.add_sub_cancel' (by omega : home ≤ place + n), Nat.add_mod_right, Nat.mod_eq_of_lt there]

theorem exists_first {vacant : Nat → Prop} [DecidablePred vacant] {home place : Nat} (inside : home < n)
    (there : place < n) (empty : vacant place) :
    ∃ first < n, vacant first ∧ Unbroken n vacant home first := by
  have some : ∃ d, d < n ∧ vacant ((home + d) % n) := by
    obtain ⟨d, near, rfl⟩ := exists_distance inside there
    exact ⟨d, near, empty⟩
  obtain ⟨near, here⟩ := Nat.find_spec some
  refine ⟨_, Nat.mod_lt _ (by omega), here, Nat.find some, near, rfl, fun e small occupied => ?_⟩
  exact Nat.find_min some small ⟨by omega, occupied⟩

theorem probe_of_unbroken {A : Type} {visit : Nat → Option A} {vacant : Nat → Prop} {home place : Nat} {result : A}
    (inside : home < n) (chain : Unbroken n vacant home place) (here : visit place = some result)
    (passes : ∀ q, q < n → q ≠ place → ¬vacant q → visit q = none) : probe n visit n home = some result := by
  obtain ⟨d, near, rfl, before⟩ := chain
  refine probe_eq_some_of near (fun e small => passes _ (Nat.mod_lt _ (by omega)) ?_ (before e small)) here inside
  intro same
  have congruent : e % n = d % n := Nat.ModEq.add_left_cancel' home same
  rw [Nat.mod_eq_of_lt (by omega), Nat.mod_eq_of_lt near] at congruent
  omega

theorem exists_vacant {vacant : Nat → Prop} [DecidablePred vacant]
    (room : ((Finset.range n).filter fun q => ¬vacant q).card < n) : ∃ q < n, vacant q := by
  by_contra none
  have all : (Finset.range n).filter (fun q => ¬vacant q) = Finset.range n := by
    apply Finset.filter_true_of_mem
    intro q member empty
    exact none ⟨q, Finset.mem_range.1 member, empty⟩
  rw [all, Finset.card_range] at room
  omega

end Chains

end Probing
