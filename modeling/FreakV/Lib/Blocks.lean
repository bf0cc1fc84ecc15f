import Mathlib.Data.Nat.Bitwise
import Mathlib.Tactic.Ring

namespace Blocks

def base (k p : Nat) : Nat := p / 2 ^ k * 2 ^ k

def Block (k s p : Nat) : Prop := s ≤ p ∧ p < s + 2 ^ k

instance (k s p : Nat) : Decidable (Block k s p) := inferInstanceAs (Decidable (_ ∧ _))

structure Tiling (lists : Nat → List Nat) (free : Nat → Prop) : Prop where
  nodup : ∀ k, (lists k).Nodup
  aligned : ∀ {k s}, s ∈ lists k → 2 ^ k ∣ s
  apart : ∀ {p k j}, base k p ∈ lists k → base j p ∈ lists j → k = j
  covers : ∀ p, free p ↔ ∃ k, base k p ∈ lists k

section Arithmetic

variable {k j s p : Nat}

theorem base_eq_iff (aligned : 2 ^ k ∣ s) : base k p = s ↔ Block k s p := by
  obtain ⟨q, rfl⟩ := aligned
  have pos := Nat.two_pow_pos k
  rw [base, Block, Nat.mul_comm (2 ^ k) q, Nat.mul_left_inj (by omega), Nat.div_eq_iff pos]
  omega

theorem base_dvd (k p : Nat) : 2 ^ k ∣ base k p := ⟨p / 2 ^ k, Nat.mul_comm _ _⟩

theorem block_base (k p : Nat) : Block k (base k p) p := (base_eq_iff (base_dvd k p)).1 rfl

theorem base_of_dvd (aligned : 2 ^ k ∣ p) : base k p = p := Nat.div_mul_cancel aligned

theorem Block.sub {s' q : Nat} (aligned : 2 ^ k ∣ s) (aligned' : 2 ^ j ∣ s') (le : j ≤ k) (large : Block k s p)
    (small : Block j s' p) (inside : Block j s' q) : Block k s q := by
  have nested : base k q = base k p := by
    have same : p / 2 ^ j = q / 2 ^ j := by
      have first := (base_eq_iff aligned').2 small
      have second := (base_eq_iff aligned').2 inside
      rw [← second, base, base] at first
      exact Nat.eq_of_mul_eq_mul_right (Nat.two_pow_pos j) first
    obtain ⟨d, rfl⟩ := Nat.exists_eq_add_of_le le
    rw [base, base, pow_add, ← Nat.div_div_eq_div_mul, ← Nat.div_div_eq_div_mul, same]
  rw [← base_eq_iff aligned, nested]
  exact (base_eq_iff aligned).2 large

theorem block_succ : Block (k + 1) s p ↔ Block k s p ∨ Block k (s + 2 ^ k) p := by
  simp only [Block, pow_succ]
  omega

theorem dvd_of_succ (aligned : 2 ^ (k + 1) ∣ s) : 2 ^ k ∣ s ∧ 2 ^ k ∣ s + 2 ^ k := by
  have half : 2 ^ k ∣ s := Dvd.dvd.trans ⟨2, pow_succ 2 k⟩ aligned
  exact ⟨half, Nat.dvd_add half (Nat.dvd_refl _)⟩

theorem xor_eq (aligned : 2 ^ k ∣ s) : (s = base (k + 1) s ∧ s ^^^ 2 ^ k = base (k + 1) s + 2 ^ k) ∨
    (s = base (k + 1) s + 2 ^ k ∧ s ^^^ 2 ^ k = base (k + 1) s) := by
  obtain ⟨q, rfl⟩ := aligned
  have flip : (2 ^ k * q) ^^^ 2 ^ k = 2 ^ k * (q ^^^ 1) := by
    rw [Nat.mul_comm, Nat.mul_comm (2 ^ k), ← Nat.shiftLeft_eq, ← Nat.shiftLeft_eq, Nat.shiftLeft_xor_distrib, Nat.one_shiftLeft]
  have start : base (k + 1) (2 ^ k * q) = 2 ^ k * (q / 2 * 2) := by
    rw [base, pow_succ, ← Nat.div_div_eq_div_mul, Nat.mul_div_cancel_left _ (Nat.two_pow_pos k)]
    ring
  have other : (q ^^^ 1) / 2 = q / 2 := by simp [Nat.xor_div_two]
  have parity : (q ^^^ 1) % 2 = (q + 1) % 2 := Nat.xor_mod_two_eq
  rw [flip, start]
  rcases Nat.mod_two_eq_zero_or_one q with even | odd
  · refine .inl ⟨by congr 1; omega, ?_⟩
    rw [← Nat.mul_succ]
    congr 1
    omega
  · refine .inr ⟨?_, by congr 1; omega⟩
    rw [← Nat.mul_succ]
    congr 1
    omega

end Arithmetic

section Operations

variable {lists : Nat → List Nat} {free : Nat → Prop} {k s : Nat}

theorem Tiling.congr {free' : Nat → Prop} (tiling : Tiling lists free) (same : ∀ p, free' p ↔ free p) : Tiling lists free' :=
  ⟨tiling.nodup, tiling.aligned, tiling.apart, fun p => (same p).trans (tiling.covers p)⟩

theorem Tiling.block_free (tiling : Tiling lists free) (member : s ∈ lists k) {p : Nat} (inside : Block k s p) : free p :=
  (tiling.covers p).2 ⟨k, (base_eq_iff (tiling.aligned member)).2 inside ▸ member⟩

theorem Tiling.push (tiling : Tiling lists free) (aligned : 2 ^ k ∣ s) (taken : ∀ p, Block k s p → ¬free p) :
    Tiling (Function.update lists k (s :: lists k)) fun p => free p ∨ Block k s p := by
  have mem (j p : Nat) : base j p ∈ Function.update lists k (s :: lists k) j ↔ base j p ∈ lists j ∨ j = k ∧ Block k s p := by
    rw [Function.update_apply]
    split
    next same =>
      subst same
      rw [List.mem_cons, base_eq_iff aligned, or_comm]
      simp
    next other => simp [other]
  refine ⟨fun j => ?_, fun {j t} member => ?_, fun {p i j} first second => ?_, fun p => ?_⟩
  · rw [Function.update_apply]
    split
    next same =>
      refine List.nodup_cons.2 ⟨fun member => taken s ⟨Nat.le_refl s, ?_⟩ ?_, tiling.nodup k⟩
      · have := Nat.two_pow_pos k
        omega
      · exact tiling.block_free member ⟨Nat.le_refl s, by have := Nat.two_pow_pos k; omega⟩
    · exact tiling.nodup j
  · rw [Function.update_apply] at member
    split at member
    next same =>
      rcases List.mem_cons.1 member with rfl | member
      · exact same ▸ aligned
      · exact same ▸ tiling.aligned member
    · exact tiling.aligned member
  · rcases (mem i p).1 first with first | ⟨left, inside⟩ <;> rcases (mem j p).1 second with second | ⟨right, inside'⟩
    · exact tiling.apart first second
    · exact absurd ((tiling.covers p).2 ⟨i, first⟩) (taken p inside')
    · exact absurd ((tiling.covers p).2 ⟨j, second⟩) (taken p inside)
    · exact left.trans right.symm
  · rw [tiling.covers]
    simp only [mem]
    constructor
    · rintro (⟨j, member⟩ | inside)
      · exact ⟨j, .inl member⟩
      · exact ⟨k, .inr ⟨rfl, inside⟩⟩
    · rintro ⟨j, member | ⟨-, inside⟩⟩
      · exact .inl ⟨j, member⟩
      · exact .inr inside

theorem Tiling.remove (tiling : Tiling lists free) (member : s ∈ lists k) :
    Tiling (Function.update lists k ((lists k).erase s)) fun p => free p ∧ ¬Block k s p := by
  have sub (j t : Nat) : t ∈ Function.update lists k ((lists k).erase s) j ↔ t ∈ lists j ∧ ¬(j = k ∧ t = s) := by
    rw [Function.update_apply]
    split
    next same =>
      subst same
      rw [(tiling.nodup j).mem_erase_iff]
      simp [and_comm]
    next other => simp [other]
  have block {p : Nat} : base k p = s ↔ Block k s p := base_eq_iff (tiling.aligned member)
  refine ⟨fun j => ?_, fun there => tiling.aligned ((sub _ _).1 there).1,
    fun first second => tiling.apart ((sub _ _).1 first).1 ((sub _ _).1 second).1, fun p => ?_⟩
  · rw [Function.update_apply]
    split
    · exact (tiling.nodup k).erase s
    · exact tiling.nodup j
  · rw [tiling.covers]
    simp only [sub]
    constructor
    · rintro ⟨⟨j, there⟩, outside⟩
      refine ⟨j, there, fun ⟨same, here⟩ => outside (block.1 ?_)⟩
      rw [← same, here]
    · rintro ⟨j, there, other⟩
      refine ⟨⟨j, there⟩, fun inside => other ?_⟩
      have start := block.2 inside
      obtain rfl : j = k := tiling.apart there (start.symm ▸ member)
      exact ⟨rfl, start⟩

theorem Tiling.whole (tiling : Tiling lists free)
    (merged : ∀ j < k, ∀ s, 2 ^ (j + 1) ∣ s → s ∈ lists j → s + 2 ^ j ∉ lists j) {s : Nat} (aligned : 2 ^ k ∣ s)
    (all : ∀ p, Block k s p → free p) : ∃ j, k ≤ j ∧ base j s ∈ lists j := by
  induction k generalizing s with
  | zero =>
    obtain ⟨j, member⟩ := (tiling.covers s).1 (all s ⟨Nat.le_refl s, by simp⟩)
    exact ⟨j, Nat.zero_le j, member⟩
  | succ k ih =>
    obtain ⟨low, high⟩ := dvd_of_succ aligned
    have fewer : ∀ j < k, ∀ s, 2 ^ (j + 1) ∣ s → s ∈ lists j → s + 2 ^ j ∉ lists j := fun j less => merged j (by omega)
    obtain ⟨i, le, first⟩ := ih fewer low fun p inside => all p (block_succ.2 (.inl inside))
    obtain ⟨j, le', second⟩ := ih fewer high fun p inside => all p (block_succ.2 (.inr inside))
    rcases Nat.lt_or_eq_of_le le with larger | rfl
    · exact ⟨i, larger, first⟩
    rcases Nat.lt_or_eq_of_le le' with larger | rfl
    · have here : Block j (base j (s + 2 ^ k)) s := by
        refine Block.sub (base_dvd _ _) aligned larger (block_base _ _) ?_ ⟨Nat.le_refl s, ?_⟩
        · exact block_succ.2 (.inr ⟨Nat.le_refl _, by have := Nat.two_pow_pos k; omega⟩)
        · have := Nat.two_pow_pos (k + 1)
          omega
      exact ⟨j, larger, (base_eq_iff (base_dvd _ _)).2 here ▸ second⟩
    · rw [base_of_dvd low] at first
      rw [base_of_dvd high] at second
      exact absurd second (merged _ (Nat.lt_succ_self _) s aligned first)

end Operations

end Blocks
