import FreakV.Net.Pipeline
import Mathlib.Data.Nat.Digits.Defs

namespace FreakV.Net

open PipelineSlot (leadingNumber skipBlanks strtoll)

section Digits

def letter (c : Char) : UInt8 := UInt8.ofNat c.toNat

theorem digitsOf_eq (n : Nat) : digitsOf n = (Nat.toDigits 10 n).map letter := by
  simp [digitsOf, ascii, letter, Nat.toString_eq_repr]

theorem letter_digit {c : Char} (digit : c.isDigit = true) :
    48 ≤ letter c ∧ letter c ≤ 57 ∧ (letter c).toNat = c.toNat := by
  simp only [Char.isDigit, Bool.and_eq_true, decide_eq_true_eq] at digit
  have low : 48 ≤ c.toNat := digit.1
  have high : c.toNat ≤ 57 := digit.2
  have same : (letter c).toNat = c.toNat := by rw [letter, UInt8.toNat_ofNat', Nat.mod_eq_of_lt (by omega)]
  simp only [UInt8.le_iff_toNat_le, same]
  exact ⟨low, high, trivial⟩

theorem leadingNumber_digits (digits : List Char) (rest : Bytes) (all : ∀ c ∈ digits, c.isDigit = true)
    (stop : ∀ b ∈ rest.head?, ¬(48 ≤ b ∧ b ≤ 57)) (val : Nat) :
    leadingNumber val (digits.map letter ++ rest) = Nat.ofDigitChars 10 digits val := by
  induction digits generalizing val with
  | nil =>
    cases rest with
    | nil => rfl
    | cons b rest => simpa [leadingNumber] using fun low high => absurd ⟨low, high⟩ (stop b rfl)
  | cons c digits ih =>
    obtain ⟨low, high, same⟩ := letter_digit (all c (List.mem_cons_self ..))
    rw [List.map_cons, List.cons_append, leadingNumber, if_pos ⟨low, high⟩]
    rw [ih fun c member => all c (List.mem_cons_of_mem _ member)]
    rw [Nat.ofDigitChars_cons, same, Nat.mul_comm]
    rfl

theorem leadingNumber_digitsOf (n : Nat) {rest : Bytes} (stop : ∀ b ∈ rest.head?, ¬(48 ≤ b ∧ b ≤ 57)) :
    leadingNumber 0 (digitsOf n ++ rest) = n := by
  rw [digitsOf_eq, leadingNumber_digits _ _ (fun c => Nat.isDigit_of_mem_toDigits (by decide) (by decide)) stop]
  exact Nat.ofDigitChars_toDigits (by decide) (by decide)

theorem leadingNumber_digitsOf_self (n : Nat) : leadingNumber 0 (digitsOf n) = n := by
  have none : ∀ b ∈ ([] : Bytes).head?, ¬(48 ≤ b ∧ b ≤ 57) := by simp
  have value := leadingNumber_digitsOf n none
  rwa [List.append_nil] at value

theorem length_digitsOf {n e : Nat} (some : 0 < e) (small : n < 10 ^ e) :
    1 ≤ (digitsOf n).length ∧ (digitsOf n).length ≤ e := by
  rw [digitsOf_eq, List.length_map]
  exact ⟨Nat.length_toDigits_pos, Nat.toDigits_length 10 n e some small⟩

end Digits

section Signed

def decimalInt (n : Int) : Bytes := (if n < 0 then ascii "-" else []) ++ digitsOf n.natAbs

theorem digitsOf_cons (n : Nat) : ∃ b rest, digitsOf n = b :: rest ∧ 48 ≤ b ∧ b ≤ 57 := by
  rw [digitsOf_eq]
  cases digits : Nat.toDigits 10 n with
  | nil => exact absurd digits Nat.toDigits_ne_nil
  | cons c rest =>
    have member : c ∈ Nat.toDigits 10 n := by simp [digits]
    have digit : c.isDigit = true := Nat.isDigit_of_mem_toDigits (by decide) (by decide) member
    obtain ⟨low, high, _⟩ := letter_digit digit
    exact ⟨letter c, rest.map letter, rfl, low, high⟩

theorem strtoll_digitsOf (n : Nat) : strtoll (digitsOf n) = min (n : Int) (2 ^ 63 - 1) := by
  have value := leadingNumber_digitsOf_self n
  obtain ⟨b, rest, digits, low, high⟩ := digitsOf_cons n
  rw [digits] at value
  have kept : skipBlanks (b :: rest) = b :: rest := by
    rw [skipBlanks, if_neg]
    rintro (rfl | ⟨_, small⟩)
    · exact absurd low (by decide)
    · exact absurd (UInt8.le_trans low small) (by decide)
  rw [digits, strtoll, kept]
  split
  next same => exact absurd (List.cons.inj same).1 (by rintro rfl; exact absurd low (by decide))
  next same => exact absurd (List.cons.inj same).1 (by rintro rfl; exact absurd low (by decide))
  · rw [value]

theorem strtoll_decimalInt (n : Int) : strtoll (decimalInt n) = max (min n (2 ^ 63 - 1)) (-2 ^ 63) := by
  by_cases negative : n < 0
  · have signed : strtoll (45 :: digitsOf n.natAbs) = max (-(leadingNumber 0 (digitsOf n.natAbs) : Int)) (-2 ^ 63) := rfl
    rw [decimalInt, if_pos negative]
    change strtoll (45 :: digitsOf n.natAbs) = _
    rw [signed, leadingNumber_digitsOf_self]
    omega
  · rw [decimalInt, if_neg negative, List.nil_append, strtoll_digitsOf]
    omega

theorem length_decimalInt {n : Int} {e : Nat} (some : 0 < e) (small : n.natAbs < 10 ^ e) : (decimalInt n).length ≤ e + 1 := by
  have text := (length_digitsOf some small).2
  rw [decimalInt, List.length_append]
  split
  · have sign : (ascii "-").length = 1 := by decide
    omega
  · simpa using text.trans (Nat.le_succ e)

end Signed

end FreakV.Net
