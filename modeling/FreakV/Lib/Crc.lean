import Mathlib.Data.BitVec

namespace Crc

variable {w : Nat}

def shift (poly c : BitVec w) : BitVec w := if c.msb then (c <<< 1) ^^^ poly else c <<< 1

def shifts (poly : BitVec w) : Nat → BitVec w → BitVec w
  | 0, c => c
  | n + 1, c => shift poly (shifts poly n c)

def high (w : Nat) (byte : BitVec 8) : BitVec w := byte.setWidth w <<< (w - 8)

def addByte (poly c : BitVec w) (byte : BitVec 8) : BitVec w := shifts poly 8 (c ^^^ high w byte)

def crc (poly init : BitVec w) (message : List (BitVec 8)) : BitVec w := message.foldl (addByte poly) init

def entry (poly : BitVec w) (index : BitVec 8) : BitVec w := shifts poly 8 (high w index)

def top (c : BitVec w) : BitVec 8 := (c >>> (w - 8)).setWidth 8

theorem shift_xor (poly a b : BitVec w) : shift poly (a ^^^ b) = shift poly a ^^^ shift poly b := by
  simp only [shift, BitVec.msb_xor, BitVec.shiftLeft_xor_distrib]
  cases a.msb <;> cases b.msb <;> simp only [Bool.xor_false, Bool.xor_true, Bool.not_false, Bool.not_true,
    Bool.false_eq_true, if_true, if_false]
  · ac_rfl
  · ac_rfl
  · have cancel : a <<< 1 ^^^ poly ^^^ (b <<< 1 ^^^ poly) = a <<< 1 ^^^ b <<< 1 ^^^ (poly ^^^ poly) := by ac_rfl
    rw [cancel, BitVec.xor_self, BitVec.xor_zero]

theorem shifts_xor (poly : BitVec w) (n : Nat) (a b : BitVec w) :
    shifts poly n (a ^^^ b) = shifts poly n a ^^^ shifts poly n b := by
  induction n with
  | zero => rfl
  | succ n ih => simp only [shifts, ih, shift_xor]

theorem shifts_of_clear (poly : BitVec w) {c : BitVec w} {n : Nat} (clear : ∀ i < n, c.getMsbD i = false) :
    shifts poly n c = c <<< n := by
  induction n with
  | zero => simp [shifts]
  | succ n ih =>
    have moved := ih fun i below => clear i (by omega)
    have out : (c <<< n).msb = false := by
      rw [BitVec.msb, BitVec.getMsbD_shiftLeft, Nat.zero_add]
      exact clear n (by omega)
    rw [shifts, moved, shift, out, if_neg Bool.false_ne_true, BitVec.shiftLeft_add]

section Byte

variable (wide : 8 ≤ w)

include wide

theorem getMsbD_high (byte : BitVec 8) (i : Nat) : (high w byte).getMsbD i = byte.getMsbD i := by
  rw [high, BitVec.getMsbD_shiftLeft, BitVec.getMsbD_setWidth]
  by_cases inside : i < 8
  · have place : i + (w - 8) + 8 - w = i := by omega
    simp only [place]
    simp
  · rw [BitVec.getMsbD_of_ge byte i (by omega), BitVec.getMsbD_of_ge byte _ (by omega), Bool.and_false]

theorem getMsbD_top (c : BitVec w) {i : Nat} (inside : i < 8) : (top c).getMsbD i = c.getMsbD i := by
  rw [top, BitVec.getMsbD_setWidth, BitVec.getMsbD_ushiftRight]
  have place : i + w - 8 - (w - 8) = i := by omega
  have low : 8 - w ≤ i := by omega
  have last : i + w - 8 < w := by omega
  have first : ¬i + w - 8 < w - 8 := by omega
  simp only [place, low, last, first, decide_true, decide_false, Bool.not_false, Bool.true_and]

theorem high_shiftLeft (byte : BitVec 8) : high w byte <<< 8 = 0#w := by
  apply BitVec.eq_of_getMsbD_eq
  intro i _
  rw [BitVec.getMsbD_shiftLeft, getMsbD_high wide, BitVec.getMsbD_of_ge byte _ (by omega), BitVec.getMsbD_zero]

theorem top_xor_high (c : BitVec w) (byte : BitVec 8) : top (c ^^^ high w byte) = top c ^^^ byte := by
  apply BitVec.eq_of_getMsbD_eq
  intro i inside
  rw [getMsbD_top wide _ inside, BitVec.getMsbD_xor, BitVec.getMsbD_xor, getMsbD_high wide, getMsbD_top wide _ inside]

theorem shifts_eight (poly c : BitVec w) : shifts poly 8 c = (c <<< 8) ^^^ entry poly (top c) := by
  have split : c = (c ^^^ high w (top c)) ^^^ high w (top c) := by
    rw [BitVec.xor_assoc, BitVec.xor_self, BitVec.xor_zero]
  have clear : ∀ i < 8, (c ^^^ high w (top c)).getMsbD i = false := by
    intro i inside
    rw [BitVec.getMsbD_xor, getMsbD_high wide, getMsbD_top wide c inside, Bool.xor_self]
  calc shifts poly 8 c
      = shifts poly 8 ((c ^^^ high w (top c)) ^^^ high w (top c)) := by rw [← split]
    _ = (c ^^^ high w (top c)) <<< 8 ^^^ entry poly (top c) := by rw [shifts_xor, shifts_of_clear poly clear, entry]
    _ = (c <<< 8) ^^^ entry poly (top c) := by
        rw [BitVec.shiftLeft_xor_distrib, high_shiftLeft wide, BitVec.xor_zero]

theorem addByte_eq_entry (poly c : BitVec w) (byte : BitVec 8) :
    addByte poly c byte = (c <<< 8) ^^^ entry poly (top c ^^^ byte) := by
  rw [addByte, shifts_eight wide, BitVec.shiftLeft_xor_distrib, high_shiftLeft wide, BitVec.xor_zero,
    top_xor_high wide]

end Byte

theorem crc_concat (poly init : BitVec w) (message : List (BitVec 8)) (byte : BitVec 8) :
    crc poly init (message ++ [byte]) = addByte poly (crc poly init message) byte := by
  simp [crc]

end Crc
