import FreakV.Mem.Arena
import FreakV.Net.Digits
import Mathlib.Algebra.Order.BigOperators.Group.List

namespace FreakV

open Mem (memLibAccepts memLibAccepts_iff)
open Net (ascii digitsOf length_digitsOf)

def shardPort (basePort sid : Nat) : Nat := (basePort + sid + 1) % 2 ^ 16

structure SlotRange where
  slotStart : Nat
  slotEnd : Nat
  port : Nat
  sid : Nat
deriving DecidableEq

def slotRange (n basePort sid : Nat) : SlotRange where
  slotStart := 16384 * sid / n
  slotEnd := 16384 * (sid + 1) / n - 1
  port := (basePort + sid + 1) % 2 ^ 16
  sid := sid

def slotRanges (n basePort : Nat) : List SlotRange := (List.range n).map (slotRange n basePort)

def nodeId (sid : Nat) : Bytes :=
  let digits := (Nat.toDigits 16 sid).map fun c => UInt8.ofNat c.toNat
  List.replicate (40 - digits.length) 48 ++ digits

def SlotRange.text (r : SlotRange) : Bytes :=
  ascii "*3\r\n:" ++ digitsOf r.slotStart ++ ascii "\r\n:" ++ digitsOf r.slotEnd ++
    ascii "\r\n*3\r\n$9\r\n127.0.0.1\r\n:" ++ digitsOf r.port ++ ascii "\r\n$40\r\n" ++ nodeId r.sid ++ ascii "\r\n"

def slotsBufSize : Nat := 8192

/-- One `snprintf` at the end of `buf`. Text that does not fit is cut off, but `pos` counts it: from then on the
next call writes behind the buffer and the reply is read from there. -/
def slotsPrint (buf : Option Bytes) (text : Bytes) : Option Bytes :=
  buf.bind fun buf => if buf.length + text.length < slotsBufSize then some (buf ++ text) else none

def slotsTexts (n basePort : Nat) : List Bytes :=
  (ascii "*" ++ digitsOf n ++ ascii "\r\n") :: (slotRanges n basePort).map SlotRange.text

def clusterSlots (n basePort : Nat) : Option Bytes := (slotsTexts n basePort).foldl slotsPrint (some [])

def SlotRange.Holds (r : SlotRange) (slot : Nat) : Prop := r.slotStart ≤ slot ∧ slot ≤ r.slotEnd

structure Advertises (n basePort : Nat) : Prop where
  reply : clusterSlots n basePort = some (slotsTexts n basePort).flatten
  owner : ∀ slot < 16384, ∃ r ∈ slotRanges n basePort, r.Holds slot ∧
    r.sid = shardForSlot slot n ∧ r.port = shardPort basePort (shardForSlot slot n) ∧
    ∀ r' ∈ slotRanges n basePort, r'.Holds slot → r' = r

theorem foldl_slotsPrint_none (texts : List Bytes) : texts.foldl slotsPrint none = none := by
  induction texts with
  | nil => rfl
  | cons _ _ ih => exact ih

theorem foldl_slotsPrint (texts : List Bytes) {buf : Bytes} (room : buf.length < slotsBufSize) :
    texts.foldl slotsPrint (some buf) =
      if (buf ++ texts.flatten).length < slotsBufSize then some (buf ++ texts.flatten) else none := by
  induction texts generalizing buf with
  | nil => simp [room]
  | cons text rest ih =>
    rw [List.foldl_cons, slotsPrint, Option.bind_some]
    split
    next fits =>
      rw [ih (by simpa using fits)]
      simp
    next full =>
      rw [foldl_slotsPrint_none, if_neg]
      simp only [List.flatten_cons, List.length_append]
      omega

theorem clusterSlots_eq (n basePort : Nat) : clusterSlots n basePort =
    if (slotsTexts n basePort).flatten.length < slotsBufSize then some (slotsTexts n basePort).flatten else none :=
  foldl_slotsPrint _ (by decide)

theorem length_nodeId {sid : Nat} (small : sid < 16 ^ 40) : (nodeId sid).length = 40 := by
  have most := Nat.toDigits_length 16 sid 40 (by norm_num) small
  simp [nodeId]
  omega

theorem length_text (r : SlotRange) : r.text.length = 39 + (digitsOf r.slotStart).length +
    (digitsOf r.slotEnd).length + (digitsOf r.port).length + (nodeId r.sid).length := by
  have constant : (ascii "*3\r\n:").length + (ascii "\r\n:").length +
      (ascii "\r\n*3\r\n$9\r\n127.0.0.1\r\n:").length + (ascii "\r\n$40\r\n").length + (ascii "\r\n").length = 39 := by decide
  simp only [SlotRange.text, List.length_append]
  omega

theorem SlotRange.length_bounds {n basePort sid : Nat} (some : 0 < n) (few : n ≤ 256) (below : sid < n) :
    82 ≤ (slotRange n basePort sid).text.length ∧ (slotRange n basePort sid).text.length ≤ 94 := by
  have start : 16384 * sid / n < 10 ^ 5 := by
    rw [Nat.div_lt_iff_lt_mul some]
    nlinarith
  have stop : 16384 * (sid + 1) / n - 1 < 10 ^ 5 := by
    have : 16384 * (sid + 1) / n < 10 ^ 5 := by
      rw [Nat.div_lt_iff_lt_mul some]
      nlinarith
    omega
  have port : (basePort + sid + 1) % 2 ^ 16 < 10 ^ 5 := by omega
  have starts := length_digitsOf (by norm_num) start
  have stops := length_digitsOf (by norm_num) stop
  have ports := length_digitsOf (by norm_num) port
  have node : (nodeId sid).length = 40 := length_nodeId (by omega)
  rw [length_text]
  simp only [slotRange]
  omega

theorem length_slotsTexts {n : Nat} (basePort : Nat) (some : 0 < n) (few : n ≤ 256) :
    82 * n ≤ (slotsTexts n basePort).flatten.length ∧ (slotsTexts n basePort).flatten.length ≤ 6 + 94 * n := by
  have each : ∀ len ∈ ((slotRanges n basePort).map SlotRange.text).map List.length, 82 ≤ len ∧ len ≤ 94 := by
    intro len member
    simp only [slotRanges, List.map_map, List.mem_map, List.mem_range] at member
    obtain ⟨sid, below, rfl⟩ := member
    exact SlotRange.length_bounds some few below
  have least := List.card_nsmul_le_sum _ 82 fun len member => (each len member).1
  have most := List.sum_le_card_nsmul _ 94 fun len member => (each len member).2
  simp only [List.length_map, slotRanges, List.length_range, nsmul_eq_mul, Nat.cast_id] at least most
  have header := length_digitsOf (n := n) (e := 3) (by norm_num) (by omega)
  have constant : (ascii "*").length + (ascii "\r\n").length = 3 := by decide
  simp only [slotsTexts, List.flatten_cons, List.length_append, List.length_flatten, slotRanges]
  omega

theorem clusterSlots_whole_iff {n : Nat} (basePort : Nat) (accepted : memLibAccepts n) (divides : n ∣ 16384) :
    clusterSlots n basePort = some (slotsTexts n basePort).flatten ↔ n ≤ 64 := by
  rw [memLibAccepts_iff] at accepted
  obtain ⟨least, most⟩ := length_slotsTexts basePort (Nat.pos_of_ne_zero accepted.1) accepted.2
  have room : (slotsTexts n basePort).flatten.length < slotsBufSize ↔ n ≤ 64 := by
    rw [slotsBufSize]
    refine ⟨fun fits => ?_, fun small => by omega⟩
    -- no divisor of 16384 lies between 64 and 128
    have gap : ∀ m < 128, m ∣ 16384 → m ≤ 64 := by decide
    exact gap n (by omega) divides
  rw [clusterSlots_eq, ← room]
  split <;> simp_all

theorem SlotRange.Holds.sid_le {n basePort sid sid' slot : Nat} (few : n ≤ 256) (some : 0 < n)
    (holds : (slotRange n basePort sid).Holds slot) (holds' : (slotRange n basePort sid').Holds slot) : sid ≤ sid' := by
  by_contra above
  obtain ⟨start, -⟩ := holds
  obtain ⟨-, stop⟩ := holds'
  simp only [slotRange] at start stop
  have next : 16384 * (sid' + 1) / n ≤ 16384 * sid / n := Nat.div_le_div_right (by omega)
  have filled : 0 < 16384 * (sid' + 1) / n := Nat.div_pos (by omega) some
  omega

theorem holds_shardForSlot {n slot : Nat} (basePort : Nat) (some : 0 < n) (divides : n ∣ 16384) :
    (slotRange n basePort (shardForSlot slot n)).Holds slot := by
  obtain ⟨m, size⟩ := divides
  have width : 0 < m := Nat.pos_of_ne_zero (by rintro rfl; simp at size)
  have shard : shardForSlot slot n = slot / m := by
    rw [shardForSlot, size, Nat.mul_comm slot, Nat.mul_div_mul_left _ _ some]
  have bound (k : Nat) : 16384 * k / n = m * k := by
    rw [size, Nat.mul_assoc, Nat.mul_div_cancel_left _ some]
  have below := Nat.mul_div_le slot m
  have above := Nat.lt_mul_div_succ slot width
  simp only [SlotRange.Holds, slotRange, bound, shard]
  omega

theorem advertises_iff {n : Nat} (basePort : Nat) (accepted : memLibAccepts n) :
    Advertises n basePort ↔ n ∣ 16384 ∧ n ≤ 64 := by
  have count := accepted
  rw [memLibAccepts_iff] at count
  have some : 0 < n := Nat.pos_of_ne_zero count.1
  constructor
  · rintro ⟨reply, owner⟩
    have divides : n ∣ 16384 := by
      by_contra broken
      -- the first slot that is reported for shard 1 still belongs to shard 0
      have floor := Nat.div_add_mod 16384 n
      have rest : 0 < 16384 % n := Nat.pos_of_ne_zero fun zero => broken (Nat.dvd_of_mod_eq_zero zero)
      have several : 1 < n := by
        by_contra one
        obtain rfl : n = 1 := by omega
        exact broken (one_dvd _)
      have inside : 16384 / n < 16384 := Nat.div_lt_self (by norm_num) several
      obtain ⟨r, -, -, sid, -, alone⟩ := owner (16384 / n) inside
      have zero : shardForSlot (16384 / n) n = 0 := by
        rw [shardForSlot, Nat.div_eq_of_lt]
        rw [Nat.mul_comm]
        omega
      have holds : (slotRange n basePort 1).Holds (16384 / n) := by
        have next : 16384 / n + 1 ≤ 16384 * (1 + 1) / n := by
          rw [Nat.le_div_iff_mul_le some]
          have : 16384 / n * n ≤ 16384 := Nat.div_mul_le_self _ _
          nlinarith
        simp only [SlotRange.Holds, slotRange, Nat.mul_one]
        omega
      have same := alone _ (List.mem_map.2 ⟨1, List.mem_range.2 several, rfl⟩) holds
      rw [← same, zero] at sid
      simp [slotRange] at sid
    exact ⟨divides, (clusterSlots_whole_iff basePort accepted divides).1 reply⟩
  · rintro ⟨divides, small⟩
    refine ⟨(clusterSlots_whole_iff basePort accepted divides).2 small, fun slot inside => ?_⟩
    have below : shardForSlot slot n < n := by
      rw [shardForSlot, Nat.div_lt_iff_lt_mul (by norm_num)]
      nlinarith
    refine ⟨slotRange n basePort (shardForSlot slot n), List.mem_map.2 ⟨_, List.mem_range.2 below, rfl⟩,
      holds_shardForSlot basePort some divides, rfl, rfl, ?_⟩
    intro r' member holds'
    obtain ⟨sid', -, rfl⟩ := List.mem_map.1 member
    have holds : (slotRange n basePort (shardForSlot slot n)).Holds slot := holds_shardForSlot basePort some divides
    rw [Nat.le_antisymm (SlotRange.Holds.sid_le count.2 some holds' holds)
      (SlotRange.Holds.sid_le count.2 some holds holds')]

theorem advertises_four : memLibAccepts 4 ∧ Advertises 4 7379 :=
  ⟨by decide, (advertises_iff 7379 (by decide)).2 (by decide)⟩

theorem three_shards_misreport : memLibAccepts 3 ∧ slotRange 3 7379 1 ∈ slotRanges 3 7379 ∧
    (slotRange 3 7379 1).Holds 5461 ∧ shardForSlot 5461 3 = 0 := by
  refine ⟨by decide, by decide, ?_, by decide⟩
  simp only [SlotRange.Holds]
  decide

end FreakV
