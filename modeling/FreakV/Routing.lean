import FreakV.Key
import FreakV.Lib.Crc
import Mathlib.Data.List.TakeWhile
import Mathlib.Data.Nat.Bitwise

namespace FreakV

def crc16Xmodem (buf : Bytes) : BitVec 16 := Crc.crc 0x1021 0 (buf.map UInt8.toBitVec)

def Misprinted (index : BitVec 8) : Prop := 0x40 ≤ index ∧ index < 0x60

instance (index : BitVec 8) : Decidable (Misprinted index) := inferInstanceAs (Decidable (_ ∧ _))

theorem crc16Tab_eq_entry_iff : ∀ index : BitVec 8,
    crc16Tab.getD index.toNat 0 = (Crc.entry (0x1021 : BitVec 16) index).toNat ↔ ¬Misprinted index := by
  decide +kernel

def tableIndex (front : Bytes) (byte : UInt8) : BitVec 8 := Crc.top (crc16Xmodem front) ^^^ byte.toBitVec

theorem crc16Xmodem_concat (front : Bytes) (byte : UInt8) :
    crc16Xmodem (front ++ [byte]) = (crc16Xmodem front <<< 8) ^^^ Crc.entry 0x1021 (tableIndex front byte) := by
  rw [crc16Xmodem, List.map_append, List.map_singleton, Crc.crc_concat, Crc.addByte_eq_entry (by norm_num)]
  rfl

theorem routingCrc16_concat (front : Bytes) (byte : UInt8) :
    routingCrc16 (front ++ [byte]) = ((routingCrc16 front <<< 8) % 2 ^ 16) ^^^
      crc16Tab.getD (((routingCrc16 front >>> 8) ^^^ byte.toNat) &&& 0xff) 0 := by
  simp [routingCrc16]

theorem toNat_top (c : BitVec 16) (byte : UInt8) :
    ((c.toNat >>> 8) ^^^ byte.toNat) &&& 0xff = (Crc.top c ^^^ byte.toBitVec).toNat := by
  rw [show (0xff : Nat) = 2 ^ 8 - 1 from rfl, Nat.and_two_pow_sub_one_eq_mod, BitVec.toNat_xor, Nat.xor_mod_two_pow]
  simp [Crc.top]

theorem routingCrc16_concat_iff {front : Bytes} (byte : UInt8) (same : routingCrc16 front = (crc16Xmodem front).toNat) :
    routingCrc16 (front ++ [byte]) = (crc16Xmodem (front ++ [byte])).toNat ↔ ¬Misprinted (tableIndex front byte) := by
  have table := toNat_top (crc16Xmodem front) byte
  rw [← tableIndex] at table
  rw [← crc16Tab_eq_entry_iff, routingCrc16_concat, same, table, crc16Xmodem_concat, BitVec.toNat_xor,
    BitVec.toNat_shiftLeft]
  exact Nat.xor_right_inj

def Clear (message : Bytes) : Prop :=
  ∀ k, (inside : k < message.length) → ¬Misprinted (tableIndex (message.take k) message[k])

instance (message : Bytes) : Decidable (Clear message) := Nat.decidableBallLT _ _

theorem routingCrc16_take_iff (message : Bytes) :
    (∀ k ≤ message.length, routingCrc16 (message.take k) = (crc16Xmodem (message.take k)).toNat) ↔ Clear message := by
  constructor
  · intro same k inside
    have next := same (k + 1) inside
    rwa [← List.take_concat_get' _ _ inside, routingCrc16_concat_iff _ (same k inside.le)] at next
  · intro clear k
    induction k with
    | zero => exact fun _ => rfl
    | succ k ih =>
      intro inside
      rw [← List.take_concat_get' _ _ inside, routingCrc16_concat_iff _ (ih (by omega))]
      exact clear k inside

def HashTag (key tag : Bytes) : Prop :=
  ∃ front back, key = front ++ 0x7b :: (tag ++ 0x7d :: back) ∧ 0x7b ∉ front ∧ 0x7d ∉ tag ∧ tag ≠ []

def RedisSlot (key : Bytes) (slot : Nat) : Prop :=
  (∃ tag, HashTag key tag ∧ slot = (crc16Xmodem tag).toNat % 16384) ∨
  ((∀ tag, ¬HashTag key tag) ∧ slot = (crc16Xmodem key).toNat % 16384)

theorem takeWhile_split {b c : UInt8} {l rest : Bytes} (found : l.dropWhile (· ≠ b) = c :: rest) :
    l = l.takeWhile (· ≠ b) ++ b :: rest ∧ b ∉ l.takeWhile (· ≠ b) := by
  have first : c = b := by
    have stopped := List.head?_dropWhile_not (· ≠ b) l
    rw [found] at stopped
    simpa using stopped
  have whole := List.takeWhile_append_dropWhile (p := (· ≠ b)) (l := l)
  rw [found, first] at whole
  exact ⟨whole.symm, fun member => by simpa using List.mem_takeWhile_imp member⟩

theorem hashTag_eq_some_iff {key tag : Bytes} : hashTag key = some tag ↔ HashTag key tag := by
  constructor
  · intro found
    unfold hashTag at found
    split at found
    · simp at found
    next rest opened =>
      obtain ⟨whole, outside⟩ := takeWhile_split opened
      simp only at found
      split at found
      next closed =>
        obtain rfl := Option.some.inj found
        cases ended : rest.dropWhile (· ≠ 0x7d) with
        | nil =>
          have all := List.takeWhile_append_dropWhile (p := (· ≠ (0x7d : UInt8))) (l := rest)
          rw [ended, List.append_nil] at all
          exact absurd closed.1 (by rw [all]; exact Nat.lt_irrefl _)
        | cons c back =>
          obtain ⟨inner, inside⟩ := takeWhile_split ended
          exact ⟨_, back, by rw [← inner]; exact whole, outside, inside, closed.2⟩
      · simp at found
  · rintro ⟨front, back, rfl, outside, inside, some⟩
    have opened : (front ++ 0x7b :: (tag ++ 0x7d :: back)).dropWhile (· ≠ (0x7b : UInt8)) =
        0x7b :: (tag ++ 0x7d :: back) := by
      rw [List.dropWhile_append_of_pos fun b member => by simpa using ne_of_mem_of_not_mem member outside]
      simp
    have closed : (tag ++ 0x7d :: back).takeWhile (· ≠ (0x7d : UInt8)) = tag := by
      rw [List.takeWhile_append_of_pos fun b member => by simpa using ne_of_mem_of_not_mem member inside]
      simp
    rw [hashTag, opened]
    simp only [closed]
    simp [some]

def hashedPart (key : Bytes) : Bytes := (hashTag key).getD key

theorem redisSlot_iff (key : Bytes) (slot : Nat) :
    RedisSlot key slot ↔ slot = (crc16Xmodem (hashedPart key)).toNat % 16384 := by
  simp only [RedisSlot, hashedPart, ← hashTag_eq_some_iff]
  cases hashTag key <;> simp

theorem slot_is_redis_iff (key : Bytes) :
    ((∀ k ≤ (hashedPart key).length,
        routingCrc16 ((hashedPart key).take k) = (crc16Xmodem ((hashedPart key).take k)).toNat) ∧
      RedisSlot key (slotForKey key)) ↔ Clear (hashedPart key) := by
  rw [routingCrc16_take_iff]
  refine ⟨And.left, fun clear => ⟨clear, ?_⟩⟩
  have whole := (routingCrc16_take_iff _).2 clear _ (Nat.le_refl _)
  rw [List.take_length] at whole
  rw [redisSlot_iff, ← whole]
  rfl

theorem slot_of_letter_a : routingCrc16 [65] = 0x5845 ∧ crc16Xmodem [65] = 0x58e5 ∧ slotForKey [65] = 6213 ∧
    RedisSlot [65] 6373 := by
  refine ⟨by decide, by decide, by decide, (redisSlot_iff _ _).2 (by decide)⟩

end FreakV
