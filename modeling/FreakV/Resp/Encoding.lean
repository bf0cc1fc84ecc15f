import FreakV.Resp.Bounds

namespace FreakV.Resp

def digit (n : Nat) : UInt8 := UInt8.ofNat (48 + n)

def decimalDigits : Nat → Nat → Bytes
  | 0, n => [digit n]
  | fuel + 1, n => if n < 10 then [digit n] else decimalDigits fuel (n / 10) ++ [digit (n % 10)]

def decimal (n : Nat) : Bytes := decimalDigits n n

def encodeBulk (arg : Bytes) : Bytes := 36 :: decimal arg.length ++ 13 :: 10 :: arg ++ [13, 10]

def encodeArgs (args : List Bytes) : Bytes := (args.map encodeBulk).flatten

def encodeCommand (args : List Bytes) : Bytes := 42 :: decimal args.length ++ 13 :: 10 :: encodeArgs args

def encode (commands : List (List Bytes)) : Bytes := (commands.map encodeCommand).flatten

theorem encode_cons (args : List Bytes) (rest : List (List Bytes)) :
    encode (args :: rest) = 42 :: (decimal args.length ++ 13 :: 10 :: (encodeArgs args ++ encode rest)) := by
  simp [encode, encodeCommand]

theorem encodeArgs_cons (arg : Bytes) (rest : List Bytes) :
    encodeArgs (arg :: rest) = 36 :: (decimal arg.length ++ 13 :: 10 :: (arg ++ 13 :: 10 :: encodeArgs rest)) := by
  simp [encodeArgs, encodeBulk]

def digitsValue (val : Nat) (digits : Bytes) : Nat := digits.foldl (fun v b => v * 10 + (b.toNat - 48)) val

theorem le_digitsValue (val : Nat) (digits : Bytes) : val ≤ digitsValue val digits := by
  induction digits generalizing val with
  | nil => exact Nat.le_refl _
  | cons b rest ih => exact le_trans (by omega) (ih (val * 10 + (b.toNat - 48)))

theorem digit_toNat {n : Nat} (small : n < 10) : (digit n).toNat = 48 + n := by
  simp only [digit, UInt8.toNat_ofNat']
  omega

theorem decimalDigits_spec {fuel n : Nat} (enough : n ≤ fuel) :
    digitsValue 0 (decimalDigits fuel n) = n ∧ ∀ b ∈ decimalDigits fuel n, 48 ≤ b := by
  have one {m : Nat} (small : m < 10) : 48 ≤ digit m := by
    rw [UInt8.le_iff_toNat_le, digit_toNat small]
    exact Nat.le_add_right _ _
  induction fuel generalizing n with
  | zero =>
    have small : n < 10 := by omega
    exact ⟨by simp [decimalDigits, digitsValue, digit_toNat small], by simpa [decimalDigits] using one small⟩
  | succ fuel ih =>
    rw [decimalDigits]
    split
    next small => exact ⟨by simp [digitsValue, digit_toNat small], by simpa using one small⟩
    next large =>
      have last : n % 10 < 10 := Nat.mod_lt _ (by norm_num)
      obtain ⟨value, digits⟩ := ih (n := n / 10) (by omega)
      refine ⟨?_, fun b member => ?_⟩
      · rw [digitsValue, List.foldl_append]
        change digitsValue 0 (decimalDigits fuel (n / 10)) * 10 + ((digit (n % 10)).toNat - 48) = n
        rw [value, digit_toNat last]
        omega
      · rcases List.mem_append.1 member with front | back
        · exact digits b front
        · rw [List.mem_singleton.1 back]
          exact one last

theorem decimal_value (n : Nat) : digitsValue 0 (decimal n) = n := (decimalDigits_spec (Nat.le_refl n)).1

theorem decimal_digits (n : Nat) : ∀ b ∈ decimal n, 48 ≤ b := (decimalDigits_spec (Nat.le_refl n)).2

theorem readNumber_digits {digits : Bytes} (rest : Bytes) (all : ∀ b ∈ digits, 48 ≤ b) (more : rest ≠ []) (val used : Nat)
    (small : digitsValue val digits < 2 ^ 31) :
    readNumber val used (digits ++ rest) = readNumber (digitsValue val digits) (used + digits.length) rest := by
  induction digits generalizing val used with
  | nil => rfl
  | cons b digits ih =>
    have digit : 48 ≤ b := all b (by simp)
    have large : 48 ≤ b.toNat := digit
    have below : digitsValue (val * 10 + (b.toNat - 48)) digits < 2 ^ 31 := small
    obtain ⟨b', tail, eq⟩ := List.exists_cons_of_ne_nil (show digits ++ rest ≠ [] by simp [more])
    have step : toInt ((val : Int) * 10 + ((b.toNat : Int) - 48)) = ((val * 10 + (b.toNat - 48) : Nat) : Int) := by
      rw [← toInt_of_small (lt_of_le_of_lt (le_digitsValue _ digits) below)]
      congr 1
      omega
    have read := ih (fun b member => all b (by simp [member])) _ (used + 1) below
    rw [eq] at read
    rw [List.cons_append, eq, readNumber, if_pos digit, step, read, List.length_cons, Nat.add_assoc, Nat.add_comm 1]
    rfl

theorem readNumber_decimal {n : Nat} (small : n < 2 ^ 31) (rest : Bytes) :
    readNumber 0 0 (decimal n ++ 13 :: 10 :: rest) = some ((n : Int), (decimal n).length + 2) := by
  have read := readNumber_digits (13 :: 10 :: rest) (decimal_digits n) (by simp) 0 0 (by rw [decimal_value]; exact small)
  rw [decimal_value, Nat.cast_zero] at read
  rw [read, readNumber, if_neg (by decide), if_pos ⟨rfl, rfl⟩, Nat.zero_add]

end FreakV.Resp
