import FreakV.Lib.Buffer
import FreakV.Net.Assembly

namespace FreakV.Net

open Buffer
open PipelineSlot (partCount countLine)
open MultiCommand (countText partCount_countText delSum_eq dbsizeSum_eq countLine_bmod bmod_size)

theorem div_ten_lt {v : UInt64} (some : v ≠ 0) : (v / 10).toNat < v.toNat := by
  have positive : 0 < v.toNat := Nat.pos_of_ne_zero fun none => some (UInt64.toNat_inj.1 none)
  rw [UInt64.toNat_div]
  exact Nat.div_lt_self positive (by decide)

section Routines

def digitLoop (tmp : Bytes) (i : Nat) (v : UInt64) : Option (Bytes × Nat) :=
  if v = 0 then some (tmp, i)
  else do digitLoop (← store tmp i (48 + (v % 10).toUInt8)) (i + 1) (v / 10)
termination_by v.toNat
decreasing_by exact div_ten_lt ‹_›

def respU64dec (tmp : Vector UInt8 20) (buf : Bytes) (start : Nat) (v : UInt64) : Option (Bytes × Nat) :=
  if v = 0 then do return (← store buf start 48, 1)
  else do
    let (tmp, i) ← digitLoop tmp.toList 0 v
    let tmp ← reverseBetween tmp 0 (i - 1)
    return (← memcpy buf start tmp i, i)

def itoaFast (tmp : Vector UInt8 24) (buf : Bytes) (start : Nat) (val : UInt64) : Option (Bytes × Nat) :=
  if val = 0 then do return (← store buf start 48, 1)
  else do
    let (tmp, i) ← digitLoop tmp.toList 0 val
    return (← copyReversed buf start tmp i 0, i)

def longLong (n : Int) : Option Int := if -2 ^ 63 ≤ n ∧ n < 2 ^ 63 then some n else none

def magnitude (v : Int) : Option UInt64 :=
  if v < 0 then do return UInt64.ofInt (← longLong (-(← longLong (v + 1)))) + 1 else some (UInt64.ofInt v)

variable (dec : Bytes → Nat → UInt64 → Option (Bytes × Nat))

-- Digits and CRLF from buf + n on; the text is what is handed to resp_wbuf_append.
def line (buf : Bytes) (n : Nat) (u : UInt64) : Option Bytes := do
  let (buf, len) ← dec buf n u
  let buf ← store buf (n + len) 13
  let buf ← store buf (n + len + 1) 10
  return buf.take (n + len + 2)

def header (buf : Bytes) (mark : UInt8) (u : UInt64) : Option Bytes := do line dec (← store buf 0 mark) 1 u

def intReply (buf : Bytes) (v : Int64) : Option Bytes := do
  let buf ← store buf 0 58
  let u ← magnitude v.toInt
  if v.toInt < 0 then line dec (← store buf 1 45) 2 u else line dec buf 1 u

def respReplyInt (tmp : Vector UInt8 20) (buf : Vector UInt8 24) (v : Int64) : Option Bytes :=
  intReply (respU64dec tmp) buf.toList v

def netSlotWriteToWbufInt (tmp : Vector UInt8 24) (buf : Vector UInt8 32) (replyInt : Int64) : Option Bytes :=
  intReply (itoaFast tmp) buf.toList replyInt

def respReplyBulk (tmp : Vector UInt8 20) (hdr : Vector UInt8 24) (data : Bytes) : Option Bytes := do
  return (← header (respU64dec tmp) hdr.toList 36 (UInt64.ofNat data.length)) ++ data ++ ascii "\r\n"

def respWbufAppendKv (tmp : Vector UInt8 24) (hdr : Vector UInt8 32) (value : Bytes) : Option Bytes := do
  return (← header (itoaFast tmp) hdr.toList 36 (UInt64.ofNat value.length)) ++ value ++ ascii "\r\n"

def delTotal (tmp : Vector UInt8 24) (buf : Vector UInt8 32) (total : Int) : Option Bytes :=
  header (itoaFast tmp) buf.toList 58 (UInt64.ofInt total)

def dbsizeTotal (tmp : Vector UInt8 24) (buf : Vector UInt8 64) (total : Int) : Option Bytes :=
  header (itoaFast tmp) buf.toList 58 (UInt64.ofInt total)

end Routines

section Digits

theorem letter_digitChar : ∀ d < 10, letter (Nat.digitChar d) = UInt8.ofNat (48 + d) := by decide

theorem digit_eq (v : UInt64) : 48 + (v % 10).toUInt8 = letter (Nat.digitChar (v.toNat % 10)) := by
  rw [letter_digitChar _ (Nat.mod_lt _ (by decide)), UInt8.ofNat_add]
  rfl

theorem digitsOf_last (v : UInt64) :
    digitsOf v.toNat = (if v / 10 = 0 then [] else digitsOf (v / 10).toNat) ++ [48 + (v % 10).toUInt8] := by
  have small : v.toNat < 10 ↔ v / 10 = 0 := by
    rw [← UInt64.toNat_inj, UInt64.toNat_div]
    exact Nat.div_eq_zero_iff_lt (by decide) |>.symm
  rw [digitsOf_eq, Nat.toDigits_eq_if (by decide), digit_eq]
  split <;> simp_all [digitsOf_eq, Nat.mod_eq_of_lt]

variable {front rest : Bytes}

theorem digitLoop_append {room : Bytes} {v : UInt64} (some : v ≠ 0) (fits : room.length = (digitsOf v.toNat).length) :
    digitLoop (front ++ (room ++ rest)) front.length v =
      Option.some (front ++ ((digitsOf v.toNat).reverse ++ rest), front.length + (digitsOf v.toNat).length) := by
  induction v using WellFounded.induction (measure UInt64.toNat).wf generalizing front room with
  | _ v ih =>
    rw [digitsOf_last] at fits ⊢
    cases room with
    | nil => simp at fits
    | cons c room =>
      rw [digitLoop, if_neg some, List.cons_append, store_append]
      by_cases last : v / 10 = 0
      · obtain rfl : room = [] := by simpa [last] using fits
        simp [last, digitLoop]
      · have next := @ih (v / 10) (div_ten_lt some) (front ++ [48 + (v % 10).toUInt8]) room last (by simpa [last] using fits)
        simp_all [Nat.add_assoc, Nat.add_comm 1]

def Prints (dec : Bytes → Nat → UInt64 → Option (Bytes × Nat)) (v : UInt64) : Prop :=
  ∀ {front room rest : Bytes}, room.length = (digitsOf v.toNat).length →
    dec (front ++ (room ++ rest)) front.length v =
      some (front ++ (digitsOf v.toNat ++ rest), (digitsOf v.toNat).length)

theorem length_digitsOf_le (v : UInt64) : (digitsOf v.toNat).length ≤ 20 :=
  (length_digitsOf (by decide) (v.toNat_lt.trans (by decide))).2

theorem digitLoop_local {tmp : Bytes} {v : UInt64} (some : v ≠ 0) (large : 20 ≤ tmp.length) :
    ∃ rest, digitLoop tmp 0 v = Option.some ((digitsOf v.toNat).reverse ++ rest, (digitsOf v.toNat).length) := by
  obtain ⟨room, rest, fits, rfl⟩ := room_for ((length_digitsOf_le v).trans large)
  exact ⟨rest, by simpa using @digitLoop_append [] rest room v some fits⟩

theorem zero_prints (front : Bytes) {room rest : Bytes} (fits : room.length = (digitsOf (0 : UInt64).toNat).length) :
    store (front ++ (room ++ rest)) front.length 48 = some (front ++ (digitsOf (0 : UInt64).toNat ++ rest)) := by
  obtain ⟨c, rfl⟩ := List.length_eq_one_iff.1 fits
  rw [List.singleton_append, store_append]
  rfl

theorem respU64dec_prints (tmp : Vector UInt8 20) (v : UInt64) : Prints (respU64dec tmp) v := by
  intro front room rest fits
  unfold respU64dec
  split
  next zero =>
    subst zero
    rw [zero_prints front fits]
    rfl
  next some =>
    obtain ⟨unused, loop⟩ := digitLoop_local some (show 20 ≤ tmp.toList.length by simp)
    have reversed := @reverseBetween_append _ [] unused (digitsOf v.toNat).reverse
    have copied := @memcpy_append _ front rest room _ unused fits
    simp_all

theorem itoaFast_prints (tmp : Vector UInt8 24) (v : UInt64) : Prints (itoaFast tmp) v := by
  intro front room rest fits
  unfold itoaFast
  split
  next zero =>
    subst zero
    rw [zero_prints front fits]
    rfl
  next some =>
    obtain ⟨unused, loop⟩ := digitLoop_local some (show 20 ≤ tmp.toList.length by simp)
    have copied := @copyReversed_append _ front rest (digitsOf v.toNat).reverse [] unused room (by simpa using fits)
    simp_all

theorem line_eq {dec : Bytes → Nat → UInt64 → Option (Bytes × Nat)} (front : Bytes) {buf : Bytes} {v : UInt64}
    (prints : Prints dec v) (large : (digitsOf v.toNat).length + 2 ≤ buf.length) :
    line dec (front ++ buf) front.length v = some (front ++ (digitsOf v.toNat ++ ascii "\r\n")) := by
  obtain ⟨room, rest, fits, rfl⟩ := room_for (Nat.le_of_add_right_le large)
  match rest with
  | [] | [_] => simp [fits] at large
  | c :: d :: rest =>
    have first := @store_append _ (front ++ digitsOf v.toNat) (d :: rest) c 13
    have second := @store_append _ (front ++ digitsOf v.toNat ++ [13]) rest d 10
    have crlf : ascii "\r\n" = [13, 10] := by decide
    simp_all [line, prints fits, Nat.add_assoc, List.take_append, List.take_of_length_le]

end Digits

section Signs

theorem toNat_ofInt (n : Int) : (UInt64.ofInt n).toNat = (n % 2 ^ 64).toNat := by
  rw [UInt64.ofInt, UInt64.toNat_ofNat', Nat.mod_eq_of_lt]
  omega

theorem ofInt_natCast (n : Nat) : UInt64.ofInt n = UInt64.ofNat n := by
  apply UInt64.toNat_inj.1
  rw [toNat_ofInt, UInt64.toNat_ofNat']
  omega

theorem magnitude_eq (v : Int64) : ∃ u, magnitude v.toInt = some u ∧ u.toNat = v.toInt.natAbs := by
  have low := v.le_toInt
  have high := v.toInt_lt
  refine ⟨UInt64.ofNat v.toInt.natAbs, ?_, UInt64.toNat_ofNat_of_lt' (show _ < 2 ^ 64 by omega)⟩
  generalize v.toInt = n at low high
  cases n with
  | ofNat n => simp [magnitude, ofInt_natCast]
  | negSucc n =>
    have next : Int.negSucc n + 1 = -(n : Int) := by omega
    have first : longLong (-(n : Int)) = some (-(n : Int)) := by rw [longLong, if_pos (by omega)]
    have second : longLong n = some (n : Int) := by rw [longLong, if_pos (by omega)]
    simp [magnitude, next, first, second, ofInt_natCast]

theorem intReply_eq {dec : Bytes → Nat → UInt64 → Option (Bytes × Nat)} {buf : Bytes} {v : Int64}
    (prints : ∀ u, Prints dec u) (large : 23 ≤ buf.length) : intReply dec buf v = some (countText v.toInt) := by
  obtain ⟨u, some, same⟩ := magnitude_eq v
  have short : (digitsOf u.toNat).length ≤ 19 := by
    have low := v.le_toInt
    have high := v.toInt_lt
    exact (length_digitsOf (by decide) (by omega)).2
  match buf with
  | [] | [_] => simp at large
  | a :: b :: buf =>
    have opened : intReply dec (a :: b :: buf) v =
        if v.toInt < 0 then line dec (58 :: 45 :: buf) 2 u else line dec (58 :: b :: buf) 1 u := by
      simp [intReply, store, some]
    rw [opened, countText, decimalInt, ← same]
    simp only [List.length_cons] at large
    split
    · exact line_eq [58, 45] (prints u) (by omega)
    · exact line_eq [58] (prints u) (by simp; omega)

theorem int_replies_exact (v : Int64) (tmp : Vector UInt8 20) (buf : Vector UInt8 24) (tmp' : Vector UInt8 24)
    (buf' : Vector UInt8 32) :
    respReplyInt tmp buf v = some (ascii ":" ++ decimalInt v.toInt ++ ascii "\r\n") ∧
    netSlotWriteToWbufInt tmp' buf' v = some (ascii ":" ++ decimalInt v.toInt ++ ascii "\r\n") ∧
    partCount (some (ascii ":" ++ decimalInt v.toInt ++ ascii "\r\n")) = v.toInt := by
  refine ⟨?_, ?_, partCount_countText v.le_toInt v.toInt_lt⟩
  · exact intReply_eq (respU64dec_prints tmp) (by simp)
  · exact intReply_eq (itoaFast_prints tmp') (by simp)

end Signs

section Slots

theorem header_eq {dec : Bytes → Nat → UInt64 → Option (Bytes × Nat)} {buf : Bytes} {u : UInt64} (mark : UInt8)
    (prints : Prints dec u) (large : 23 ≤ buf.length) :
    header dec buf mark u = some ([mark] ++ (digitsOf u.toNat ++ ascii "\r\n")) := by
  have short := length_digitsOf_le u
  cases buf with
  | nil => simp at large
  | cons a buf =>
    rw [List.length_cons] at large
    exact line_eq [mark] prints (by omega)

variable {slot : PipelineSlot}

theorem header_total (tmp : Vector UInt8 24) {buf : Bytes} (large : 23 ≤ buf.length) (total : Int) :
    header (itoaFast tmp) buf 58 (UInt64.ofInt total) = some (countLine total) := by
  rw [header_eq 58 (itoaFast_prints tmp _) large, toNat_ofInt]
  rfl

/-- A part that is missing counts nothing in a DEL. In a DBSIZE it counts the table of the own shard, if it is the part of
that shard. -/
theorem totals_printed {counts : List (Option Int)} (multi : slot.isMulti = true)
    (replies : slot.multiReplies = counts.map (Option.map countText))
    (range : ∀ n, some n ∈ counts → -2 ^ 63 ≤ n ∧ n < 2 ^ 63) (tmp : Vector UInt8 24) (buf : Vector UInt8 32)
    (buf' : Vector UInt8 64) :
    (slot.parent = .delPart → delTotal tmp buf slot.delSum = some slot.serialize ∧
      slot.serialize = countLine (counts.map fun count => count.getD 0).sum) ∧
    (slot.parent = .dbsize → dbsizeTotal tmp buf' slot.dbsizeSum = some slot.serialize ∧
      slot.serialize = countLine (counts.zipIdx.map fun count => count.1.getD
        (if count.2 = slot.own.id then (slot.own.used.toNat : Int).bmod (2 ^ 64) else 0)).sum) := by
  constructor <;> intro parent
  · have written : slot.serialize = countLine slot.delSum := by rw [PipelineSlot.serialize, if_pos multi, parent]
    rw [written]
    exact ⟨header_total tmp (by simp) _, by rw [delSum_eq replies range, countLine_bmod]⟩
  · have written : slot.serialize = countLine slot.dbsizeSum := by rw [PipelineSlot.serialize, if_pos multi, parent]
    rw [written]
    exact ⟨header_total tmp (by simp) _, by rw [dbsizeSum_eq replies range, countLine_bmod]; rfl⟩

def countSlot (parent : Parent) (counts : List (Option Int)) : PipelineSlot :=
  { isMulti := true, parent := parent, multiReplies := counts.map (Option.map countText), own := { id := 1, used := 5 } }

theorem totals_printed_parts :
    delTotal (.replicate 24 0) (.replicate 32 0) (countSlot .delPart [some 1, some 0, some 1]).delSum = some (ascii ":2\r\n") ∧
    dbsizeTotal (.replicate 24 0) (.replicate 64 0) (countSlot .dbsize [some 7, none]).dbsizeSum = some (ascii ":12\r\n") := by
  obtain ⟨deleted, two⟩ := (@totals_printed (countSlot .delPart [some 1, some 0, some 1]) [some 1, some 0, some 1] rfl rfl
    (by simp) (.replicate 24 0) (.replicate 32 0) (.replicate 64 0)).1 rfl
  obtain ⟨sized, twelve⟩ := (@totals_printed (countSlot .dbsize [some 7, none]) [some 7, none] rfl rfl (by simp)
    (.replicate 24 0) (.replicate 32 0) (.replicate 64 0)).2 rfl
  rw [deleted, sized, two, twelve]
  decide

theorem bulk_printed {value : Bytes} (small : value.length < 2 ^ 64) (tmp : Vector UInt8 20) (hdr : Vector UInt8 24)
    (tmp' : Vector UInt8 24) (hdr' : Vector UInt8 32) :
    respReplyBulk tmp hdr value = some (PipelineSlot.bulk value) ∧
    respWbufAppendKv tmp' hdr' value = some (PipelineSlot.bulk value) := by
  have size := UInt64.toNat_ofNat_of_lt' small
  constructor
  · rw [respReplyBulk, header_eq 36 (respU64dec_prints tmp _) (by simp), size, PipelineSlot.bulk]
    rfl
  · rw [respWbufAppendKv, header_eq 36 (itoaFast_prints tmp' _) (by simp), size, PipelineSlot.bulk]
    rfl

theorem bulk_printed_one : respReplyBulk (.replicate 20 0) (.replicate 24 0) [79] = some (PipelineSlot.bulk [79]) ∧
    respWbufAppendKv (.replicate 24 0) (.replicate 32 0) [79] = some (PipelineSlot.bulk [79]) :=
  bulk_printed (by decide) _ _ _ _

end Slots

end FreakV.Net
