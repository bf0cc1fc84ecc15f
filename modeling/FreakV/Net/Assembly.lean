import FreakV.Net.Digits
import Mathlib.Data.Finset.Card

namespace FreakV.Net

/-- A command with what the shards answer to its parts: the value of each key, whether it was deleted, or the number of
entries of each table. -/
inductive MultiCommand
  | mget (values : List (Option Bytes))
  | del (deleted : List Bool)
  | dbsize (used : List UInt64)
deriving DecidableEq

namespace MultiCommand

def parent : MultiCommand → Parent
  | .mget _ => .mgetPart
  | .del _ => .delPart
  | .dbsize _ => .dbsize

def parts : MultiCommand → Nat
  | .mget values => values.length
  | .del deleted => deleted.length
  | .dbsize used => used.length

def countText (n : Int) : Bytes := ascii ":" ++ decimalInt n ++ ascii "\r\n"

def part (cmd : MultiCommand) (i : Nat) : Reply :=
  match cmd with
  | .mget values =>
    let value := values.getD i none
    { replyType := if value.isSome then .kvObj else .nil, kvObj := value, subIdx := i }
  | .del deleted => { replyType := .buf, replyBuf := some (countText (if deleted.getD i false then 1 else 0)), subIdx := i }
  | .dbsize used => { replyType := .buf, replyBuf := some (countText (((used.getD i 0).toNat : Int).bmod (2 ^ 64))), subIdx := i }

def element : Option Bytes → Bytes
  | some value => PipelineSlot.bulk value
  | none => ascii "$-1\r\n"

def reply : MultiCommand → Bytes
  | .mget values => ascii "*" ++ digitsOf values.length ++ ascii "\r\n" ++ (values.map element).flatten
  | .del deleted => ascii ":" ++ digitsOf (deleted.count true) ++ ascii "\r\n"
  | .dbsize used => ascii ":" ++ digitsOf ((used.map UInt64.toNat).sum % 2 ^ 64) ++ ascii "\r\n"

end MultiCommand

/-- What the waiting loop of MGET takes from a queue: a reply to a part, or something else, which may complete a part of
this shard that waits for a lock. -/
inductive Arrival
  | part (i : Nat)
  | other (completes : Option Nat)
deriving DecidableEq

/-- How a command goes: the shard it came to, the owners of its parts, the parts of this shard that wait for a lock, the
passes of the waiting loop, and the parts that are answered after the dispatch. -/
structure Course where
  self : Nat
  owners : List Nat
  locked : Nat → Bool
  passes : List (List Arrival)
  later : List Nat

namespace MultiCommand

variable (cmd : MultiCommand)

def opened : PipelineSlot :=
  { state := .pending
    isMulti := true
    parent := cmd.parent
    multiParts := cmd.parts
    replyData := if cmd.parent = .mgetPart then some (ascii "*" ++ digitsOf cmd.parts ++ ascii "\r\n") else none
    multiReplies := List.replicate cmd.parts none
    multiKvObjs := if cmd.parent = .mgetPart then some (List.replicate cmd.parts none) else none }

def executed (course : Course) : List Nat :=
  (List.range cmd.parts).filter fun i => course.owners.getD i 0 = course.self && !course.locked i

def remoteCount (course : Course) : Nat := ((List.range cmd.parts).filter fun i => course.owners.getD i 0 ≠ course.self).length

def keyLoop (course : Course) (slot : PipelineSlot) : PipelineSlot :=
  (cmd.executed course).foldl (fun slot i => slot.storePart (cmd.part i)) slot

def take (state : Nat × PipelineSlot) : Arrival → Nat × PipelineSlot
  | .part i => (state.1 + 1, state.2.storePart (cmd.part i))
  | .other none => state
  | .other (some i) => (state.1, state.2.answer (cmd.part i))

/-- The loop of MGET. A pass empties all queues, and the count is looked at between passes; nothing stands for a loop that
has not ended with the last of the passes, or has ended before it. -/
def wait (remote : Nat) : List (List Arrival) → Nat × PipelineSlot → Option PipelineSlot
  | [], (received, slot) => if received < remote then none else some slot
  | pass :: rest, (received, slot) =>
    if received < remote then wait remote rest (pass.foldl cmd.take (received, slot)) else none

/-- The branches of `resp_dispatch_proxy` for MGET, DEL and DBSIZE, if they return. -/
def dispatch (course : Course) : Option PipelineSlot :=
  let slot := cmd.keyLoop course cmd.opened
  match cmd with
  | .mget _ => (cmd.wait (cmd.remoteCount course) course.passes (0, slot)).map PipelineSlot.finish
  | .del _ | .dbsize _ => some slot.finish

def serve (course : Course) : Option PipelineSlot :=
  (cmd.dispatch course).map fun slot => course.later.foldl (fun slot i => slot.answer (cmd.part i)) slot

def arrived : Arrival → Option Nat
  | .part i => some i
  | .other completes => completes

def waited (course : Course) : List Nat :=
  match cmd with
  | .mget _ => course.passes.flatten.filterMap arrived
  | .del _ | .dbsize _ => []

def answered (course : Course) : List Nat := cmd.executed course ++ cmd.waited course ++ course.later

end MultiCommand

namespace PipelineSlot

variable {slot : PipelineSlot}

theorem storePart_isMulti (m : Reply) : (slot.storePart m).isMulti = slot.isMulti := by
  unfold storePart
  split <;> rfl

theorem finish_isMulti : slot.finish.isMulti = slot.isMulti := by
  unfold finish
  split <;> rfl

theorem finish_finish : slot.finish.finish = slot.finish := by
  unfold finish
  grind

theorem finish_storePart (m : Reply) : (slot.finish.storePart m).finish = (slot.storePart m).finish := by
  unfold finish storePart
  grind

theorem answer_finish (multi : slot.isMulti = true) (m : Reply) : (slot.answer m).finish = (slot.storePart m).finish := by
  rw [answer, if_pos multi]
  split
  · exact finish_finish
  next outside => rw [storePart, if_neg outside]

theorem answer_isMulti (multi : slot.isMulti = true) (m : Reply) : (slot.answer m).isMulti = true := by
  rw [answer, if_pos multi]
  split
  · rw [finish_isMulti, storePart_isMulti, multi]
  · exact multi

theorem finish_answer (multi : slot.isMulti = true) (m : Reply) : slot.finish.answer m = (slot.storePart m).finish := by
  have parts : slot.finish.multiParts = slot.multiParts := by
    unfold finish
    split <;> rfl
  rw [answer, finish_isMulti, if_pos multi, parts]
  split
  · exact finish_storePart m
  next outside => rw [storePart, if_neg outside]

end PipelineSlot

namespace MultiCommand

variable {cmd : MultiCommand} {course : Course} {slot : PipelineSlot}

open PipelineSlot

def stored (cmd : MultiCommand) (slot : PipelineSlot) (order : List Nat) : PipelineSlot :=
  order.foldl (fun slot i => slot.storePart (cmd.part i)) slot

theorem stored_isMulti (order : List Nat) : (cmd.stored slot order).isMulti = slot.isMulti := by
  induction order generalizing slot with
  | nil => rfl
  | cons i rest ih => exact ih.trans (storePart_isMulti _)

theorem stored_append (first second : List Nat) :
    cmd.stored slot (first ++ second) = cmd.stored (cmd.stored slot first) second := List.foldl_append

theorem stored_finish {other : PipelineSlot} (same : slot.finish = other.finish) (order : List Nat) :
    (cmd.stored slot order).finish = (cmd.stored other order).finish := by
  induction order generalizing slot other with
  | nil => exact same
  | cons i rest ih =>
    apply ih
    rw [← finish_storePart, same, finish_storePart]

theorem take_stored (cmd : MultiCommand) (multi : slot.isMulti = true) (received : Nat) (arrival : Arrival) :
    (cmd.take (received, slot) arrival).2.isMulti = true ∧
    (cmd.take (received, slot) arrival).2.finish = (cmd.stored slot (arrived arrival).toList).finish := by
  cases arrival with
  | part i => exact ⟨(storePart_isMulti _).trans multi, rfl⟩
  | other completes =>
    cases completes with
    | none => exact ⟨multi, rfl⟩
    | some i => exact ⟨answer_isMulti multi _, answer_finish multi _⟩

theorem pass_stored (cmd : MultiCommand) (multi : slot.isMulti = true) (received : Nat) (pass : List Arrival) :
    (pass.foldl cmd.take (received, slot)).2.isMulti = true ∧
    (pass.foldl cmd.take (received, slot)).2.finish = (cmd.stored slot (pass.filterMap arrived)).finish := by
  induction pass generalizing slot received with
  | nil => exact ⟨multi, rfl⟩
  | cons arrival rest ih =>
    obtain ⟨multi', same⟩ := take_stored cmd multi received arrival
    obtain ⟨multi'', after⟩ := ih multi' (cmd.take (received, slot) arrival).1
    refine ⟨multi'', after.trans ?_⟩
    rw [stored_finish same, ← stored_append]
    cases found : arrived arrival <;> simp [found]

theorem wait_stored {remote received : Nat} {passes : List (List Arrival)} {after : PipelineSlot} (multi : slot.isMulti = true)
    (returned : cmd.wait remote passes (received, slot) = some after) :
    after.isMulti = true ∧ after.finish = (cmd.stored slot (passes.flatten.filterMap arrived)).finish := by
  induction passes generalizing slot received with
  | nil =>
    simp only [wait] at returned
    split at returned
    · cases returned
    · cases returned
      exact ⟨multi, rfl⟩
  | cons pass rest ih =>
    simp only [wait] at returned
    split at returned
    · obtain ⟨multi', same⟩ := pass_stored cmd multi received pass
      obtain ⟨multi'', later⟩ := ih multi' returned
      refine ⟨multi'', later.trans ?_⟩
      rw [stored_finish same, ← stored_append, List.flatten_cons, List.filterMap_append]
    · cases returned

theorem later_stored (multi : slot.isMulti = true) (later : List Nat) :
    later.foldl (fun slot i => slot.answer (cmd.part i)) slot.finish = (cmd.stored slot later).finish := by
  induction later generalizing slot with
  | nil => rfl
  | cons i rest ih =>
    rw [List.foldl_cons, finish_answer multi]
    exact ih ((storePart_isMulti _).trans multi)

theorem dispatch_stored (dispatched : cmd.dispatch course = some slot) :
    slot = (cmd.stored cmd.opened (cmd.executed course ++ cmd.waited course)).finish := by
  have multi : (cmd.keyLoop course cmd.opened).isMulti = true := stored_isMulti (cmd.executed course)
  cases cmd with
  | mget values =>
    obtain ⟨after, returned, rfl⟩ := Option.map_eq_some_iff.1 dispatched
    rw [(wait_stored multi returned).2, stored_append]
    rfl
  | del deleted =>
    cases dispatched
    rw [waited, List.append_nil]
    rfl
  | dbsize used =>
    cases dispatched
    rw [waited, List.append_nil]
    rfl

theorem serve_stored (served : cmd.serve course = some slot) : slot = (cmd.stored cmd.opened (cmd.answered course)).finish := by
  obtain ⟨start, dispatched, rfl⟩ := Option.map_eq_some_iff.1 served
  have multi : (cmd.stored cmd.opened (cmd.executed course ++ cmd.waited course)).isMulti = true := stored_isMulti _
  rw [dispatch_stored dispatched, later_stored multi, answered,
    stored_append (cmd.executed course ++ cmd.waited course) course.later]

section Contents

def filled (cmd : MultiCommand) (answered : List Nat) : PipelineSlot :=
  { cmd.opened with
    multiReplied := answered.length
    multiReplies := (List.range cmd.parts).map fun i => if i ∈ answered then (cmd.part i).replyBuf else none
    multiKvObjs :=
      if cmd.parent = .mgetPart then
        some ((List.range cmd.parts).map fun i => if i ∈ answered then (cmd.part i).kvObj else none)
      else none }

theorem set_answered {A : Type} (f : Nat → Option A) (n : Nat) (answered : List Nat) (i : Nat) :
    ((List.range n).map fun j => if j ∈ answered then f j else none).set i (f i) =
      (List.range n).map fun j => if j ∈ answered ++ [i] then f j else none := by
  apply List.ext_getElem
  · simp
  · intro j left right
    rw [List.getElem_set]
    by_cases same : i = j
    · simp [same]
    · simp [same, Ne.symm same]

theorem part_subIdx (i : Nat) : (cmd.part i).subIdx = i := by cases cmd <;> rfl

theorem storePart_filled (answered : List Nat) {i : Nat} (within : i < cmd.parts) :
    (cmd.filled answered).storePart (cmd.part i) = cmd.filled (answered ++ [i]) := by
  have inside : (cmd.part i).subIdx < (cmd.filled answered).multiParts := by rwa [part_subIdx]
  rw [storePart, if_pos inside, part_subIdx]
  simp only [filled, set_answered fun j => (cmd.part j).replyBuf, List.length_append, List.length_singleton]
  split
  · simp only [Option.map_some, set_answered fun j => (cmd.part j).kvObj]
  · rfl

theorem stored_filled (answered : List Nat) {order : List Nat} (within : ∀ i ∈ order, i < cmd.parts) :
    cmd.stored (cmd.filled answered) order = cmd.filled (answered ++ order) := by
  induction order generalizing answered with
  | nil => rw [List.append_nil]; rfl
  | cons i rest ih =>
    have first := storePart_filled answered (within i List.mem_cons_self)
    rw [stored, List.foldl_cons, first]
    have after := ih (answered ++ [i]) fun j there => within j (List.mem_cons_of_mem i there)
    rw [stored] at after
    rw [after, List.append_assoc, List.singleton_append]

theorem opened_eq_filled : cmd.opened = cmd.filled [] := by
  simp only [opened, filled, List.not_mem_nil, if_false, List.map_const', List.length_range, List.length_nil]

theorem all_answered_iff {answered : List Nat} {n : Nat} (once : answered.Nodup) (within : ∀ i ∈ answered, i < n) :
    n ≤ answered.length ↔ ∀ i < n, i ∈ answered := by
  have inside : answered.toFinset ⊆ Finset.range n := fun i there => Finset.mem_range.2 (within i (List.mem_toFinset.1 there))
  rw [← List.toFinset_card_of_nodup once]
  constructor
  · intro enough i small
    have all := Finset.eq_of_subset_of_card_le inside (by rwa [Finset.card_range])
    exact List.mem_toFinset.1 (all ▸ Finset.mem_range.2 small)
  · intro all
    have covers : Finset.range n ⊆ answered.toFinset := fun i small => List.mem_toFinset.2 (all i (Finset.mem_range.1 small))
    simpa using Finset.card_le_card covers

end Contents

section Counts

theorem countText_length {n : Int} (low : -2 ^ 63 ≤ n) (high : n < 2 ^ 63) :
    (countText n).length = (decimalInt n).length + 3 ∧ 1 ≤ (decimalInt n).length ∧ (decimalInt n).length ≤ 20 := by
  have small : n.natAbs < 10 ^ 19 := by omega
  have colon : (ascii ":").length = 1 := by decide
  have line : (ascii "\r\n").length = 2 := by decide
  refine ⟨?_, ?_, length_decimalInt (by decide) small⟩
  · simp only [countText, List.length_append, colon, line]
    omega
  · have some_digit := (length_digitsOf (by decide) small).1
    rw [decimalInt, List.length_append]
    omega

theorem partCount_countText {n : Int} (low : -2 ^ 63 ≤ n) (high : n < 2 ^ 63) : partCount (some (countText n)) = n := by
  obtain ⟨length, digits⟩ := countText_length low high
  have colon : (ascii ":").length = 1 := by decide
  have number : ((countText n).drop 1).take (min ((countText n).length - 3) 31) = decimalInt n := by
    have rest : (countText n).drop 1 = decimalInt n ++ ascii "\r\n" := by
      rw [countText, List.append_assoc, List.drop_append_of_le_length (by omega)]
      rfl
    have count : min ((countText n).length - 3) 31 = (decimalInt n).length := by omega
    rw [rest, count, List.take_left]
  rw [partCount, if_pos (by omega), number, strtoll_decimalInt]
  omega

theorem foldl_bmod {A : Type} (f : A → Int) (m : Nat) (list : List A) (start : Int) :
    list.foldl (fun sum a => (sum + f a).bmod m) (start.bmod m) = (start + (list.map f).sum).bmod m := by
  induction list generalizing start with
  | nil => simp
  | cons a rest ih =>
    rw [List.foldl_cons, Int.bmod_add_bmod, ih, List.map_cons, List.sum_cons, Int.add_assoc]

theorem bmod_size (x : Int) : x.bmod (2 ^ 64) % 2 ^ 64 = x % 2 ^ 64 := by
  have same := Int.bmod_emod (x := x) (m := 2 ^ 64)
  norm_cast at same ⊢

theorem countLine_bmod (x : Int) : countLine (x.bmod (2 ^ 64)) = countLine x := by rw [countLine, countLine, bmod_size]

section Sums

variable {counts : List (Option Int)} (replies : slot.multiReplies = counts.map (Option.map countText))
    (range : ∀ n, some n ∈ counts → -2 ^ 63 ≤ n ∧ n < 2 ^ 63)

include replies range

theorem delSum_eq : slot.delSum = ((counts.map fun count : Option Int => count.getD 0).sum).bmod (2 ^ 64) := by
  have sum : slot.delSum = _ := foldl_bmod partCount (2 ^ 64) slot.multiReplies 0
  rw [sum, Int.zero_add, replies, List.map_map]
  congr 2
  refine List.map_congr_left fun count member => ?_
  cases count with
  | none => rfl
  | some n => exact partCount_countText (range n member).1 (range n member).2

theorem dbsizeSum_eq : slot.dbsizeSum =
    ((counts.zipIdx.map fun count : Option Int × Nat => count.1.getD (dbsizeCount slot.own count.2 none)).sum).bmod (2 ^ 64) := by
  have sum : slot.dbsizeSum = _ :=
    foldl_bmod (fun part : Option Bytes × Nat => dbsizeCount slot.own part.2 part.1) (2 ^ 64) slot.multiReplies.zipIdx 0
  rw [sum, Int.zero_add, replies, List.zipIdx_map, List.map_map]
  congr 2
  refine List.map_congr_left fun count member => ?_
  obtain ⟨count, j⟩ := count
  cases count with
  | none => rfl
  | some n =>
    obtain ⟨low, high⟩ := range n (List.fst_mem_of_mem_zipIdx member)
    have digits := countText_length low high
    have long : 3 < (countText n).length := by omega
    have counted : dbsizeCount slot.own j (some (countText n)) = n := by
      rw [dbsizeCount, if_pos (by simpa using long), partCount_countText low high]
    exact counted

end Sums

end Counts

section Reply

theorem map_getD_range {A B : Type} (f : A → B) (list : List A) (default : A) :
    (List.range list.length).map (fun i => f (list.getD i default)) = list.map f := by
  apply List.ext_getElem
  · simp
  · intro i left right
    have inside : i < list.length := by simpa using right
    simp [List.getD_eq_getElem?_getD, List.getElem?_eq_getElem inside]

theorem filled_all {order : List Nat} (all : ∀ i < cmd.parts, i ∈ order) :
    (cmd.filled order).multiReplies = (List.range cmd.parts).map (fun i => (cmd.part i).replyBuf) ∧
    (cmd.filled order).multiKvObjs.getD [] =
      if cmd.parent = .mgetPart then (List.range cmd.parts).map (fun i => (cmd.part i).kvObj) else [] := by
  have here {A : Type} (f : Nat → Option A) :
      ((List.range cmd.parts).map fun i => if i ∈ order then f i else none) = (List.range cmd.parts).map f :=
    List.map_congr_left fun i small => if_pos (all i (List.mem_range.1 small))
  refine ⟨here _, ?_⟩
  simp only [filled, here]
  split <;> rfl

theorem mget_serialize {values : List (Option Bytes)} {order : List Nat} (own : OwnShard)
    (all : ∀ i < values.length, i ∈ order) :
    PipelineSlot.serialize { filled (.mget values) order with own := own } = reply (.mget values) := by
  have full : ∀ i < parts (.mget values), i ∈ order := all
  obtain ⟨buffers, objects⟩ := filled_all full
  have written (i : Nat) : mgetPart (part (.mget values) i).replyBuf (part (.mget values) i).kvObj = element (values.getD i none) := by
    simp only [part]
    cases values.getD i none <;> rfl
  have serialized : PipelineSlot.serialize { filled (.mget values) order with own := own } = ascii "*" ++ digitsOf values.length ++ ascii "\r\n" ++
      ((filled (.mget values) order).multiReplies.zipWith mgetPart ((filled (.mget values) order).multiKvObjs.getD [])).flatten := rfl
  have length : parts (.mget values) = values.length := rfl
  have mget : parent (.mget values) = .mgetPart := rfl
  rw [serialized, buffers, objects, if_pos mget, List.zipWith_map, List.zipWith_self, length, reply]
  simp only [written, map_getD_range element]

section Sums

variable {order : List Nat} (all : ∀ i < cmd.parts, i ∈ order) (count : Nat → Int)
    (texts : ∀ i, (cmd.part i).replyBuf = some (countText (count i))) (range : ∀ i, -2 ^ 63 ≤ count i ∧ count i < 2 ^ 63)

include all texts

theorem replies_filled : (cmd.filled order).multiReplies =
    ((List.range cmd.parts).map fun i => some (count i)).map (Option.map countText) := by
  rw [(filled_all all).1, List.map_map]
  exact List.map_congr_left fun i _ => texts i

include range

theorem delSum_filled : (cmd.filled order).delSum = (((List.range cmd.parts).map count).sum).bmod (2 ^ 64) := by
  rw [delSum_eq (replies_filled all count texts) (by simpa using fun i (_ : i < cmd.parts) => range i), List.map_map]
  rfl

theorem dbsizeSum_filled (own : OwnShard) : dbsizeSum { cmd.filled order with own := own } =
    (((List.range cmd.parts).map count).sum).bmod (2 ^ 64) := by
  have sum : dbsizeSum { cmd.filled order with own := own } = _ :=
    dbsizeSum_eq (replies_filled all count texts) (by simpa using fun i (_ : i < cmd.parts) => range i)
  have firsts : (List.range cmd.parts).map count = ((List.range cmd.parts).zipIdx.map Prod.fst).map count := by
    rw [List.zipIdx_map_fst]
  rw [sum, List.zipIdx_map, List.map_map, firsts, List.map_map]
  rfl

end Sums

theorem sum_deleted (deleted : List Bool) : (deleted.map fun gone => if gone then (1 : Int) else 0).sum = deleted.count true := by
  induction deleted with
  | nil => rfl
  | cons gone rest ih =>
    cases gone
    · simp [ih]
    · simp only [List.map_cons, List.sum_cons, ih, List.count_cons_self, if_true]
      omega

theorem sum_used (used : List UInt64) (m : Nat) :
    (used.map fun u => ((u.toNat : Int).bmod m)).sum % m = ((used.map UInt64.toNat).sum : Int) % m := by
  induction used with
  | nil => rfl
  | cons u rest ih =>
    have first : (u.toNat : Int).bmod m % m = (u.toNat : Int) % m := Int.bmod_emod
    simp only [List.map_cons, List.sum_cons, Nat.cast_add]
    rw [Int.add_emod, first, ih, ← Int.add_emod]

theorem del_serialize {deleted : List Bool} {order : List Nat} (own : OwnShard) (few : deleted.length < 2 ^ 31)
    (all : ∀ i < deleted.length, i ∈ order) :
    PipelineSlot.serialize { filled (.del deleted) order with own := own } = reply (.del deleted) := by
  have full : ∀ i < parts (.del deleted), i ∈ order := all
  have sum := delSum_filled full (fun i => if deleted.getD i false then 1 else 0) (fun _ => rfl) fun i => by split <;> decide
  have length : parts (.del deleted) = deleted.length := rfl
  rw [length, map_getD_range (fun gone : Bool => if gone then (1 : Int) else 0), sum_deleted] at sum
  have bound : deleted.count true < 2 ^ 31 := Nat.lt_of_le_of_lt List.count_le_length few
  have value : ((filled (.del deleted) order).delSum % 2 ^ 64).toNat = deleted.count true := by
    rw [sum, bmod_size]
    omega
  have serialized : PipelineSlot.serialize { filled (.del deleted) order with own := own } =
      ascii ":" ++ digitsOf ((filled (.del deleted) order).delSum % 2 ^ 64).toNat ++ ascii "\r\n" := rfl
  rw [serialized, value, reply]

theorem dbsize_serialize {used : List UInt64} {order : List Nat} (own : OwnShard) (all : ∀ i < used.length, i ∈ order) :
    PipelineSlot.serialize { filled (.dbsize used) order with own := own } = reply (.dbsize used) := by
  have full : ∀ i < parts (.dbsize used), i ∈ order := all
  have range (x : Int) : -2 ^ 63 ≤ x.bmod (2 ^ 64) ∧ x.bmod (2 ^ 64) < 2 ^ 63 := by
    have low := Int.le_bmod (x := x) (m := 2 ^ 64) (by decide)
    have high := Int.bmod_lt (x := x) (m := 2 ^ 64) (by decide)
    norm_num at low high ⊢
    omega
  have sum := dbsizeSum_filled full (fun i => (((used.getD i 0).toNat : Int).bmod (2 ^ 64))) (fun _ => rfl) (fun i => range _) own
  have length : parts (.dbsize used) = used.length := rfl
  rw [length, map_getD_range (fun u : UInt64 => ((u.toNat : Int).bmod (2 ^ 64)))] at sum
  have same := sum_used used (2 ^ 64)
  have value : (dbsizeSum { filled (.dbsize used) order with own := own } % 2 ^ 64).toNat = (used.map UInt64.toNat).sum % 2 ^ 64 := by
    rw [sum, bmod_size]
    norm_cast at same ⊢
    rw [same]
    norm_cast
  have serialized : PipelineSlot.serialize { filled (.dbsize used) order with own := own } =
      ascii ":" ++ digitsOf (dbsizeSum { filled (.dbsize used) order with own := own } % 2 ^ 64).toNat ++ ascii "\r\n" := rfl
  rw [serialized, value, reply]

theorem serialize_filled {order : List Nat} (own : OwnShard) (few : cmd.parts < 2 ^ 31) (all : ∀ i < cmd.parts, i ∈ order) :
    PipelineSlot.serialize { cmd.filled order with own := own } = cmd.reply := by
  cases cmd with
  | mget values => exact mget_serialize own all
  | del deleted => exact del_serialize own few all
  | dbsize used => exact dbsize_serialize own all

end Reply

theorem multi_assembled {cmd : MultiCommand} {course : Course} {slot : PipelineSlot} (few : cmd.parts < 2 ^ 31)
    (served : cmd.serve course = some slot) (once : (cmd.answered course).Nodup)
    (within : ∀ i ∈ cmd.answered course, i < cmd.parts) :
    (slot.state = .done ↔ ∀ i < cmd.parts, i ∈ cmd.answered course) ∧
    (slot.state = .done → ∀ own, PipelineSlot.serialize { slot with own := own } = cmd.reply) := by
  have final : slot = (cmd.filled (cmd.answered course)).finish := by
    rw [serve_stored served, opened_eq_filled, stored_filled [] within, List.nil_append]
  have counts : (cmd.filled (cmd.answered course)).multiParts ≤ (cmd.filled (cmd.answered course)).multiReplied ↔
      ∀ i < cmd.parts, i ∈ cmd.answered course := all_answered_iff once within
  have done_iff : slot.state = .done ↔ ∀ i < cmd.parts, i ∈ cmd.answered course := by
    rw [final, finish, ← counts]
    split
    next enough => simp [enough]
    next missing =>
      have pending : (cmd.filled (cmd.answered course)).state = .pending := rfl
      simp [missing, pending]
  refine ⟨done_iff, fun finished own => ?_⟩
  have all := done_iff.1 finished
  rw [final, finish, if_pos (counts.2 all)]
  exact serialize_filled own few all

def threeKeys : MultiCommand := .mget [some [97], none, some [98]]

def threeCourse : Course :=
  { self := 0, owners := [0, 1, 0], locked := fun i => i = 2, passes := [[.other none], [.part 1]], later := [2] }

theorem multi_assembled_three : ∃ slot, threeKeys.serve threeCourse = some slot ∧ slot.state = .done ∧
    slot.serialize = ascii "*3\r\n$1\r\na\r\n$-1\r\n$1\r\nb\r\n" := by
  obtain ⟨slot, served⟩ := Option.isSome_iff_exists.1 (by decide : (threeKeys.serve threeCourse).isSome = true)
  obtain ⟨done_iff, written⟩ := multi_assembled (by decide) served (by decide) (by decide)
  have done : slot.state = .done := done_iff.2 (by decide)
  exact ⟨slot, served, done, (written done slot.own).trans (by decide)⟩

end MultiCommand

end FreakV.Net
