import Mathlib.Data.List.Induction

namespace FreakV.Buffer

variable {α : Type}

def store (buf : List α) (i : Nat) (a : α) : Option (List α) := if i < buf.length then some (buf.set i a) else none

def memcpy (buf : List α) (start : Nat) (src : List α) (n : Nat) : Option (List α) :=
  if n ≤ src.length ∧ start + n ≤ buf.length then some (buf.take start ++ src.take n ++ buf.drop (start + n)) else none

def reverseBetween (buf : List α) (a b : Nat) : Option (List α) :=
  if a < b then do
    let t ← buf[a]?
    let buf ← store buf a (← buf[b]?)
    reverseBetween (← store buf b t) (a + 1) (b - 1)
  else some buf
termination_by b - a

def copyReversed (buf : List α) (start : Nat) (src : List α) (n j : Nat) : Option (List α) :=
  if j < n then do copyReversed (← store buf (start + j) (← src[n - 1 - j]?)) start src n (j + 1) else some buf
termination_by n - j

theorem room_for {buf : List α} {n : Nat} (fits : n ≤ buf.length) : ∃ room rest, room.length = n ∧ buf = room ++ rest :=
  ⟨buf.take n, buf.drop n, List.length_take_of_le fits, (List.take_append_drop n buf).symm⟩

variable {front rest : List α}

@[simp]
theorem store_append (a b : α) : store (front ++ a :: rest) front.length b = some (front ++ b :: rest) := by
  simp [store]

theorem memcpy_append {room data : List α} (src : List α) (fits : room.length = data.length) :
    memcpy (front ++ (room ++ rest)) front.length (data ++ src) data.length = some (front ++ (data ++ rest)) := by
  simp [memcpy, ← fits]

theorem reverseBetween_append (list : List α) :
    reverseBetween (front ++ (list ++ rest)) front.length (front.length + list.length - 1) =
      some (front ++ (list.reverse ++ rest)) := by
  induction list using List.bidirectionalRec generalizing front rest with
  | nil => rw [reverseBetween, if_neg (by simp)]; rfl
  | singleton a => rw [reverseBetween, if_neg (by simp)]; rfl
  | cons_append a list b ih =>
    have last : front.length + (a :: (list ++ [b])).length - 1 = (front ++ a :: list).length := by simp
    have put := @store_append α (front ++ b :: list) rest b a
    have inner := @ih (front ++ [b]) (a :: rest)
    rw [last, reverseBetween, if_pos (by simp)]
    simp_all

theorem copyReversed_append (list more src : List α) {room : List α} (fits : room.length = list.length) :
    copyReversed (front ++ (more.reverse ++ (room ++ rest))) front.length (list ++ (more ++ src))
      (list.length + more.length) more.length = some (front ++ ((list ++ more).reverse ++ rest)) := by
  induction list using List.reverseRecOn generalizing more room with
  | nil =>
    obtain rfl : room = [] := by simpa using fits
    rw [copyReversed, if_neg (by simp)]
    simp
  | append_singleton list a ih =>
    cases room with
    | nil => simp at fits
    | cons c room =>
      have count : (list ++ [a]).length + more.length = list.length + (more.length + 1) := by simp; omega
      have last : list.length + (more.length + 1) - 1 - more.length = list.length := by omega
      have put := @store_append α (front ++ more.reverse) (room ++ rest) c a
      have next := ih (a :: more) (by simpa using fits)
      rw [count, copyReversed, if_pos (by omega), last]
      simp_all

end FreakV.Buffer
