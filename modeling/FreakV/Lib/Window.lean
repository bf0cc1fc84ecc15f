import Mathlib.Data.Nat.ModEq
import Mathlib.Tactic.NormNum

namespace FreakV.Window

def place (cap seq : UInt32) : Nat := (seq &&& (cap - 1)).toNat

def nth (start : UInt32) (i : Nat) : UInt32 := start + UInt32.ofNat i

def PowerOfTwo (cap : UInt32) : Prop := ∃ k, cap.toNat = 2 ^ k

variable {α : Type} {cap start seq : UInt32} {i j : Nat}

theorem nth_zero (start : UInt32) : nth start 0 = start := by simp [nth]

theorem nth_add (start : UInt32) (i j : Nat) : nth (nth start i) j = nth start (i + j) := by
  simp only [nth, UInt32.ofNat_add, UInt32.add_assoc]

theorem nth_succ (start : UInt32) (i : Nat) : nth start i + 1 = nth start (i + 1) := nth_add start i 1

theorem toNat_nth (start : UInt32) (i : Nat) : (nth start i).toNat = (start.toNat + i) % 2 ^ 32 := by
  simp only [nth, UInt32.toNat_add, UInt32.toNat_ofNat', Nat.add_mod_mod]

theorem nth_sub_toNat (start : UInt32) (small : i < 2 ^ 32) : (nth start i - start).toNat = i := by
  have below := start.toNat_lt
  rw [UInt32.toNat_sub, toNat_nth]
  omega

theorem nth_distance (start seq : UInt32) : nth start (seq - start).toNat = seq := by
  rw [← UInt32.toNat_inj, toNat_nth, UInt32.toNat_sub]
  have below := start.toNat_lt
  have below' := seq.toNat_lt
  omega

theorem nth_inj (below : i < 2 ^ 32) (below' : j < 2 ^ 32) (same : nth start i = nth start j) : i = j := by
  rw [← nth_sub_toNat start below, ← nth_sub_toNat start below', same]

theorem PowerOfTwo.pos (power : PowerOfTwo cap) : 0 < cap.toNat := by
  obtain ⟨k, size⟩ := power
  rw [size]
  exact Nat.two_pow_pos k

theorem PowerOfTwo.place_eq (power : PowerOfTwo cap) (seq : UInt32) : place cap seq = seq.toNat % cap.toNat := by
  have positive := power.pos
  obtain ⟨k, size⟩ := power
  have pred : (cap - 1).toNat = 2 ^ k - 1 := by
    rw [UInt32.toNat_sub_of_le _ _ (by rw [UInt32.le_iff_toNat_le]; exact positive), size]
    rfl
  rw [place, UInt32.toNat_and, pred, Nat.and_two_pow_sub_one_eq_mod, size]

theorem PowerOfTwo.dvd (power : PowerOfTwo cap) : cap.toNat ∣ 2 ^ 32 := by
  have below := cap.toNat_lt
  obtain ⟨k, size⟩ := power
  rw [size] at below ⊢
  exact Nat.pow_dvd_pow 2 (Nat.pow_lt_pow_iff_right (by norm_num) |>.1 below).le

theorem PowerOfTwo.place_nth (power : PowerOfTwo cap) (start : UInt32) (i : Nat) :
    place cap (nth start i) = (start.toNat + i) % cap.toNat := by
  rw [power.place_eq, toNat_nth, Nat.mod_mod_of_dvd _ power.dvd]

theorem PowerOfTwo.place_inj (power : PowerOfTwo cap) (within : i < cap.toNat) (within' : j < cap.toNat)
    (same : place cap (nth start i) = place cap (nth start j)) : i = j := by
  rw [power.place_nth, power.place_nth] at same
  have close : i % cap.toNat = j % cap.toNat := Nat.ModEq.add_left_cancel' start.toNat same
  rwa [Nat.mod_eq_of_lt within, Nat.mod_eq_of_lt within'] at close

theorem PowerOfTwo.double (power : PowerOfTwo cap) (half : cap.toNat < 2 ^ 31) :
    PowerOfTwo (cap * 2) ∧ (cap * 2).toNat = 2 * cap.toNat := by
  have doubled : (cap * 2).toNat = 2 * cap.toNat := by
    rw [UInt32.toNat_mul]
    change cap.toNat * 2 % 2 ^ 32 = _
    omega
  obtain ⟨k, size⟩ := power
  exact ⟨⟨k + 1, by rw [doubled, size, Nat.pow_succ, Nat.mul_comm]⟩, doubled⟩

theorem toInt32_neg (x : UInt32) : x.toInt32 < 0 ↔ 2 ^ 31 ≤ x.toNat := by
  have value : x.toInt32.toInt = (x.toNat : Int).bmod (2 ^ 32) := BitVec.toInt_eq_toNat_bmod _
  have below := x.toNat_lt
  rw [Int32.lt_iff_toInt_lt, value, show (0 : Int32).toInt = 0 from rfl, Int.bmod_def]
  omega

theorem outside_iff {n : Nat} (short : n < 2 ^ 31) (start seq : UInt32) :
    ((seq - start).toInt32 < 0 ∨ ¬(seq - nth start n).toInt32 < 0) ↔ n ≤ (seq - start).toNat := by
  have below := start.toNat_lt
  have below' := seq.toNat_lt
  rw [toInt32_neg, toInt32_neg, UInt32.toNat_sub, UInt32.toNat_sub, toNat_nth]
  omega

def window (slots : Nat → α) (cap start : UInt32) (n : Nat) : List α :=
  (List.range n).map fun i => slots (place cap (nth start i))

theorem length_window (slots : Nat → α) (cap start : UInt32) (n : Nat) : (window slots cap start n).length = n := by
  simp [window]

theorem window_succ (slots : Nat → α) (cap start : UInt32) (n : Nat) :
    window slots cap start (n + 1) = window slots cap start n ++ [slots (place cap (nth start n))] := by
  simp [window, List.range_succ]

theorem window_cons (slots : Nat → α) (cap start : UInt32) (n : Nat) :
    window slots cap start (n + 1) = slots (place cap start) :: window slots cap (start + 1) n := by
  have next : nth start 1 = start + 1 := rfl
  simp only [window, List.range_succ_eq_map, List.map_cons, List.map_map, nth_zero, ← next]
  congr 1
  refine List.map_congr_left fun i _ => ?_
  rw [Function.comp, nth_add, Nat.add_comm]

theorem getElem?_window (slots : Nat → α) {n : Nat} (within : i < n) :
    (window slots cap start n)[i]? = some (slots (place cap (nth start i))) := by
  simp [window, within]

theorem window_congr {slots slots' : Nat → α} {n : Nat}
    (same : ∀ i < n, slots' (place cap (nth start i)) = slots (place cap (nth start i))) :
    window slots' cap start n = window slots cap start n :=
  List.map_congr_left fun i member => same i (List.mem_range.1 member)

theorem PowerOfTwo.update_other (power : PowerOfTwo cap) (within : i < cap.toNat) (within' : j < cap.toNat)
    (other : j ≠ i) (slots : Nat → α) (x : α) :
    Function.update slots (place cap (nth start i)) x (place cap (nth start j)) = slots (place cap (nth start j)) :=
  Function.update_of_ne (fun same => other (power.place_inj within' within same)) _ _

theorem PowerOfTwo.window_push (power : PowerOfTwo cap) (start : UInt32) {n : Nat} (room : n < cap.toNat)
    (slots : Nat → α) (x : α) :
    window (Function.update slots (place cap (nth start n)) x) cap start (n + 1) = window slots cap start n ++ [x] := by
  rw [window_succ, Function.update_self]
  congr 1
  exact window_congr fun j below => power.update_other room (by omega) (by omega) slots x

theorem PowerOfTwo.window_modify (power : PowerOfTwo cap) (start : UInt32) {n : Nat} (fits : n ≤ cap.toNat)
    (within : i < n) (slots : Nat → α) (f : α → α) :
    window (Function.update slots (place cap (nth start i)) (f (slots (place cap (nth start i))))) cap start n =
      (window slots cap start n).modify i f := by
  refine List.ext_getElem (by simp [length_window]) fun j below _ => ?_
  rw [length_window] at below
  rw [List.getElem_modify]
  simp only [window, List.getElem_map, List.getElem_range]
  split
  next same => rw [← same, Function.update_self]
  next other => exact power.update_other (by omega) (by omega) (fun same => other same.symm) slots _

theorem PowerOfTwo.window_pop (power : PowerOfTwo cap) (start : UInt32) {n : Nat} (fits : n < cap.toNat)
    (slots : Nat → α) (x : α) :
    window slots cap start (n + 1) =
      slots (place cap start) :: window (Function.update slots (place cap start) x) cap (start + 1) n := by
  rw [window_cons]
  congr 1
  refine (window_congr fun j below => ?_).symm
  have other : Function.update slots (place cap (nth start 0)) x (place cap (nth start (j + 1))) = _ :=
    power.update_other power.pos (by omega) (by omega) slots x
  rw [nth_zero] at other
  rw [show start + 1 = nth start 1 from rfl, nth_add, Nat.add_comm]
  exact other

end FreakV.Window
