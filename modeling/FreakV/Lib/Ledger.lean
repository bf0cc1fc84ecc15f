import Mathlib.Algebra.BigOperators.Group.Multiset.Basic
import Mathlib.Tactic.Abel

namespace Ledger

section Balance

variable {B : Type} {before live held lost : Multiset B}

def Balanced (before live held lost : Multiset B) : Prop := live = before + held + lost

theorem Balanced.move [DecidableEq B] (balanced : Balanced before live held lost) {taken given more after : Multiset B}
    (moved : held + taken = after + given + more) : Balanced before (live + taken - given) after (lost + more) := by
  have total : live + taken = (before + after + (lost + more)) + given := by
    calc live + taken = before + lost + (held + taken) := by
          rw [balanced]
          abel
      _ = (before + after + (lost + more)) + given := by
          rw [moved]
          abel
  rw [Balanced, total, Multiset.add_sub_cancel_right]

theorem Balanced.unchanged_iff (balanced : Balanced before live 0 lost) : live = before ↔ lost = 0 := by
  rw [balanced, add_zero, add_eq_left]

end Balance

section Sums

variable {α M : Type} [AddCommMonoid M]

theorem sum_set (f : α → M) {l : List α} {i : Nat} {old : α} (there : l[i]? = some old) (new : α) :
    ((l.set i new).map f).sum + f old = (l.map f).sum + f new := by
  induction l generalizing i with
  | nil => cases there
  | cons head rest ih =>
    cases i with
    | zero =>
      cases there
      simp only [List.set_cons_zero, List.map_cons, List.sum_cons]
      abel
    | succ i =>
      simp only [List.set_cons_succ, List.map_cons, List.sum_cons, add_assoc, ih there]

theorem sum_erase [DecidableEq α] (f : α → M) {m : Multiset α} {x : α} (there : x ∈ m) :
    (m.map f).sum = f x + ((m.erase x).map f).sum := by
  rw [← Multiset.sum_cons, ← Multiset.map_cons, Multiset.cons_erase there]

end Sums

end Ledger
