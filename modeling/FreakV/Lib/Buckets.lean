import Mathlib.Data.List.Perm.Basic
import Mathlib.Data.List.Nodup
import Mathlib.Logic.Function.Basic

namespace Buckets

variable {A K : Type}

def gather (f : Nat → List A) (n : Nat) : List A := (List.range n).flatMap f

theorem mem_gather {f : Nat → List A} {n : Nat} {a : A} : a ∈ gather f n ↔ ∃ i < n, a ∈ f i := by
  simp [gather]

theorem gather_congr {f g : Nat → List A} {n : Nat} (same : ∀ i < n, f i = g i) : gather f n = gather g n := by
  unfold gather
  rw [List.flatMap_def, List.flatMap_def, List.map_congr_left fun i member => same i (List.mem_range.1 member)]

theorem gather_succ (f : Nat → List A) (n : Nat) : gather f (n + 1) = gather f n ++ f n := by
  simp [gather, List.range_succ]

theorem gather_extend {f : Nat → List A} {n m : Nat} (longer : n ≤ m) (empty : ∀ i, n ≤ i → f i = []) :
    gather f m = gather f n := by
  induction longer with
  | refl => rfl
  | step longer ih => rw [gather_succ, empty _ longer, List.append_nil, ih]

theorem gather_split (f : Nat → List A) {i n : Nat} (inside : i < n) :
    (gather f n).Perm (f i ++ gather (Function.update f i []) n) := by
  induction n with
  | zero => cases inside
  | succ n ih =>
    rw [gather_succ, gather_succ]
    by_cases last : i = n
    · subst last
      have rest : gather (Function.update f i []) i = gather f i :=
        gather_congr fun j before => Function.update_of_ne (Nat.ne_of_lt before) _ _
      rw [rest, Function.update_self, List.append_nil]
      exact List.perm_append_comm
    · rw [Function.update_of_ne (Ne.symm last), ← List.append_assoc]
      exact (ih (by omega)).append_right _

theorem gather_update (f : Nat → List A) {i n : Nat} (inside : i < n) (content : List A) :
    (gather (Function.update f i content) n).Perm (content ++ gather (Function.update f i []) n) := by
  have split := gather_split (Function.update f i content) inside
  rwa [Function.update_self, Function.update_idem] at split

theorem gather_update_perm {f : Nat → List A} {i n : Nat} (inside : i < n) {content added removed : List A}
    (change : (content ++ removed).Perm (f i ++ added)) :
    (gather (Function.update f i content) n ++ removed).Perm (gather f n ++ added) := by
  have before := gather_split f inside
  have after := gather_update f inside content
  calc (gather (Function.update f i content) n ++ removed)
      |>.Perm ((content ++ gather (Function.update f i []) n) ++ removed) := after.append_right _
    _ |>.Perm ((content ++ removed) ++ gather (Function.update f i []) n) := by
      simp only [List.append_assoc]
      exact List.perm_append_comm.append_left _
    _ |>.Perm ((f i ++ added) ++ gather (Function.update f i []) n) := change.append_right _
    _ |>.Perm ((f i ++ gather (Function.update f i []) n) ++ added) := by
      simp only [List.append_assoc]
      exact List.perm_append_comm.append_left _
    _ |>.Perm (gather f n ++ added) := before.symm.append_right _

section Keyed

variable [DecidableEq K] {key : A → K}

theorem find?_eq_some_iff_of_nodup {l : List A} (nodup : (l.map key).Nodup) {k : K} {a : A} :
    l.find? (fun b => key b = k) = some a ↔ a ∈ l ∧ key a = k := by
  constructor
  · intro found
    exact ⟨List.mem_of_find?_eq_some found, by simpa using List.find?_some found⟩
  · rintro ⟨member, rfl⟩
    cases found : l.find? (fun b => key b = key a) with
    | none => simpa using List.find?_eq_none.1 found a member
    | some b =>
      have same : key b = key a := by simpa using List.find?_some found
      rw [List.inj_on_of_nodup_map nodup (List.mem_of_find?_eq_some found) member same]

theorem find?_perm {l l' : List A} (nodup : (l.map key).Nodup) (perm : l'.Perm l) (k : K) :
    l'.find? (fun b => key b = k) = l.find? (fun b => key b = k) := by
  have nodup' : (l'.map key).Nodup := (perm.map key).nodup_iff.2 nodup
  apply Option.ext
  intro a
  rw [find?_eq_some_iff_of_nodup nodup, find?_eq_some_iff_of_nodup nodup', perm.mem_iff]

end Keyed

end Buckets
