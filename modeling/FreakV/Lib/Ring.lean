import Mathlib.Data.List.Chain

namespace Linked

variable {S : Type} {next : S → S}

def Cyclic (next : S → S) (nodes : List S) : Prop :=
  (nodes ++ nodes.head?.toList).IsChain (next · = ·)

theorem Cyclic.congr {next' : S → S} {nodes : List S} (ring : Cyclic next nodes)
    (same : ∀ a ∈ nodes, next' a = next a) : Cyclic next' nodes := by
  have inside {a : S} (there : a ∈ nodes ++ nodes.head?.toList) : a ∈ nodes := by
    obtain there | there := List.mem_append.1 there
    · exact there
    · exact List.mem_of_mem_head? (Option.mem_toList.1 there)
  refine List.IsChain.imp_of_mem_imp ?_ ring
  intro a b here _ leads
  exact (same a (inside here)).trans leads

theorem Cyclic.rotate {a b : S} {rest : List S} (ring : Cyclic next (a :: b :: rest)) :
    Cyclic next (b :: (rest ++ [a])) := by
  have chain : (a :: b :: (rest ++ [a])).IsChain (next · = ·) := by simpa [Cyclic] using ring
  have leads : next a = b := (List.isChain_cons_cons.1 chain).1
  have onward : (b :: (rest ++ [a])).IsChain (next · = ·) := (List.isChain_cons_cons.1 chain).2
  refine List.IsChain.append onward (.singleton b) ?_
  intro x last y first
  simp only [← List.cons_append, List.getLast?_concat, Option.mem_def, Option.some.injEq] at last
  simp only [List.head?_cons, Option.toList, Option.mem_def, Option.some.injEq] at first
  rw [← last, ← first, leads]

theorem Cyclic.next_eq {upto after : List S} {last first : S} (ring : Cyclic next (upto ++ [last] ++ after))
    (starts : (upto ++ [last]).head? = some first) : next last = after.headD first := by
  have chain : (upto ++ [last] ++ (after ++ [first])).IsChain (next · = ·) := by
    have chain := ring
    rwa [Cyclic, List.head?_append, starts, Option.some_or, Option.toList_some, List.append_assoc] at chain
  have leads := (List.isChain_append.1 chain).2.2 last (by simp)
  exact leads _ (by cases after <;> simp)

theorem Cyclic.insert {next' : S → S} {upto after : List S} {last new : S} (ring : Cyclic next (upto ++ [last] ++ after))
    (nodup : (upto ++ [last] ++ after).Nodup) (fresh : new ∉ upto ++ [last] ++ after) (linked : next' last = new)
    (leads : next' new = next last) (same : ∀ a, a ≠ last → a ≠ new → next' a = next a) :
    Cyclic next' (upto ++ [last] ++ new :: after) := by
  obtain ⟨first, starts⟩ : ∃ first, (upto ++ [last]).head? = some first := by
    cases upto <;> simp
  have start (rest : List S) : (upto ++ [last] ++ rest).head? = some first := by
    rw [List.head?_append, starts, Option.some_or]
  have chain : ((upto ++ [last]) ++ (after ++ [first])).IsChain (next · = ·) := by
    have chain := ring
    rwa [Cyclic, start, Option.toList_some, List.append_assoc] at chain
  obtain ⟨left, right, -⟩ := List.isChain_append.1 chain
  have apart : last ∉ upto ∧ last ∉ after := by
    simp only [List.nodup_append, List.nodup_cons, List.mem_append, List.mem_singleton] at nodup
    refine ⟨fun there => ?_, fun there => ?_⟩
    · exact nodup.1.2.2 last there last rfl rfl
    · exact nodup.2.2 last (.inr rfl) last there rfl
  -- only the links of `last` and of the new node have changed
  have before {a : S} (here : a ∈ upto) : next' a = next a :=
    same a (fun eq => apart.1 (eq ▸ here)) (fun eq => fresh (by simp [← eq, here]))
  have behind {a : S} (here : a ∈ after) : next' a = next a :=
    same a (fun eq => apart.2 (eq ▸ here)) (fun eq => fresh (by simp [← eq, here]))
  rw [Cyclic, start, Option.toList_some, List.append_assoc, List.cons_append]
  refine List.isChain_append.2 ⟨?_, List.IsChain.cons ?_ ?_, ?_⟩
  · rw [List.isChain_append] at left ⊢
    refine ⟨List.IsChain.imp_of_mem_imp (fun a b here _ old => (before here).trans old) left.1, .singleton _, ?_⟩
    intro x isLast y first
    exact (before (List.mem_of_getLast? isLast)).trans (left.2.2 x isLast y first)
  · rw [List.isChain_append] at right ⊢
    refine ⟨List.IsChain.imp_of_mem_imp (fun a b here _ old => (behind here).trans old) right.1, .singleton _, ?_⟩
    intro x isLast y first
    exact (behind (List.mem_of_getLast? isLast)).trans (right.2.2 x isLast y first)
  · intro y first
    rw [leads, ring.next_eq starts]
    cases after <;> simpa using first
  · intro x isLast y first
    simp only [List.getLast?_concat, Option.mem_def, Option.some.injEq] at isLast
    simp only [List.head?_cons, Option.mem_def, Option.some.injEq] at first
    rw [← isLast, ← first, linked]

end Linked
