import FreakV.Lib.Chain
import Mathlib.Logic.Equiv.Basic

namespace Threads

variable {N L : Type} {pool : N → Prop} {lists : L → List N} {n : N} {s : L}

structure Spread (pool : N → Prop) (lists : L → List N) : Prop where
  nodup : ∀ s, (lists s).Nodup
  apart : ∀ {n s s'}, n ∈ lists s → n ∈ lists s' → s = s'
  inside : ∀ {s n}, n ∈ lists s → pool n

def Covers (pool : N → Prop) (lists : L → List N) : Prop := ∀ n, pool n → ∃ s, n ∈ lists s

theorem Spread.mono {pool' : N → Prop} (spread : Spread pool lists) (more : ∀ n, pool n → pool' n) : Spread pool' lists :=
  ⟨spread.nodup, spread.apart, fun there => more _ (spread.inside there)⟩

variable [DecidableEq L]

theorem mem_update {l : List N} {s' : L} : n ∈ Function.update lists s l s' ↔ if s' = s then n ∈ l else n ∈ lists s' := by
  rw [Function.update_apply]
  split <;> rfl

theorem Spread.shorten (spread : Spread pool lists) {l : List N} (less : l.Sublist (lists s)) :
    Spread pool (Function.update lists s l) := by
  have before {m : N} {s' : L} (there : m ∈ Function.update lists s l s') : m ∈ lists s' := by
    rw [mem_update] at there
    split at there
    next here => exact here ▸ less.subset there
    · exact there
  refine ⟨fun s' => ?_, fun first second => spread.apart (before first) (before second), fun there => spread.inside (before there)⟩
  rw [Function.update_apply]
  split
  · exact (spread.nodup s).sublist less
  · exact spread.nodup s'

theorem Spread.enter (spread : Spread pool lists) (new : ∀ s, n ∉ lists s) (within : pool n) {l : List N}
    (longer : l.Perm (n :: lists s)) : Spread pool (Function.update lists s l) := by
  have member {m : N} {s' : L} : m ∈ Function.update lists s l s' ↔ m = n ∧ s' = s ∨ m ∈ lists s' := by
    rw [mem_update]
    split
    next here => rw [longer.mem_iff, List.mem_cons, here]; simp
    next other => simp [other]
  refine ⟨fun s' => ?_, fun {m s₁ s₂} first second => ?_, fun there => ?_⟩
  · rw [Function.update_apply]
    split
    · exact longer.nodup_iff.2 (List.nodup_cons.2 ⟨new s, spread.nodup s⟩)
    · exact spread.nodup s'
  · rcases member.1 first with ⟨rfl, rfl⟩ | old
    · rcases member.1 second with ⟨-, rfl⟩ | old
      · rfl
      · exact absurd old (new _)
    · rcases member.1 second with ⟨rfl, rfl⟩ | old'
      · exact absurd old (new _)
      · exact spread.apart old old'
  · rcases member.1 there with ⟨rfl, -⟩ | there
    · exact within
    · exact spread.inside there

theorem Spread.exchange (spread : Spread pool lists) (s d : L) :
    Spread pool (Function.update (Function.update lists s (lists d)) d (lists s)) := by
  have same : Function.update (Function.update lists s (lists d)) d (lists s) = fun t => lists (Equiv.swap s d t) := by
    funext t
    rw [Equiv.swap_apply_def]
    by_cases second : t = d
    · subst second
      rw [Function.update_self]
      split
      next first => rw [first]
      · rw [if_pos rfl]
    · rw [Function.update_of_ne second]
      split
      next first => rw [first, Function.update_self]
      next first => rw [Function.update_of_ne first]
  rw [same]
  exact ⟨fun t => spread.nodup _, fun first second => (Equiv.swap s d).injective (spread.apart first second),
    fun there => spread.inside there⟩

theorem Covers.exchange (covers : Covers pool lists) (s d : L) :
    Covers pool (Function.update (Function.update lists s (lists d)) d (lists s)) := by
  intro n within
  obtain ⟨home, there⟩ := covers n within
  by_cases first : home = s
  · exact ⟨d, by rw [Function.update_self, ← first]; exact there⟩
  · by_cases second : home = d
    · subst second
      refine ⟨s, ?_⟩
      rw [Function.update_of_ne (Ne.symm first), Function.update_self]
      exact there
    · exact ⟨home, by rw [Function.update_of_ne second, Function.update_of_ne first]; exact there⟩

theorem Covers.move (covers : Covers pool lists) {d : L} {l more : List N} (left : ∀ m ∈ lists s, m = n ∨ m ∈ l)
    (entered : ∀ m, m = n ∨ m ∈ Function.update lists s l d → m ∈ more) :
    Covers pool (Function.update (Function.update lists s l) d more) := by
  have kept {m : N} {s' : L} (there : m ∈ Function.update lists s l s') :
      ∃ s', m ∈ Function.update (Function.update lists s l) d more s' := by
    by_cases here : s' = d
    · subst here
      exact ⟨s', by rw [Function.update_self]; exact entered m (.inr there)⟩
    · exact ⟨s', by rw [Function.update_of_ne here]; exact there⟩
  intro m within
  obtain ⟨home, there⟩ := covers m within
  by_cases source : home = s
  · subst source
    rcases left m there with rfl | stays
    · exact ⟨d, by rw [Function.update_self]; exact entered m (.inl rfl)⟩
    · exact kept (show m ∈ Function.update lists home l home by rwa [Function.update_self])
  · exact kept (show m ∈ Function.update lists s l home by rwa [Function.update_of_ne source])

end Threads
