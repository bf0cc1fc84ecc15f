import Mathlib.Logic.Function.Basic

namespace Transition

variable {S A : Type}

/-- The states a run from `start` visits when every step it takes is `allowed`. -/
inductive Reaches (step : S → A → Option S) (allowed : S → A → Prop) (start : S) : S → Prop
  | refl : Reaches step allowed start start
  | tail {state next : S} {action : A} : Reaches step allowed start state →
      allowed state action → step state action = some next → Reaches step allowed start next

theorem Reaches.invariant {step : S → A → Option S} {allowed : S → A → Prop} {start state : S}
    {property : S → Prop} (reached : Reaches step allowed start state) (initial : property start)
    (preserved : ∀ {before after : S} {action : A}, property before → allowed before action →
      step before action = some after → property after) :
    property state := by
  induction reached with
  | refl => exact initial
  | tail _ permitted moved ih => exact preserved ih permitted moved

theorem Reaches.mono {step : S → A → Option S} {allowed weaker : S → A → Prop} {start state : S}
    (reached : Reaches step allowed start state)
    (weaken : ∀ before action, allowed before action → weaker before action) :
    Reaches step weaker start state := by
  induction reached with
  | refl => exact .refl
  | tail _ permitted moved ih => exact .tail ih (weaken _ _ permitted) moved

theorem Reaches.trans {step : S → A → Option S} {allowed : S → A → Prop} {start middle state : S}
    (first : Reaches step allowed start middle) (second : Reaches step allowed middle state) :
    Reaches step allowed start state := by
  induction second with
  | refl => exact first
  | tail _ permitted moved ih => exact .tail ih permitted moved

def follow (step : S → A → Option S) (check : S → A → Bool) : List A → S → Option S
  | [], state => some state
  | action :: rest, state =>
    if check state action then
      match step state action with
      | some next => follow step check rest next
      | none => none
    else none

theorem follow_reaches {step : S → A → Option S} {check : S → A → Bool} {allowed : S → A → Prop}
    (sound : ∀ state action, check state action = true → allowed state action)
    {actions : List A} {start state : S} (followed : follow step check actions start = some state) :
    Reaches step allowed start state := by
  induction actions generalizing start with
  | nil =>
    cases followed
    exact .refl
  | cons action rest ih =>
    simp only [follow] at followed
    split at followed
    next passed =>
      cases moved : step start action with
      | none => simp [moved] at followed
      | some next =>
        simp only [moved] at followed
        exact Reaches.trans (.tail .refl (sound _ _ passed) moved) (ih followed)
    · cases followed

end Transition
