import Mathlib.Logic.Relation
import Mathlib.Tactic

/-!
`step related` says when one step of two states matches, given which states are
related afterwards. The largest relation that a monotone `step` allows is had by
exhibiting any relation that it allows, and where matching steps can be turned around and put
together it is enough that they lead to states linked by the relation.
-/

namespace DeveloperTools.Bisimulation

variable {State : Type} (step : (State → State → Prop) → State → State → Prop)

def Bisimilar (left right : State) : Prop :=
  ∃ related : State → State → Prop,
    (∀ left right, related left right → step related left right) ∧ related left right

/-- Relating more states keeps a step matched. -/
def StepMonotone : Prop :=
  ∀ (related wider : State → State → Prop), (∀ left right, related left right → wider left right) →
    ∀ left right, step related left right → step wider left right

variable {step} {left right : State}

theorem bisimilar_step (monotone : StepMonotone step)
    (similar : Bisimilar step left right) : step (Bisimilar step) left right := by
  obtain ⟨related, closed, here⟩ := similar
  apply monotone related
  · intro left' right' there
    exact ⟨related, closed, there⟩
  · exact closed left right here

theorem bisimilar_symm (flips : ∀ (related : State → State → Prop) left right,
      step related left right → step (fun left right => related right left) right left)
    (similar : Bisimilar step left right) : Bisimilar step right left := by
  obtain ⟨related, closed, here⟩ := similar
  refine ⟨fun left right => related right left, ?_, here⟩
  intro left' right' there
  exact flips related right' left' (closed right' left' there)

/-- A step is matched by itself, matched steps can be turned around and put together. -/
structure StepEquivalence (step : (State → State → Prop) → State → State → Prop) : Prop where
  refl : ∀ related : State → State → Prop, (∀ state, related state state) →
    ∀ state, step related state state
  flips : ∀ (related : State → State → Prop) left right,
    step related left right → step (fun left right => related right left) right left
  trans : ∀ related : State → State → Prop,
    (∀ left middle right, related left middle → related middle right → related left right) →
      ∀ left middle right, step related left middle → step related middle right →
        step related left right

/-- A relation whose steps lead to states that it links is within bisimilarity. -/
theorem bisimilar_of_linked (monotone : StepMonotone step) (equivalence : StepEquivalence step)
    (related : State → State → Prop)
    (closed : ∀ left right, related left right →
      step (Relation.EqvGen related) left right)
    (here : related left right) : Bisimilar step left right := by
  refine ⟨Relation.EqvGen related, fun left right linked => ?_, .rel _ _ here⟩
  induction linked with
  | rel left right among => exact closed left right among
  | refl state => exact equivalence.refl _ .refl state
  | symm left right _ ih =>
    exact monotone _ _ (fun _ _ there => .symm _ _ there) _ _ (equivalence.flips _ _ _ ih)
  | trans left middle right _ _ first second =>
    exact equivalence.trans _ .trans left middle right first second

end DeveloperTools.Bisimulation
