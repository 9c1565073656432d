import Mathlib.Tactic

/-!
Items that are laid one behind the other in strips. A strip begins at an address of its own, and
each further item is put at the end of the one before, rounded up. Two strips share no address if
neither begins inside the other; if they begin on a grid that no rounding steps over, only then.
-/

namespace DeveloperTools

structure Packing where
  /-- Where a strip begins, at the items that begin one. -/
  restart : Nat → Option Nat
  /-- Where an item is put that may not start below the address. -/
  round : Nat → Nat → Nat
  size : Nat → Nat

namespace Packing

variable (packing : Packing)

/-- The end of the items below the index. -/
def ended : Nat → Nat
  | 0 => 0
  | item + 1 =>
    packing.round item ((packing.restart item).getD (ended item)) + packing.size item

/-- Where the strip of the last item below the index begins. -/
def begun : Nat → Nat
  | 0 => 0
  | item + 1 => (packing.restart item).getD (begun item)

def start (item : Nat) : Nat :=
  (packing.restart item).getD (packing.ended item)

def place (item : Nat) : Nat :=
  packing.round item (packing.start item)

/-- The later item is in the strip of the earlier one. -/
def Onward (earlier later : Nat) : Prop :=
  earlier ≤ later ∧ ∀ item ≤ later, earlier < item → packing.restart item = none

instance (earlier later : Nat) : Decidable (packing.Onward earlier later) :=
  inferInstanceAs (Decidable (_ ∧ _))

/-- Rounding goes upwards, for the items of a strip up to the one given. -/
def Rises (last : Nat) : Prop :=
  ∀ item, packing.Onward item last → packing.start item ≤ packing.place item

/-- No rounding steps over the address. -/
def OnGrid (last address : Nat) : Prop :=
  ∀ item, packing.Onward item last → ∀ start ≤ address, packing.round item start ≤ address

variable {packing} {earlier later item last address : Nat}

theorem ended_succ : packing.ended (item + 1) = packing.place item + packing.size item := rfl

theorem onward_refl : packing.Onward item item := ⟨le_rfl, fun _ le lt => absurd le lt.not_ge⟩

theorem Onward.step (onward : packing.Onward earlier item)
    (goesOn : packing.restart (item + 1) = none) : packing.Onward earlier (item + 1) := by
  refine ⟨onward.1.trans (Nat.le_succ item), fun next le lt => ?_⟩
  rcases Nat.le_succ_iff.mp le with before | rfl
  · exact onward.2 next before lt
  · exact goesOn

theorem Onward.trans (first : packing.Onward earlier item) (second : packing.Onward item later) :
    packing.Onward earlier later := by
  refine ⟨first.1.trans second.1, fun next le lt => ?_⟩
  rcases Nat.lt_or_ge item next with above | upTo
  · exact second.2 next le above
  · exact first.2 next upTo lt

theorem Onward.from_later (onward : packing.Onward earlier last) (later : earlier ≤ item)
    (before : item ≤ last) : packing.Onward item last :=
  ⟨before, fun next le lt => onward.2 next le (later.trans_lt lt)⟩

theorem Onward.begun_eq (onward : packing.Onward earlier later) :
    packing.begun (earlier + 1) = packing.begun (later + 1) := by
  obtain ⟨le, goesOn⟩ := onward
  induction later, le using Nat.le_induction with
  | base => rfl
  | succ later le ih =>
    rw [ih fun next upTo lt => goesOn next (by omega) lt]
    conv => rhs; rw [begun, goesOn (later + 1) le_rfl (by omega)]
    rfl

theorem Rises.of_onward (rises : packing.Rises last) (onward : packing.Onward item last) :
    packing.Rises item := fun next before => rises next (before.trans onward)

theorem Rises.begun_le (rises : packing.Rises last) :
    packing.begun (last + 1) ≤ packing.place last := by
  induction last with
  | zero =>
    refine le_trans ?_ (rises 0 onward_refl)
    exact le_rfl
  | succ last ih =>
    refine le_trans ?_ (rises (last + 1) onward_refl)
    cases here : packing.restart (last + 1) with
    | some address => simp only [begun, start, here, Option.getD_some, le_refl]
    | none =>
      have before := ih (rises.of_onward (onward_refl.step here))
      rw [begun, start, here, Option.getD_none, Option.getD_none, ended_succ]
      omega

theorem Rises.ended_le (rises : packing.Rises later) (onward : packing.Onward earlier later)
    (lt : earlier < later) : packing.ended (earlier + 1) ≤ packing.place later := by
  obtain ⟨_, goesOn⟩ := onward
  induction later, lt using Nat.le_induction with
  | base =>
    have rise := rises _ onward_refl
    rw [start, goesOn _ le_rfl (by omega)] at rise
    exact rise
  | succ later le ih =>
    have goesHere := goesOn (later + 1) le_rfl (by omega)
    have before := ih (rises.of_onward (onward_refl.step goesHere))
      (by omega) fun next upTo lt => goesOn next (by omega) lt
    have rise := rises _ onward_refl
    rw [start, goesHere, Option.getD_none, ended_succ] at rise
    omega

/-- An address on the grid that the strip reaches over is in one of its items. -/
theorem exists_item (grid : packing.OnGrid last address)
    (above : packing.begun (last + 1) ≤ address) (below : address < packing.ended (last + 1)) :
    ∃ item, packing.Onward item last ∧ packing.place item ≤ address ∧
      address < packing.ended (item + 1) := by
  -- from the last item downwards: what lies below it lies below its start, not in the rounding
  induction last with
  | zero =>
    refine ⟨0, onward_refl, grid 0 onward_refl _ ?_, below⟩
    exact above
  | succ last ih =>
    by_cases reached : packing.start (last + 1) ≤ address
    · exact ⟨last + 1, onward_refl, grid _ onward_refl _ reached, below⟩
    cases here : packing.restart (last + 1) with
    | some first =>
      rw [begun, here] at above
      rw [start, here] at reached
      exact absurd above reached
    | none =>
      rw [begun, here] at above
      rw [start, here] at reached
      have further := onward_refl.step here
      obtain ⟨item, onward, found⟩ := ih (fun item onward => grid item (onward.trans further))
        above (not_le.mp reached)
      exact ⟨item, onward.trans further, found⟩

/-- A strip that begins on the grid has its first contents right there. -/
theorem exists_first (rises : packing.Rises last)
    (grid : packing.OnGrid last (packing.begun (last + 1))) (contents : packing.size last ≠ 0) :
    ∃ item, packing.Onward item last ∧ packing.size item ≠ 0 ∧
      packing.place item = packing.begun (last + 1) := by
  have reached : packing.begun (last + 1) < packing.ended (last + 1) := by
    have low := rises.begun_le
    rw [ended_succ]
    omega
  obtain ⟨item, onward, high, within⟩ := exists_item grid le_rfl reached
  have low := (rises.of_onward onward).begun_le
  rw [onward.begun_eq] at low
  rw [ended_succ] at within
  exact ⟨item, onward, by omega, high.antisymm low⟩

section Two

variable (left right : Packing)

/-- The strip of the second item begins inside that of the first. -/
def Inside (first second : Nat) : Prop :=
  left.begun (first + 1) ≤ right.begun (second + 1) ∧
    right.begun (second + 1) < left.ended (first + 1)

instance (first second : Nat) : Decidable (Inside left right first second) :=
  inferInstanceAs (Decidable (_ ∧ _))

variable {left right} {first second : Nat}

theorem apart_of_not_inside (leftRises : left.Rises first) (rightRises : right.Rises second)
    (after : ¬ Inside left right first second) (before : ¬ Inside right left second first) :
    left.ended (first + 1) ≤ right.place second ∨ right.ended (second + 1) ≤ left.place first := by
  have leftLow := leftRises.begun_le
  have rightLow := rightRises.begun_le
  unfold Inside at after before
  omega

theorem exists_shared (rightRises : right.Rises second) (contents : right.size second ≠ 0)
    (leftGrid : left.OnGrid first (right.begun (second + 1)))
    (rightGrid : right.OnGrid second (right.begun (second + 1)))
    (inside : Inside left right first second) :
    ∃ other item, left.Onward other first ∧ right.Onward item second ∧ right.size item ≠ 0 ∧
      left.place other ≤ right.place item ∧ right.place item < left.ended (other + 1) := by
  obtain ⟨item, onward, contents, isFirst⟩ := exists_first rightRises rightGrid contents
  obtain ⟨other, before, low, high⟩ := exists_item leftGrid inside.1 inside.2
  rw [← isFirst] at low high
  exact ⟨other, item, before, onward, contents, low, high⟩

end Two

end Packing

end DeveloperTools
