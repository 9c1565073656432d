import Mathlib.Data.Fintype.Card

/-!
Marking from a set of roots: a node that is met is marked, and the links of a node that was
not marked before are followed.
-/

namespace DeveloperTools.Marking

open Finset

variable {Node : Type*}

/-- What is met from the roots when the links of the nodes in `before` are not followed. -/
inductive Reach (edge : Node → Node → Prop) (before root : Node → Prop) : Node → Prop
  | root {node : Node} : root node → Reach edge before root node
  | step {node next : Node} : Reach edge before root node → ¬ before node → edge node next →
      Reach edge before root next

variable {edge edge' : Node → Node → Prop} {before before' root root' : Node → Prop} {node : Node}

theorem Reach.imp (reach : Reach edge before root node)
    (links : ∀ a b, Reach edge before root a → ¬ before a → edge a b → edge' a b) :
    Reach edge' before root node := by
  induction reach with
  | root isRoot => exact .root isRoot
  | step reached fresh link ih => exact .step ih fresh (links _ _ reached fresh link)

theorem Reach.trans (reach : Reach edge before' root' node) (later : ∀ a, before a → before' a)
    (met : ∀ a, root' a → Reach edge before root a) :
    Reach edge before root node := by
  induction reach with
  | root isRoot => exact met _ isRoot
  | step _ fresh link ih =>
    exact .step ih (fun old => fresh (later _ old)) link

variable {marked : Node → Prop}

theorem Reach.least (reach : Reach edge before root node) (roots : ∀ a, root a → marked a)
    (closed : ∀ a b, marked a → ¬ before a → edge a b → marked b) :
    marked node := by
  induction reach with
  | root isRoot => exact roots _ isRoot
  | step _ fresh link ih => exact closed _ _ ih fresh link

section Support

variable {support : Node → Node → Prop}

/-- The least set that holds the nodes in `before`, what its other nodes link to, and the nodes
that support one of its nodes. -/
inductive Supported (edge support : Node → Node → Prop) (before : Node → Prop) : Node → Prop
  | old {node : Node} : before node → Supported edge support before node
  | step {node next : Node} : Supported edge support before node → ¬ before node →
      edge node next → Supported edge support before next
  | support {node next : Node} : support node next → Supported edge support before next →
      Supported edge support before node

/-- What is held after the first nodes of a list have been tried once, in order: each is added
when it refers to a node that is held by then. -/
inductive TriedInOrder (edge refers : Node → Node → Prop) (before : Node → Prop)
    (late : List Node) : Nat → Node → Prop
  | old {count : Nat} {node : Node} : before node →
      TriedInOrder edge refers before late count node
  | step {count : Nat} {node next : Node} : TriedInOrder edge refers before late count node →
      ¬ before node → edge node next → TriedInOrder edge refers before late count next
  | tried {count index : Nat} {node next : Node} : index < count → late[index]? = some node →
      refers node next → TriedInOrder edge refers before late index next →
      TriedInOrder edge refers before late count node

variable {refers : Node → Node → Prop} {late : List Node}

theorem Supported.least (held : Supported edge support before node) (old : ∀ a, before a → marked a)
    (closed : ∀ a b, marked a → ¬ before a → edge a b → marked b)
    (supported : ∀ a b, support a b → marked b → marked a) : marked node := by
  induction held with
  | old isOld => exact old _ isOld
  | step _ fresh link ih => exact closed _ _ ih fresh link
  | support refers _ ih => exact supported _ _ refers ih

theorem TriedInOrder.more {count more : Nat}
    (held : TriedInOrder edge refers before late count node) (small : count ≤ more) :
    TriedInOrder edge refers before late more node := by
  induction held with
  | old isOld => exact .old isOld
  | step _ fresh link ih => exact .step (ih small) fresh link
  | tried earlier isNode link holds _ =>
    exact .tried (Nat.lt_of_lt_of_le earlier small) isNode link holds

theorem TriedInOrder.none_tried (held : TriedInOrder edge refers before late 0 node) :
    before node := by
  generalize none : 0 = count at held
  induction held with
  | old isOld => exact isOld
  | step _ fresh _ ih => exact absurd (ih none) fresh
  | tried earlier _ _ _ _ => omega

theorem TriedInOrder.supported {count : Nat}
    (held : TriedInOrder edge refers before late count node)
    (supports : ∀ a ∈ late, ∀ b, refers a b → support a b) :
    Supported edge support before node := by
  induction held with
  | old isOld => exact .old isOld
  | step _ fresh link ih => exact .step ih fresh link
  | tried _ isNode link _ ih =>
    exact .support (supports _ (List.mem_of_getElem? isNode) _ link) ih

theorem TriedInOrder.imp {count limit : Nat}
    (held : TriedInOrder edge refers before late count node) (small : count ≤ limit)
    (links : ∀ a b, TriedInOrder edge' refers before late limit a → ¬ before a → edge a b →
      edge' a b) : TriedInOrder edge' refers before late count node := by
  induction held with
  | old isOld => exact .old isOld
  | step _ fresh link ih =>
    exact .step (ih small) fresh (links _ _ ((ih small).more small) fresh link)
  | tried earlier isNode link _ ih =>
    exact .tried earlier isNode link (ih (by omega))

/-- Nodes at the end of the list that are held anyway change nothing. -/
theorem TriedInOrder.append_iff {more : List Node} (old : ∀ a ∈ more, before a) :
    TriedInOrder edge refers before (late ++ more) (late ++ more).length node ↔
      TriedInOrder edge refers before late late.length node := by
  constructor
  · generalize (late ++ more).length = count
    intro held
    suffices within : TriedInOrder edge refers before late (min count late.length) node from
      within.more (Nat.min_le_right _ _)
    induction held with
    | old isOld => exact .old isOld
    | step _ fresh link ih => exact .step ih fresh link
    | @tried count index node next earlier isNode link _ ih =>
      rcases Nat.lt_or_ge index late.length with small | large
      · rw [List.getElem?_append_left small] at isNode
        rw [Nat.min_eq_left small.le] at ih
        exact .tried (Nat.lt_min.mpr ⟨earlier, small⟩) isNode link ih
      · rw [List.getElem?_append_right large] at isNode
        exact .old (old node (List.mem_of_getElem? isNode))
  · intro held
    refine TriedInOrder.more ?_ (List.length_append ▸ Nat.le_add_right late.length more.length)
    generalize late.length = count at held ⊢
    induction held with
    | old isOld => exact .old isOld
    | step _ fresh link ih => exact .step ih fresh link
    | tried earlier isNode link _ ih =>
      have inside := (List.getElem?_eq_some_iff.mp isNode).1
      exact .tried earlier (by rwa [List.getElem?_append_left inside]) link ih

end Support

section Counting

variable [Fintype Node]

def unmarked (marked : Node → Bool) : Nat :=
  (Finset.univ.filter fun node => marked node = false).card

variable {marked marked' : Node → Bool}

theorem unmarked_le
    (grows : ∀ node, marked node = true → marked' node = true) :
    unmarked marked' ≤ unmarked marked := by
  apply card_le_card
  intro node isIn
  simp only [mem_filter, mem_univ, true_and] at isIn ⊢
  cases old : marked node with
  | false => rfl
  | true => rw [grows node old] at isIn; cases isIn

theorem unmarked_lt
    (grows : ∀ node, marked node = true → marked' node = true) (old : marked node = false)
    (new : marked' node = true) :
    unmarked marked' < unmarked marked := by
  apply card_lt_card
  rw [ssubset_iff_of_subset]
  · refine ⟨node, ?_, ?_⟩
    · simpa using old
    · simp [new]
  intro other isIn
  simp only [mem_filter, mem_univ, true_and] at isIn ⊢
  cases was : marked other with
  | false => rfl
  | true => rw [grows other was] at isIn; cases isIn

theorem unmarked_le_card (marked : Node → Bool) : unmarked marked ≤ Fintype.card Node :=
  card_le_univ _

end Counting

end DeveloperTools.Marking
