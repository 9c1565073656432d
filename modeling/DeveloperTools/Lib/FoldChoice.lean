import Mathlib.Data.List.Perm.Subperm

/-!
Choosing one of many by choosing one of two again and again, where a choice can fail. If every
choice that succeeds takes the upper of the two in a transitive relation, and ties are between
candidates that count as the same, then the order does not matter.
-/

namespace DeveloperTools.FoldChoice

open List

variable {Candidate : Type*}

/-- The candidates come one after another; `choose new old` is what is kept of two. -/
def outcome (choose : Candidate → Candidate → Option Candidate) : List Candidate → Option Candidate
  | [] => none
  | first :: rest => rest.foldlM (fun old new => choose new old) first

/-- Any two orders of the candidates that get through end with the same. -/
def OrderFree (choose : Candidate → Candidate → Option Candidate)
    (same : Candidate → Candidate → Prop) (candidates : List Candidate) : Prop :=
  ∀ first second x y, first.Perm candidates → second.Perm candidates →
    outcome choose first = some x → outcome choose second = some y → same x y

variable {choose : Candidate → Candidate → Option Candidate}
  {same le : Candidate → Candidate → Prop}

structure Respects (choose : Candidate → Candidate → Option Candidate)
    (same le : Candidate → Candidate → Prop) (candidates : List Candidate) : Prop where
  refl : ∀ x ∈ candidates, le x x
  trans : ∀ x ∈ candidates, ∀ y ∈ candidates, ∀ z ∈ candidates, le x y → le y z → le x z
  upper : ∀ new ∈ candidates, ∀ old ∈ candidates, ∀ kept, choose new old = some kept →
    (kept = new ∧ le old new) ∨ (kept = old ∧ le new old)
  tie : ∀ new ∈ candidates, ∀ old ∈ candidates, ∀ kept, choose new old = some kept →
    le new old → le old new → same new old

/-- What is kept after some candidates: it is above them all, and the same as those level
with it. -/
structure Kept (same le : Candidate → Candidate → Prop) (seen : List Candidate)
    (kept : Candidate) : Prop where
  isSeen : kept ∈ seen
  above : ∀ x ∈ seen, le x kept
  level : ∀ x ∈ seen, le kept x → same x kept

variable {candidates : List Candidate}

theorem Kept.next (equivalence : Equivalence same) {seen : List Candidate}
    {old new kept : Candidate} (respects : Respects choose same le candidates)
    (known : ∀ x ∈ seen, x ∈ candidates) (isNew : new ∈ candidates) (state : Kept same le seen old)
    (chosen : choose new old = some kept) :
    Kept same le (seen ++ [new]) kept := by
  have oldKnown := known old state.isSeen
  cases respects.upper new isNew old oldKnown kept chosen with
  | inl newKept =>
    obtain ⟨rfl, higher⟩ := newKept
    refine ⟨by simp, ?_, ?_⟩
    · intro x isIn
      cases mem_append.mp isIn with
      | inl earlier =>
        exact respects.trans x (known x earlier) old oldKnown kept isNew
          (state.above x earlier) higher
      | inr last =>
        rw [mem_singleton.mp last]
        exact respects.refl kept isNew
    · intro x isIn below
      cases mem_append.mp isIn with
      | inl earlier =>
        have isX := known x earlier
        have oldBelow : le old x := respects.trans old oldKnown kept isNew x isX higher below
        have newBelow : le kept old :=
          respects.trans kept isNew x isX old oldKnown below (state.above x earlier)
        have tied := respects.tie kept isNew old oldKnown kept chosen newBelow higher
        exact equivalence.trans (state.level x earlier oldBelow) (equivalence.symm tied)
      | inr last =>
        rw [mem_singleton.mp last]
        exact equivalence.refl kept
  | inr oldKept =>
    obtain ⟨rfl, higher⟩ := oldKept
    refine ⟨by simp [state.isSeen], ?_, ?_⟩
    · intro x isIn
      cases mem_append.mp isIn with
      | inl earlier => exact state.above x earlier
      | inr last =>
        rw [mem_singleton.mp last]
        exact higher
    · intro x isIn below
      cases mem_append.mp isIn with
      | inl earlier => exact state.level x earlier below
      | inr last =>
        rw [mem_singleton.mp last] at below ⊢
        exact respects.tie new isNew kept oldKnown kept chosen higher below

section

variable {candidates : List Candidate} (equivalence : Equivalence same)
    (respects : Respects choose same le candidates)

include equivalence respects

theorem kept_of_fold :
    ∀ {rest seen : List Candidate} {old kept : Candidate}, (∀ x ∈ seen, x ∈ candidates) →
      (∀ x ∈ rest, x ∈ candidates) → Kept same le seen old →
      rest.foldlM (fun old new => choose new old) old = some kept →
      Kept same le (seen ++ rest) kept := by
  intro rest
  induction rest with
  | nil =>
    intro seen old kept _ _ state run
    cases run
    simpa using state
  | cons new rest ih =>
    intro seen old kept known coming state run
    obtain ⟨middle, chosen, run⟩ := Option.bind_eq_some_iff.mp run
    have isNew := coming new mem_cons_self
    have next := state.next equivalence respects known isNew chosen
    have further := ih (fun x isIn => by
      cases mem_append.mp isIn with
      | inl earlier => exact known x earlier
      | inr last => exact mem_singleton.mp last ▸ isNew)
      (fun x isIn => coming x (mem_cons_of_mem new isIn)) next run
    rw [append_assoc] at further
    exact further

theorem kept_of_outcome
    {kept : Candidate}
    (run : outcome choose candidates = some kept) : Kept same le candidates kept := by
  cases candidates with
  | nil => cases run
  | cons first rest =>
    have begun : Kept same le [first] first := by
      refine ⟨mem_singleton_self first, ?_, ?_⟩
      · intro x isIn
        rw [mem_singleton.mp isIn]
        exact respects.refl first mem_cons_self
      · intro x isIn _
        rw [mem_singleton.mp isIn]
        exact equivalence.refl first
    exact kept_of_fold equivalence respects
      (fun x isIn => mem_singleton.mp isIn ▸ mem_cons_self)
      (fun x isIn => mem_cons_of_mem first isIn) begun run

end

theorem Respects.subset {part : List Candidate} (respects : Respects choose same le candidates)
    (within : part ⊆ candidates) :
    Respects choose same le part where
  refl x isX := respects.refl x (within isX)
  trans x isX y isY z isZ := respects.trans x (within isX) y (within isY) z (within isZ)
  upper new isNew old isOld := respects.upper new (within isNew) old (within isOld)
  tie new isNew old isOld := respects.tie new (within isNew) old (within isOld)

theorem order_free_of_respects (equivalence : Equivalence same)
    (respects : Respects choose same le candidates) : OrderFree choose same candidates := by
  intro first second x y firstPerm secondPerm firstRun secondRun
  have keptX := kept_of_outcome equivalence (respects.subset firstPerm.subset) firstRun
  have keptY := kept_of_outcome equivalence (respects.subset secondPerm.subset) secondRun
  have xAbove := keptX.above y (firstPerm.mem_iff.mpr (secondPerm.mem_iff.mp keptY.isSeen))
  have yBelow := secondPerm.mem_iff.mpr (firstPerm.mem_iff.mp keptX.isSeen)
  exact keptY.level x yBelow xAbove

end DeveloperTools.FoldChoice
