import Mathlib.Data.Prod.Lex
import DeveloperTools.Ld64.SymbolResolution

/-!
When the order in which atoms with one name are added does not matter. Where the conditions
below hold, each collision that settles takes the upper atom in a preorder; each of them is
needed, since two or three atoms that break it can be added in orders that end differently.
-/

namespace DeveloperTools.Ld64.SymbolResolution

def Agree (x y : Atom) : Prop := traits x = traits y

def weakKey (atom : Atom) : ℕ ×ₗ ℕ ×ₗ ℕ ×ₗ ℕ :=
  toLex (if atom.typeLTOtemporary then 0 else 1, toLex (if atom.autoHide then 0 else 1,
    toLex (if !atom.autoHide && atom.scope = .global then 1 else 0, atom.alignment.trailingZeros)))

/-- Weak atoms, strong ones, the header; strong ones by ordinal. -/
def regularKey (atom : Atom) : ℕ ×ₗ ℕ ×ₗ ℕ ×ₗ ℕ ×ₗ ℕ :=
  if atom.weak then toLex (0, weakKey atom)
  else if atom.typeMachHeader then toLex (2, toLex (0, toLex (0, toLex (0, 0))))
  else toLex (1, toLex (atom.ordinal, toLex (0, toLex (0, 0))))

def tentativeKey (atom : Atom) : ℕ ×ₗ ℕ := toLex (atom.size, atom.ordinal)

/-- With duplicates suppressed, atoms that are otherwise reported are compared as well. -/
structure Suppressed (atoms : List Atom) : Prop where
  strongs : ∀ x ∈ atoms, ∀ y ∈ atoms, x.definition = .regular → y.definition = .regular →
    x.weak = false → y.weak = false → x.typeMachHeader = false → y.typeMachHeader = false →
    x.ordinal = y.ordinal → Agree x y
  absolutes : ∀ x ∈ atoms, ∀ y ∈ atoms, x.definition = .absolute → y.definition = .absolute →
    x.ordinal = y.ordinal → Agree x y
  mixed : ∀ x ∈ atoms, ∀ y ∈ atoms, x.definition = .regular → y.definition = .absolute →
    x.ordinal ≠ y.ordinal
  -- no regular atom is kept of two, loses to an absolute one and that to the other
  acyclic : ∀ x ∈ atoms, ∀ y ∈ atoms, ∀ z ∈ atoms, x.definition = .regular →
    y.definition = .regular → z.definition = .absolute →
    regularKey y ≤ regularKey x → ¬ (y.ordinal < z.ordinal ∧ z.ordinal < x.ordinal)

structure Consistent (duplicates : Treatment) (atoms : List Atom) : Prop where
  -- an absolute atom in the slot gives way to a tentative one of a smaller ordinal
  commons : ∀ x ∈ atoms, ∀ y ∈ atoms, x.definition = .tentative → y.definition = .absolute →
    y.ordinal ≤ x.ordinal
  -- of two weak atoms neither of which is global the one in the slot stays
  scopes : ∀ x ∈ atoms, ∀ y ∈ atoms, x.definition = .regular → y.definition = .regular →
    x.weak = true → y.weak = true → x.typeLTOtemporary = y.typeLTOtemporary →
    x.autoHide = false → y.autoHide = false → x.scope ≠ .global → y.scope ≠ .global →
    x.scope = y.scope
  headers : ∀ x ∈ atoms, ∀ y ∈ atoms, x.definition = .regular → y.definition = .regular →
    x.weak = false → y.weak = false → x.typeMachHeader = true → y.typeMachHeader = true →
    Agree x y
  proxies : ∀ x ∈ atoms, ∀ y ∈ atoms, x.definition = .proxy → y.definition = .proxy →
    x.weak = true → y.weak = true → Agree x y
  tentatives : ∀ x ∈ atoms, ∀ y ∈ atoms, x.definition = .tentative →
    y.definition = .tentative → x.size = y.size → x.ordinal = y.ordinal → Agree x y
  suppressed : duplicates = .suppress → Suppressed atoms

variable {choice : Choice}

section Preorder

/-- The second atom is kept of the two. -/
def Below (duplicates : Treatment) (mode : CommonsMode) (x y : Atom) : Prop :=
  match x.definition, y.definition with
  | .regular, .regular => regularKey x ≤ regularKey y
  | .tentative, .tentative => tentativeKey x ≤ tentativeKey y
  | .absolute, .absolute => y.ordinal ≤ x.ordinal
  | .regular, .absolute | .absolute, .regular => duplicates = .suppress ∧ y.ordinal ≤ x.ordinal
  | .proxy, .proxy => y.weak = true → x.weak = true
  | .tentative, .proxy => mode = .overriddenByDylibs
  | .proxy, .tentative => mode = .ignoreDylibs
  | .tentative, _ | .proxy, _ => True
  | _, _ => False

variable {duplicates : Treatment} {mode : CommonsMode} {atoms : List Atom}

theorem greater_alignment_pick (a b : Atom) :
    (pickGreaterAlignment a b = .a ∧ b.alignment.trailingZeros ≤ a.alignment.trailingZeros) ∨
    (pickGreaterAlignment a b = .b ∧ a.alignment.trailingZeros ≤ b.alignment.trailingZeros) := by
  unfold pickGreaterAlignment pickAOrB
  by_cases more : a.alignment.trailingZeros > b.alignment.trailingZeros
  · left
    simp only [more, decide_true, if_true, true_and]
    omega
  · right
    simp only [more, decide_false, Bool.false_eq_true, if_false, true_and]
    omega

/-- The scope of two weak atoms decides nothing when neither is global. -/
def SameScopes (a b : Atom) : Prop :=
  a.typeLTOtemporary = b.typeLTOtemporary → a.autoHide = false → b.autoHide = false →
    a.scope ≠ .global → b.scope ≠ .global → a.scope = b.scope

variable {a b : Atom}

theorem weakKey_pick (scopes : SameScopes a b) :
    (pickBetweenWeakAtoms a b = .a ∧ weakKey b ≤ weakKey a) ∨
      (pickBetweenWeakAtoms a b = .b ∧ weakKey a ≤ weakKey b) := by
  have aligned := greater_alignment_pick a b
  unfold SameScopes at scopes
  unfold pickBetweenWeakAtoms weakKey
  simp only [Prod.Lex.toLex_le_toLex]
  cases ltoA : a.typeLTOtemporary <;> cases ltoB : b.typeLTOtemporary <;>
    cases hideA : a.autoHide <;> cases hideB : b.autoHide <;>
    simp [ltoA, ltoB, hideA, hideB, pickAOrB] at scopes ⊢ <;> try exact aligned
  -- both are visible and of one kind: the scope decides, and then the alignment
  all_goals
    by_cases globalA : a.scope = .global <;> by_cases globalB : b.scope = .global
    · simpa [globalA, globalB] using aligned
    · simp [globalA, Ne.symm globalB, globalB]
    · simp [globalA, globalB]
    · simpa [globalA, globalB, scopes globalA globalB] using aligned

theorem weakKey_eq (scopes : SameScopes a b) (same : weakKey a = weakKey b) :
    a.typeLTOtemporary = b.typeLTOtemporary ∧ a.autoHide = b.autoHide ∧
      (a.autoHide = false → a.scope = b.scope) ∧
      a.alignment.trailingZeros = b.alignment.trailingZeros := by
  simp only [weakKey, toLex_inj, Prod.mk.injEq] at same
  obtain ⟨lto, hide, visible, aligned⟩ := same
  have sameLTO : a.typeLTOtemporary = b.typeLTOtemporary := by
    cases ltoA : a.typeLTOtemporary <;> cases ltoB : b.typeLTOtemporary <;>
      simp [ltoA, ltoB] at lto ⊢
  have sameHide : a.autoHide = b.autoHide := by
    cases hideA : a.autoHide <;> cases hideB : b.autoHide <;> simp [hideA, hideB] at hide ⊢
  refine ⟨sameLTO, sameHide, ?_, aligned⟩
  intro hideA
  have hideB : b.autoHide = false := sameHide ▸ hideA
  by_cases globalA : a.scope = .global <;> by_cases globalB : b.scope = .global
  · rw [globalA, globalB]
  · simp [hideA, hideB, globalA, globalB] at visible
  · simp [hideA, hideB, globalA, globalB] at visible
  · exact scopes sameLTO hideA hideB globalA globalB

theorem regularKey_pick (scopes : a.weak = true → b.weak = true → SameScopes a b)
    (picked : pickBetweenRegularAtoms duplicates a b = (choice, false)) :
    (choice = .a ∧ regularKey b ≤ regularKey a) ∨ (choice = .b ∧ regularKey a ≤ regularKey b) := by
  unfold pickBetweenRegularAtoms at picked
  unfold regularKey
  simp only [Atom.weak, decide_eq_true_eq] at scopes ⊢
  by_cases weakA : a.combine = .byName <;> by_cases weakB : b.combine = .byName <;>
    simp only [weakA, weakB, if_true, if_false, Prod.mk.injEq, and_true] at picked ⊢
  · subst picked
    simpa [Prod.Lex.toLex_le_toLex] using weakKey_pick (scopes weakA weakB)
  · subst picked
    right
    split <;> simp [Prod.Lex.toLex_le_toLex]
  · subst picked
    left
    split <;> simp [Prod.Lex.toLex_le_toLex]
  cases headerA : a.typeMachHeader with
  | true =>
    simp only [headerA, if_true, Prod.mk.injEq, and_true] at picked
    subst picked
    left
    split <;> simp [Prod.Lex.toLex_le_toLex]
  | false =>
    cases headerB : b.typeMachHeader with
    | true =>
      simp only [headerA, headerB, Bool.false_eq_true, if_true, if_false, Prod.mk.injEq,
        and_true] at picked
      subst picked
      right
      simp [Prod.Lex.toLex_le_toLex]
    | false =>
      simp only [headerA, headerB, Bool.false_eq_true, if_false] at picked
      cases duplicates with
      | error => simp at picked
      | warning => simp at picked
      | suppress =>
        simp only [Prod.mk.injEq, and_true] at picked
        subst picked
        unfold pickLowerOrdinal pickAOrB
        by_cases more : a.ordinal > b.ordinal
        · left
          simp [more, Prod.Lex.toLex_le_toLex]
        · right
          simp [more, Prod.Lex.toLex_le_toLex]
          omega

variable {new old kept : Atom}

theorem settle_picked {report : Bool}
    (picked : pickAtom duplicates mode new old = some (choice, report))
    (settled : settle duplicates mode new old = some kept) :
    (report = true → duplicates = .suppress) ∧ kept = if choice = .a then new else old := by
  simp only [settle, picked] at settled
  cases report with
  | false =>
    simp only [Bool.false_and, Bool.false_eq_true, if_false, Option.some.injEq] at settled
    exact ⟨fun no => absurd no Bool.false_ne_true, settled.symm⟩
  | true =>
    by_cases suppress : duplicates = .suppress
    · simp only [suppress, ne_eq, not_true_eq_false, decide_false, Bool.and_false,
        Bool.false_eq_true, if_false, Option.some.injEq] at settled
      exact ⟨fun _ => suppress, settled.symm⟩
    · simp [suppress] at settled

theorem higherOrdinal_pick (new old : Atom) :
    ((if pickHigherOrdinal new old = .a then new else old) = new ∧ new.ordinal ≤ old.ordinal) ∨
      ((if pickHigherOrdinal new old = .a then new else old) = old ∧
        old.ordinal ≤ new.ordinal) := by
  unfold pickHigherOrdinal pickAOrB
  by_cases less : new.ordinal < old.ordinal
  · left
    simp only [less, decide_true, if_true, true_and]
    omega
  · right
    simp only [less, decide_false, Bool.false_eq_true, if_false, reduceCtorEq, true_and]
    omega

theorem largerSize_pick (new old : Atom) :
    ((if pickLargerSize new old = .a then new else old) = new ∧
        tentativeKey old ≤ tentativeKey new) ∨
      ((if pickLargerSize new old = .a then new else old) = old ∧
        tentativeKey new ≤ tentativeKey old) := by
  unfold pickLargerSize pickLowerOrdinal pickAOrB tentativeKey
  simp only [Prod.Lex.toLex_le_toLex]
  by_cases sizes : new.size = old.size
  · by_cases more : new.ordinal > old.ordinal
    · left
      simp [sizes, more]
      omega
    · right
      simp [sizes, more]
      omega
  · by_cases more : new.size > old.size
    · left
      simp [sizes, more]
    · right
      simp [sizes, more]
      omega

theorem regular_unreported
    (picked : pickBetweenRegularAtoms duplicates a b = (choice, true)) :
    duplicates ≠ .suppress := by
  intro suppress
  subst suppress
  unfold pickBetweenRegularAtoms at picked
  split_ifs at picked <;> simp at picked

theorem strong_keys_agree (strongA : a.weak = false)
    (same : regularKey a = regularKey b) : b.weak = false ∧ a.typeMachHeader = b.typeMachHeader ∧
      (a.typeMachHeader = false → a.ordinal = b.ordinal) := by
  unfold regularKey at same
  simp only [strongA, Bool.false_eq_true, if_false] at same
  cases weakB : b.weak with
  | true => cases headerA : a.typeMachHeader <;> simp [weakB, headerA] at same
  | false =>
    cases headerA : a.typeMachHeader <;> cases headerB : b.typeMachHeader <;>
      simp [weakB, headerA, headerB] at same ⊢
    exact same

theorem weak_keys_agree (weakA : a.weak = true)
    (same : regularKey a = regularKey b) : b.weak = true ∧ weakKey a = weakKey b := by
  cases weakB : b.weak with
  | true => simpa [regularKey, weakA, weakB] using same
  | false => simp [(strong_keys_agree weakB same.symm).1] at weakA

section

variable (consistent : Consistent duplicates atoms)
include consistent

theorem settle_upper (isNew : new ∈ atoms) (isOld : old ∈ atoms)
    (settled : settle duplicates mode new old = some kept) :
    (kept = new ∧ Below duplicates mode old new) ∨
      (kept = old ∧ Below duplicates mode new old) := by
  unfold Below
  cases picked : pickAtom duplicates mode new old with
  | none => simp [settle, picked] at settled
  | some result =>
    obtain ⟨choice, report⟩ := result
    obtain ⟨suppress, rfl⟩ := settle_picked picked settled
    unfold pickAtom at picked
    cases defNew : new.definition <;> cases defOld : old.definition <;>
      simp only [defNew, defOld, Option.some.injEq, Prod.mk.injEq] at picked ⊢
    case regular.regular =>
      cases report with
      | true => exact absurd (suppress rfl) (regular_unreported picked)
      | false =>
        have scopes := consistent.scopes new isNew old isOld defNew defOld
        cases regularKey_pick scopes picked with
        | inl first => simp [first.1, first.2]
        | inr second => simp [second.1, second.2]
    case tentative.tentative =>
      obtain ⟨rfl, rfl⟩ := picked
      exact largerSize_pick new old
    case tentative.absolute =>
      obtain ⟨rfl, rfl⟩ := picked
      have order := consistent.commons new isNew old isOld defNew defOld
      right
      simp [pickHigherOrdinal, pickAOrB, Nat.not_lt.mpr order]
    case absolute.absolute =>
      obtain ⟨rfl, rfl⟩ := picked
      exact higherOrdinal_pick new old
    case regular.absolute =>
      obtain ⟨rfl, rfl⟩ := picked
      simpa [suppress rfl] using higherOrdinal_pick new old
    case absolute.regular =>
      obtain ⟨rfl, rfl⟩ := picked
      simpa [suppress rfl] using higherOrdinal_pick new old
    case proxy.proxy =>
      unfold pickProxyAtom at picked
      by_cases weakNew : new.combine = .byName
      · simp [weakNew] at picked
        obtain ⟨rfl, rfl⟩ := picked
        right
        simp [Atom.weak, weakNew]
      by_cases weakOld : old.combine = .byName
      · simp [weakNew, weakOld] at picked
        obtain ⟨rfl, rfl⟩ := picked
        left
        simp [Atom.weak, weakNew, weakOld]
      · simp [weakNew, weakOld] at picked
    case tentative.proxy =>
      cases mode <;> simp [pickCommonsMode] at picked ⊢ <;> simp [← picked.1]
    case proxy.tentative =>
      cases mode <;> simp [pickCommonsMode] at picked ⊢ <;> simp [← picked.1]
    all_goals
      obtain ⟨rfl, rfl⟩ := picked
      simp

theorem settle_tie (isNew : new ∈ atoms) (isOld : old ∈ atoms)
    (settled : settle duplicates mode new old = some kept) (below : Below duplicates mode new old)
    (above : Below duplicates mode old new) :
    Agree new old := by
  unfold Below at below above
  cases picked : pickAtom duplicates mode new old with
  | none => simp [settle, picked] at settled
  | some result =>
    obtain ⟨choice, report⟩ := result
    have suppress := (settle_picked picked settled).1
    unfold pickAtom at picked
    cases defNew : new.definition <;> cases defOld : old.definition <;>
      simp only [defNew, defOld, Option.some.injEq, Prod.mk.injEq] at picked below above
    case regular.regular =>
      have same := le_antisymm below above
      cases weakNew : new.weak with
      | true =>
        obtain ⟨weakOld, weakKeys⟩ := weak_keys_agree weakNew same
        obtain ⟨lto, hide, scope, aligned⟩ := weakKey_eq
          (consistent.scopes new isNew old isOld defNew defOld weakNew weakOld) weakKeys
        unfold Agree traits
        cases hideNew : new.autoHide with
        | true => simp [defNew, defOld, weakNew, weakOld, lto, ← hide, hideNew, aligned]
        | false =>
          simp [defNew, defOld, weakNew, weakOld, lto, ← hide, hideNew, aligned, scope hideNew]
      | false =>
        obtain ⟨weakOld, header, ordinal⟩ := strong_keys_agree weakNew same
        cases headerNew : new.typeMachHeader with
        | true =>
          exact consistent.headers new isNew old isOld defNew defOld weakNew weakOld headerNew
            (header ▸ headerNew)
        | false =>
          have headerOld : old.typeMachHeader = false := header ▸ headerNew
          have reported : duplicates = .suppress := by
            have notByName : ∀ atom : Atom, atom.weak = false → atom.combine ≠ .byName := by
              intro atom strong
              simpa [Atom.weak] using strong
            simp only [pickBetweenRegularAtoms, notByName new weakNew,
              notByName old weakOld, headerNew, headerOld, Bool.false_eq_true, if_false] at picked
            cases duplicates with
            | suppress => rfl
            | error =>
              simp only [Prod.mk.injEq] at picked
              exact suppress picked.2.symm
            | warning =>
              simp only [Prod.mk.injEq] at picked
              exact suppress picked.2.symm
          exact (consistent.suppressed reported).strongs new isNew old isOld defNew defOld
            weakNew weakOld headerNew headerOld (ordinal headerNew)
    case tentative.tentative =>
      have same := le_antisymm below above
      simp only [tentativeKey, toLex_inj, Prod.mk.injEq] at same
      exact consistent.tentatives new isNew old isOld defNew defOld same.1 same.2
    case absolute.absolute =>
      exact (consistent.suppressed (suppress picked.2.symm)).absolutes new isNew old isOld
        defNew defOld (Nat.le_antisymm above below)
    case regular.absolute =>
      exact absurd (Nat.le_antisymm above.2 below.2)
        ((consistent.suppressed below.1).mixed new isNew old isOld defNew defOld)
    case absolute.regular =>
      exact absurd (Nat.le_antisymm below.2 above.2)
        ((consistent.suppressed below.1).mixed old isOld new isNew defOld defNew)
    case proxy.proxy =>
      cases weakNew : new.weak with
      | true => exact consistent.proxies new isNew old isOld defNew defOld weakNew (above weakNew)
      | false =>
        have weakOld : old.weak = false := by
          cases weakOld : old.weak with
          | false => rfl
          | true =>
            rw [below weakOld] at weakNew
            cases weakNew
        simp only [Atom.weak, decide_eq_false_iff_not] at weakNew weakOld
        simp [pickProxyAtom, weakNew, weakOld] at picked
    case tentative.proxy => simp [below] at above
    case proxy.tentative => simp [below] at above

theorem below_trans {x y z : Atom} (isX : x ∈ atoms) (isY : y ∈ atoms) (isZ : z ∈ atoms)
    (first : Below duplicates mode x y) (second : Below duplicates mode y z) :
    Below duplicates mode x z := by
  unfold Below at *
  cases defX : x.definition <;> cases defY : y.definition <;> cases defZ : z.definition <;>
    simp only [defX, defY, defZ] at first second ⊢
  case regular.regular.regular => exact first.trans second
  case tentative.tentative.tentative => exact first.trans second
  case absolute.absolute.absolute => exact second.trans first
  case proxy.proxy.proxy => exact fun weak => first (second weak)
  case regular.regular.absolute =>
    obtain ⟨suppress, order⟩ := second
    have rules := consistent.suppressed suppress
    have apart := rules.mixed y isY z isZ defY defZ
    have acyclic := rules.acyclic y isY x isX z isZ defY defX defZ first
    exact ⟨suppress, by omega⟩
  case regular.absolute.regular =>
    have rules := consistent.suppressed first.1
    have apartX := rules.mixed x isX y isY defX defY
    have apartZ := rules.mixed z isZ y isY defZ defY
    by_contra above
    have acyclic := rules.acyclic x isX z isZ y isY defX defZ defY (le_of_not_ge above)
    omega
  case absolute.regular.regular =>
    obtain ⟨suppress, order⟩ := first
    have rules := consistent.suppressed suppress
    have apart := rules.mixed y isY x isX defY defX
    have acyclic := rules.acyclic z isZ y isY x isX defZ defY defX second
    exact ⟨suppress, by omega⟩
  case regular.absolute.absolute => exact ⟨first.1, second.trans first.2⟩
  case absolute.regular.absolute => exact second.2.trans first.2
  case absolute.absolute.regular => exact ⟨second.1, second.2.trans first⟩
  all_goals simp_all

theorem consistent_respects :
    FoldChoice.Respects (settle duplicates mode) Agree (Below duplicates mode) atoms where
  refl x _ := by
    unfold Below
    cases x.definition <;> simp
  trans _ isX _ isY _ isZ := below_trans consistent isX isY isZ
  upper _ isNew _ isOld _ settled := settle_upper consistent isNew isOld settled
  tie _ isNew _ isOld _ settled := settle_tie consistent isNew isOld settled

end

end Preorder

section Needed

variable {duplicates : Treatment} {mode : CommonsMode} {atoms : List Atom}

theorem settle_of_pick_suppress {new old : Atom} {report : Bool}
    (picked : pickAtom .suppress mode new old = some (choice, report)) :
    settle .suppress mode new old = some (if choice = .a then new else old) := by
  simp [settle, picked]

def Free (duplicates : Treatment) (mode : CommonsMode) (atoms : List Atom) : Prop :=
  ∀ part : List Atom, part.Subperm atoms → OrderFree duplicates mode part

theorem agree_of_free (free : Free duplicates mode atoms)
    {x y kept kept' : Atom} (isX : x ∈ atoms) (isY : y ∈ atoms)
    (first : settle duplicates mode x y = some kept)
    (second : settle duplicates mode y x = some kept') : Agree kept kept' := by
  by_cases same : x = y
  · subst same
    rw [first] at second
    rw [Option.some.inj second]
    rfl
  · have pair := free [y, x] (List.Nodup.subperm (by simp [Ne.symm same]) (by simp [isX, isY]))
    apply orderFree_iff.mp pair [y, x] [x, y] kept kept' (List.Perm.refl _) (List.Perm.swap ..)
    · simp [FoldChoice.outcome, first]
    · simp [FoldChoice.outcome, second]

theorem weak_tie (scopes : SameScopes a b) (same : weakKey a = weakKey b) :
    pickBetweenWeakAtoms a b = .b := by
  obtain ⟨lto, hide, scope, aligned⟩ := weakKey_eq scopes same
  cases hideA : a.autoHide with
  | true =>
    simp [pickBetweenWeakAtoms, lto, ← hide, hideA, pickGreaterAlignment, pickAOrB, aligned]
  | false =>
    simp [pickBetweenWeakAtoms, lto, ← hide, hideA, scope hideA, pickGreaterAlignment, pickAOrB,
      aligned]

theorem upper_kept {x y : Atom} (regularX : x.definition = .regular)
    (regularY : y.definition = .regular) (scopes : x.weak = true → y.weak = true → SameScopes x y)
    (above : regularKey y ≤ regularKey x) :
    settle .suppress mode x y = some x ∨ settle .suppress mode y x = some x := by
  cases picked : pickBetweenRegularAtoms .suppress x y with
  | mk choice report =>
  have unreported : report = false := by
    cases report with
    | false => rfl
    | true => exact absurd rfl (regular_unreported picked)
  subst unreported
  cases regularKey_pick scopes picked with
  | inl kept =>
    left
    simp [settle, pickAtom, regularX, regularY, picked, kept.1]
  | inr lost =>
    have same := le_antisymm above lost.2
    right
    cases weakY : y.weak with
    | true =>
      obtain ⟨weakX, weakKeys⟩ := weak_keys_agree weakY same
      have tie := weak_tie (fun lto hideY hideX globalY globalX =>
        (scopes weakX weakY lto.symm hideX hideY globalX globalY).symm) weakKeys
      simp only [Atom.weak, decide_eq_true_eq] at weakX weakY
      simp [settle, pickAtom, regularX, regularY, pickBetweenRegularAtoms, weakX, weakY, tie]
    | false =>
      obtain ⟨weakX, header, ordinal⟩ := strong_keys_agree weakY same
      simp only [Atom.weak, decide_eq_false_iff_not] at weakX weakY
      cases headerX : x.typeMachHeader with
      | true =>
        simp [pickBetweenRegularAtoms, weakX, weakY, headerX] at picked
        rw [← picked] at lost
        cases lost.1
      | false =>
        rw [headerX] at header
        simp [settle, pickAtom, regularX, regularY, pickBetweenRegularAtoms, weakX, weakY,
          headerX, header, pickLowerOrdinal, pickAOrB, ordinal header]

theorem scopes_of_free (free : Free duplicates mode atoms) :
    ∀ x ∈ atoms, ∀ y ∈ atoms, x.definition = .regular → y.definition = .regular →
      x.weak = true → y.weak = true → x.typeLTOtemporary = y.typeLTOtemporary →
      x.autoHide = false → y.autoHide = false → x.scope ≠ .global → y.scope ≠ .global →
      x.scope = y.scope := by
  intro x isX y isY defX defY weakX weakY lto hideX hideY globalX globalY
  by_contra differ
  have stays : ∀ a b : Atom, a.definition = .regular → b.definition = .regular →
      a.weak = true → b.weak = true → a.typeLTOtemporary = b.typeLTOtemporary →
      a.autoHide = false → b.autoHide = false → a.scope ≠ .global → a.scope ≠ b.scope →
      settle duplicates mode a b = some b := by
    intro a b defA defB weakA weakB lto hideA hideB notGlobal differ
    simp only [Atom.weak, decide_eq_true_eq] at weakA weakB
    simp [settle, pickAtom, defA, defB, pickBetweenRegularAtoms, weakA, weakB,
      pickBetweenWeakAtoms, lto, hideA, hideB, differ, pickAOrB, notGlobal]
  have first := stays x y defX defY weakX weakY lto hideX hideY globalX differ
  have second := stays y x defY defX weakY weakX lto.symm hideY hideX globalY (Ne.symm differ)
  have agree := agree_of_free free isX isY first second
  simp [Agree, traits, defX, defY, weakX, weakY, hideX, hideY] at agree
  exact differ agree.2.1.symm

/-- A regular atom that is kept of two, an absolute one that beats it and the other, which
beats that: the last of them to come decides. -/
theorem cycle_not_free {x y z : Atom} (free : Free .suppress mode atoms)
    (isX : x ∈ atoms) (isY : y ∈ atoms) (isZ : z ∈ atoms) (defX : x.definition = .regular)
    (defY : y.definition = .regular) (defZ : z.definition = .absolute)
    (kept : settle .suppress mode x y = some x ∨ settle .suppress mode y x = some x)
    (lower : y.ordinal < z.ordinal) (upper : z.ordinal < x.ordinal) : False := by
  have differXY : x ≠ y := fun same => by subst same; omega
  have differXZ : x ≠ z := fun same => by rw [same, defZ] at defX; cases defX
  have differYZ : y ≠ z := fun same => by rw [same, defZ] at defY; cases defY
  have part : [x, y, z].Subperm atoms := by
    apply List.Nodup.subperm
    · simp [differXY, differXZ, differYZ]
    · simp [isX, isY, isZ]
  have run := orderFree_iff.mp (free _ part)
  have zOverX : settle .suppress mode z x = some z := by
    simp [settle, pickAtom, defX, defZ, pickHigherOrdinal, pickAOrB, upper]
  have yOverZ : settle .suppress mode z y = some y := by
    simp [settle, pickAtom, defY, defZ, pickHigherOrdinal, pickAOrB, Nat.not_lt.mpr lower.le]
  have endsAbsolute : ∃ first : List Atom, first.Perm [x, y, z] ∧
      FoldChoice.outcome (settle .suppress mode) first = some z := by
    cases kept with
    | inl keptX =>
      exact ⟨[y, x, z], List.Perm.swap x y [z], by simp [FoldChoice.outcome, keptX, zOverX]⟩
    | inr keptX =>
      exact ⟨[x, y, z], List.Perm.refl _, by simp [FoldChoice.outcome, keptX, zOverX]⟩
  have endsRegular : ∃ last, last.definition = .regular ∧
      FoldChoice.outcome (settle .suppress mode) [y, z, x] = some last := by
    refine ⟨if (pickBetweenRegularAtoms .suppress x y).1 = .a then x else y, ?_, ?_⟩
    · split
      · exact defX
      · exact defY
    have picked : pickAtom .suppress mode x y = some (pickBetweenRegularAtoms .suppress x y) := by
      simp [pickAtom, defX, defY]
    simp only [FoldChoice.outcome, List.foldlM_cons, List.foldlM_nil, yOverZ,
      Option.bind_eq_bind, Option.bind_some, settle_of_pick_suppress picked]
    rfl
  obtain ⟨first, perm, ended⟩ := endsAbsolute
  obtain ⟨last, defLast, ended'⟩ := endsRegular
  have rotated : [y, z, x].Perm [x, y, z] := (List.perm_append_comm : ([y, z] ++ [x]).Perm _)
  have agree := run first [y, z, x] z last perm rotated ended ended'
  simp [traits, defZ, defLast] at agree

theorem agree_of_last (free : Free duplicates mode atoms) (isX : x ∈ atoms) (isY : y ∈ atoms)
    (last : settle duplicates mode x y = some y ∧ settle duplicates mode y x = some x) :
    Agree x y :=
  (agree_of_free free isX isY last.1 last.2).symm

theorem suppressed_of_free (free : Free .suppress mode atoms) : Suppressed atoms where
  strongs := by
    intro x isX y isY defX defY strongX strongY headerX headerY ordinal
    simp only [Atom.weak, decide_eq_false_iff_not] at strongX strongY
    apply agree_of_last free isX isY
    simp [settle, pickAtom, defX, defY, pickBetweenRegularAtoms, strongX, strongY, headerX,
      headerY, pickLowerOrdinal, pickAOrB, ordinal]
  absolutes := by
    intro x isX y isY defX defY ordinal
    apply agree_of_last free isX isY
    simp [settle, pickAtom, defX, defY, pickHigherOrdinal, pickAOrB, ordinal]
  mixed := by
    intro x isX y isY defX defY ordinal
    have agree : Agree x y := by
      apply agree_of_last free isX isY
      simp [settle, pickAtom, defX, defY, pickHigherOrdinal, pickAOrB, ordinal]
    simp [Agree, traits, defX, defY] at agree
  acyclic := by
    intro x isX y isY z isZ defX defY defZ above order
    apply cycle_not_free free isX isY isZ defX defY defZ _ order.1 order.2
    exact upper_kept defX defY (scopes_of_free free x isX y isY defX defY) above

theorem consistent_of_free (free : Free duplicates mode atoms) :
    Consistent duplicates atoms where
  commons := by
    intro x isX y isY defX defY
    by_contra less
    have smaller := Nat.lt_of_not_le less
    have first : settle duplicates mode x y = some x := by
      simp [settle, pickAtom, defX, defY, pickHigherOrdinal, pickAOrB, smaller]
    have second : settle duplicates mode y x = some y := by
      simp [settle, pickAtom, defX, defY]
    have agree := agree_of_free free isX isY first second
    simp [Agree, traits, defX, defY] at agree
  scopes := scopes_of_free free
  headers := by
    intro x isX y isY defX defY strongX strongY headerX headerY
    simp only [Atom.weak, decide_eq_false_iff_not] at strongX strongY
    have first : settle duplicates mode x y = some x := by
      simp [settle, pickAtom, defX, defY, pickBetweenRegularAtoms, strongX, strongY, headerX]
    have second : settle duplicates mode y x = some y := by
      simp [settle, pickAtom, defX, defY, pickBetweenRegularAtoms, strongX, strongY, headerY]
    exact agree_of_free free isX isY first second
  proxies := by
    intro x isX y isY defX defY weakX weakY
    simp only [Atom.weak, decide_eq_true_eq] at weakX weakY
    apply agree_of_last free isX isY
    simp [settle, pickAtom, defX, defY, pickProxyAtom, weakX, weakY]
  tentatives := by
    intro x isX y isY defX defY size ordinal
    apply agree_of_last free isX isY
    simp [settle, pickAtom, defX, defY, pickLargerSize, pickLowerOrdinal, pickAOrB, size, ordinal]
  suppressed := by
    intro suppress
    subst suppress
    exact suppressed_of_free free

end Needed

/-- For every set of the atoms the order in which they are added does not matter, exactly under
the conditions above. -/
theorem order_free_iff (duplicates : Treatment) (mode : CommonsMode) (atoms : List Atom) :
    (∀ part : List Atom, part.Subperm atoms → OrderFree duplicates mode part) ↔
      Consistent duplicates atoms := by
  constructor
  · exact consistent_of_free
  intro consistent part within
  apply orderFree_iff.mpr
  have equivalence : Equivalence Agree :=
    ⟨fun _ => rfl, fun same => same.symm, fun first second => first.trans second⟩
  exact FoldChoice.order_free_of_respects equivalence
    ((consistent_respects consistent).subset within.subset)

def commonSymbol : Atom where
  definition := .tentative
  combine := .never
  scope := .global
  autoHide := false
  typeLTOtemporary := false
  typeMachHeader := false
  size := 8
  alignment := ⟨3, 0⟩
  ordinal := 1

def absoluteSymbol : Atom where
  definition := .absolute
  combine := .never
  scope := .global
  autoHide := false
  typeLTOtemporary := false
  typeMachHeader := false
  size := 0
  alignment := ⟨0, 0⟩
  ordinal := 2

/-- Whichever comes last is bound, and nothing is reported. -/
theorem last_of_common_and_absolute :
    (∃ slot, addAll .error .ignoreDylibs [commonSymbol, absoluteSymbol] = some slot ∧
      slot.Clean ∧ slot.atom = some absoluteSymbol) ∧
    (∃ slot, addAll .error .ignoreDylibs [absoluteSymbol, commonSymbol] = some slot ∧
      slot.Clean ∧ slot.atom = some commonSymbol) ∧
    ¬ OrderFree .error .ignoreDylibs [commonSymbol, absoluteSymbol] := by
  refine ⟨⟨_, rfl, ⟨rfl, rfl⟩, rfl⟩, ⟨_, rfl, ⟨rfl, rfl⟩, rfl⟩, ?_⟩
  intro free
  have agree := free [commonSymbol, absoluteSymbol] [absoluteSymbol, commonSymbol] _ _
    (List.Perm.refl _) (List.Perm.swap _ _ _) rfl rfl ⟨rfl, rfl⟩ ⟨rfl, rfl⟩ _ _ rfl rfl
  simp [traits, commonSymbol, absoluteSymbol] at agree

end DeveloperTools.Ld64.SymbolResolution
