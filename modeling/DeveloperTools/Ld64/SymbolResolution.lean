import DeveloperTools.Lib.FoldChoice

/-!
Which of several atoms with one name is bound to it (`NameCollisionResolution` and
`SymbolTable::addByName`). The atoms are added one after another, and each collision is
between the new atom, A, and the one in the slot, B.
-/

namespace DeveloperTools.Ld64.SymbolResolution

open Option

inductive Definition
  | regular | tentative | absolute | proxy
  deriving DecidableEq

inductive Scope
  | translationUnit | linkageUnit | «global»
  deriving DecidableEq

inductive Combine
  | never | byName | byNameAndContent | byNameAndReferences
  deriving DecidableEq

/-- How duplicate symbols are treated; `doAtom` passes no other value. -/
inductive Treatment
  | error | warning | suppress
  deriving DecidableEq

inductive CommonsMode
  | ignoreDylibs | overriddenByDylibs | conflictsDylibsError
  deriving DecidableEq

structure Alignment where
  powerOf2 : Nat
  modulus : Nat
  deriving DecidableEq

def Alignment.trailingZeros (alignment : Alignment) : Nat :=
  if alignment.modulus = 0 then alignment.powerOf2 % 256
  else ((List.range 16).find? fun i => alignment.modulus.testBit i).getD 0

structure Atom where
  definition : Definition
  combine : Combine
  scope : Scope
  autoHide : Bool
  typeLTOtemporary : Bool
  typeMachHeader : Bool
  size : Nat
  alignment : Alignment
  ordinal : Nat
  deriving DecidableEq

/-- `_chosen`, which one branch leaves as it was. -/
inductive Choice
  | a | b | unset
  deriving DecidableEq

def pickAOrB (pickA : Bool) : Choice := if pickA then .a else .b

section Collision

variable (duplicates : Treatment) (mode : CommonsMode) (a b : Atom)

def pickHigherOrdinal : Choice := pickAOrB (a.ordinal < b.ordinal)

def pickLowerOrdinal : Choice := pickAOrB (a.ordinal > b.ordinal)

def pickLargerSize : Choice :=
  if a.size = b.size then pickLowerOrdinal a b else pickAOrB (a.size > b.size)

def pickGreaterAlignment : Choice :=
  pickAOrB (a.alignment.trailingZeros > b.alignment.trailingZeros)

def pickBetweenWeakAtoms : Choice :=
  if a.typeLTOtemporary != b.typeLTOtemporary then pickAOrB (!a.typeLTOtemporary)
  else if a.autoHide != b.autoHide then pickAOrB (!a.autoHide)
  else if a.autoHide && b.autoHide then pickGreaterAlignment a b
  else if a.scope ≠ b.scope then pickAOrB (a.scope == .global)
  else pickGreaterAlignment a b

/-- The atom and whether a duplicate is to be reported. -/
def pickBetweenRegularAtoms : Choice × Bool :=
  if a.combine = .byName then
    if b.combine = .byName then (pickBetweenWeakAtoms a b, false)
    else (.b, false)
  else if b.combine = .byName then (.a, false)
  else if a.typeMachHeader then (.a, false)
  else if b.typeMachHeader then (.b, false)
  else match duplicates with
  | .error => (.unset, true)
  | .warning => (pickLowerOrdinal a b, true)
  | .suppress => (pickLowerOrdinal a b, false)

/-- The arguments are what is picked for the tentative atom and for the proxy. -/
def pickCommonsMode (tentative proxy : Choice) : Option Choice :=
  match mode with
  | .ignoreDylibs => some tentative
  | .overriddenByDylibs => some proxy
  | .conflictsDylibsError => none

def pickProxyAtom : Option Choice :=
  if a.combine = .byName then some .b
  else if b.combine = .byName then some .a
  else none

/-- `none` is an exception. -/
def pickAtom : Option (Choice × Bool) :=
  match a.definition, b.definition with
  | .regular, .regular => some (pickBetweenRegularAtoms duplicates a b)
  | .regular, .tentative => some (.a, false)
  | .regular, .absolute => some (pickHigherOrdinal a b, true)
  | .regular, .proxy => some (.a, false)
  | .tentative, .regular => some (.b, false)
  | .tentative, .tentative => some (pickLargerSize a b, false)
  | .tentative, .absolute => some (pickHigherOrdinal a b, false)
  | .tentative, .proxy => (pickCommonsMode mode .a .b).map fun choice => (choice, false)
  | .absolute, .regular => some (pickHigherOrdinal a b, true)
  | .absolute, .tentative => some (.a, false)
  | .absolute, .absolute => some (pickHigherOrdinal a b, true)
  | .absolute, .proxy => some (.a, false)
  | .proxy, .regular => some (.b, false)
  | .proxy, .tentative => (pickCommonsMode mode .b .a).map fun choice => (choice, false)
  | .proxy, .absolute => some (.b, false)
  | .proxy, .proxy => (pickProxyAtom a b).map fun choice => (choice, false)

end Collision

structure Slot where
  atom : Option Atom
  duplicateSymbolErrors : List Atom
  duplicateSymbolWarnings : List Atom
  coalescedAway : List Atom
  hasTentativeDefinitions : Bool

def Slot.empty : Slot := ⟨none, [], [], [], false⟩

section Adding

variable (duplicates : Treatment) (mode : CommonsMode)

/-- Bind the new atom, or count it as coalesced away. -/
def Slot.use (slot : Slot) (new : Atom) (useNew : Bool) : Slot :=
  if useNew then
    { slot with
      atom := some new
      coalescedAway := slot.coalescedAway ++ slot.atom.toList
      hasTentativeDefinitions := slot.hasTentativeDefinitions || new.definition = .tentative }
  else { slot with coalescedAway := slot.coalescedAway ++ [new] }

def addByName (slot : Slot) (new : Atom) : Option Slot :=
  match slot.atom with
  | none => some (slot.use new true)
  | some existing =>
    match pickAtom duplicates mode new existing with
    | none => none
    | some (chosen, report) =>
      let slot :=
        if report && duplicates = .error then
          { slot with
            duplicateSymbolErrors := slot.duplicateSymbolErrors ++ [existing, new] }
        else if report && duplicates = .warning then
          { slot with
            duplicateSymbolWarnings := slot.duplicateSymbolWarnings ++ [existing, new] }
        else slot
      some (slot.use new (chosen = .a))

def addAll (atoms : List Atom) : Option Slot := atoms.foldlM (addByName duplicates mode) Slot.empty

end Adding

def Slot.Clean (slot : Slot) : Prop :=
  slot.duplicateSymbolErrors = [] ∧ slot.duplicateSymbolWarnings = []

def Atom.weak (atom : Atom) : Bool := atom.combine = .byName

/-- What orders are to agree on: the kind, weak or strong, LTO, auto-hide, and scope, alignment
and size where two such atoms are compared by them. -/
def traits (atom : Atom) :
    Definition × Bool × Bool × Bool × Option Scope × Option Nat × Option Nat :=
  (atom.definition, atom.weak, atom.typeLTOtemporary, atom.autoHide,
    if atom.definition = .regular ∧ atom.weak ∧ !atom.autoHide then some atom.scope else none,
    if atom.definition = .regular ∧ atom.weak then some atom.alignment.trailingZeros else none,
    if atom.definition = .tentative then some atom.size else none)

/-- Any two orders of adding the atoms that neither throw nor record a duplicate bind atoms that
agree. -/
def OrderFree (duplicates : Treatment) (mode : CommonsMode) (atoms : List Atom) : Prop :=
  ∀ first second slot slot', first.Perm atoms → second.Perm atoms →
    addAll duplicates mode first = some slot → addAll duplicates mode second = some slot' →
    slot.Clean → slot'.Clean → ∀ x y, slot.atom = some x → slot'.atom = some y → traits x = traits y

section Runs

variable {duplicates : Treatment} {mode : CommonsMode}

def settle (duplicates : Treatment) (mode : CommonsMode) (new old : Atom) : Option Atom :=
  match pickAtom duplicates mode new old with
  | none => none
  | some (choice, report) =>
    if report && duplicates ≠ .suppress then none
    else some (if choice = .a then new else old)

@[simp] theorem use_clean (slot : Slot) (new : Atom) (useNew : Bool) :
    (slot.use new useNew).Clean ↔ slot.Clean := by
  cases useNew <;> exact Iff.rfl

variable {slot : Slot}

theorem use_atom (old new : Atom) (useNew : Bool) (bound : slot.atom = some old) :
    (slot.use new useNew).atom = some (if useNew then new else old) := by
  cases useNew
  · exact bound
  · rfl

theorem addByName_clean_iff {new old kept : Atom} (bound : slot.atom = some old) :
    (∃ slot', addByName duplicates mode slot new = some slot' ∧ slot'.Clean ∧
      slot'.atom = some kept) ↔ slot.Clean ∧ settle duplicates mode new old = some kept := by
  simp only [addByName, bound, settle]
  cases picked : pickAtom duplicates mode new old with
  | none => simp
  | some result =>
    obtain ⟨choice, report⟩ := result
    cases report with
    | false =>
      simp only [Bool.false_and, Bool.false_eq_true, if_false, Option.some.injEq,
        exists_eq_left', use_clean, use_atom old new _ bound, decide_eq_true_eq]
    | true =>
      cases duplicates with
      | error =>
        simp only [Bool.true_and, decide_true, if_true, Option.some.injEq,
          exists_eq_left', use_clean]
        simp [Slot.Clean]
      | warning =>
        simp only [Bool.true_and, reduceCtorEq, decide_false, Bool.false_eq_true, if_false,
          decide_true, if_true, Option.some.injEq, exists_eq_left', use_clean]
        simp [Slot.Clean]
      | suppress =>
        simp [use_atom old new _ bound]

theorem addByName_bound {slot' : Slot} {new old : Atom} (bound : slot.atom = some old)
    (run : addByName duplicates mode slot new = some slot') : ∃ kept, slot'.atom = some kept := by
  simp only [addByName, bound] at run
  split at run
  · cases run
  cases run
  refine ⟨_, use_atom old new _ ?_⟩
  split_ifs
  · rfl
  · rfl
  · exact bound

variable {atoms : List Atom}

theorem foldlM_clean_iff {old kept : Atom} (bound : slot.atom = some old) :
    ((∃ slot', atoms.foldlM (addByName duplicates mode) slot = some slot' ∧ slot'.Clean ∧
      slot'.atom = some kept) ↔ slot.Clean ∧
      atoms.foldlM (fun old new => settle duplicates mode new old) old = some kept) := by
  induction atoms generalizing slot old kept bound with
  | nil => simp [bound]
  | cons new rest ih =>
    simp only [List.foldlM_cons, bind_eq_bind, bind_eq_some_iff]
    constructor
    · rintro ⟨slot', ⟨middle, first, run⟩, clean, last⟩
      obtain ⟨m, boundM⟩ := addByName_bound bound first
      obtain ⟨cleanM, settled⟩ := (ih boundM).mp ⟨slot', run, clean, last⟩
      have collision := (addByName_clean_iff bound).mp ⟨middle, first, cleanM, boundM⟩
      exact ⟨collision.1, m, collision.2, settled⟩
    · rintro ⟨clean, m, first, settled⟩
      obtain ⟨middle, run, cleanM, boundM⟩ := (addByName_clean_iff bound).mpr ⟨clean, first⟩
      obtain ⟨slot', rest, last⟩ := (ih boundM).mpr ⟨cleanM, settled⟩
      exact ⟨slot', ⟨middle, run, rest⟩, last⟩

theorem addAll_clean_iff {kept : Atom} :
    (∃ slot, addAll duplicates mode atoms = some slot ∧ slot.Clean ∧ slot.atom = some kept) ↔
      FoldChoice.outcome (settle duplicates mode) atoms = some kept := by
  cases atoms with
  | nil => simp [addAll, FoldChoice.outcome, Slot.empty]
  | cons first rest =>
    have begun : addByName duplicates mode Slot.empty first =
        some (Slot.empty.use first true) := rfl
    have clean : (Slot.empty.use first true).Clean := ⟨rfl, rfl⟩
    have bound : (Slot.empty.use first true).atom = some first := rfl
    simp only [addAll, List.foldlM_cons, begun, bind_eq_bind, bind_some, FoldChoice.outcome]
    rw [foldlM_clean_iff bound]
    simp [clean]

theorem orderFree_iff : OrderFree duplicates mode atoms ↔
    FoldChoice.OrderFree (settle duplicates mode) (fun x y => traits x = traits y) atoms := by
  constructor
  · intro free first second x y firstPerm secondPerm firstRun secondRun
    obtain ⟨slot, run, clean, bound⟩ := addAll_clean_iff.mpr firstRun
    obtain ⟨slot', run', clean', bound'⟩ := addAll_clean_iff.mpr secondRun
    exact free first second slot slot' firstPerm secondPerm run run' clean clean' x y bound bound'
  intro free first second slot slot' firstPerm secondPerm run run' clean clean' x y bound bound'
  exact free first second x y firstPerm secondPerm
    (addAll_clean_iff.mp ⟨slot, run, clean, bound⟩)
    (addAll_clean_iff.mp ⟨slot', run', clean', bound'⟩)

end Runs

end DeveloperTools.Ld64.SymbolResolution
