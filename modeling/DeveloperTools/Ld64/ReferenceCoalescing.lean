import DeveloperTools.Ld64.LiteralCoalescing

/-!
The accounts of `SymbolTable` with the comparisons that its maps make: names, the bytes of literals,
and for atoms that are entered by references what `canCoalesceWith` finds at the target, which may
be bound through a slot of the same table. What an atom stands for is read in the slots as they
are; under the condition of the literals it never changes, and is one for all atoms of a slot.
-/

namespace DeveloperTools.Ld64.LiteralCoalescing

open SymbolResolution (CommonsMode Treatment)
open SymbolTable List

inductive Binding (Ref : Type)
  | byNameUnbound (name : String)
  | byContentBound (target : Ref)
  | directlyBound (target : Ref)
  | indirectlyBound (bindingIndex : Nat)

/-- The atoms by the one fixup that is compared. -/
structure References (Ref : Type) where
  sectionName : Ref → String
  binding : Ref → Binding Ref

inductive Subject
  | symbol (name : String)
  | literal (table : Table) (content : List UInt8)
  | pointer (table : Table) (sectionName name : String)
  | string (table : Table) (sectionName : String) (kind : Option Table) (content : List UInt8)
  deriving DecidableEq

namespace References

variable {Ref : Type} [DecidableEq Ref] (references : References Ref) (literals : Literals Ref)
  (base : Symbols Ref)

section Comparing

variable (slots : List (Option Ref))

def targetAtom (atom : Ref) : Option Ref :=
  match references.binding atom with
  | .byNameUnbound _ => none
  | .byContentBound target | .directlyBound target => some target
  | .indirectlyBound slot => slots[slot]?.join

/-- `targetName` and `targetClassName`; nothing where an assertion fails. -/
def targetName (atom : Ref) : Option String :=
  match references.binding atom with
  | .byNameUnbound name => some name
  | _ => (references.targetAtom slots atom).map base.name

def sameName (left right : Ref) : Bool :=
  (references.targetName base slots left).any fun name =>
    references.targetName base slots right = some name

def isStatic (atom : Ref) : Bool :=
  match references.binding atom with
  | .directlyBound target => (base.atom target).scope = .translationUnit
  | _ => false

def sameCString (left right : Ref) : Bool :=
  (references.targetAtom slots left).any fun leftTarget =>
    (references.targetAtom slots right).any (literals.cstringEqual leftTarget)

/-- `count` of a string of 16-bit units, an `unsigned int`. -/
def charCount (target : Ref) : Nat := ((literals.content target).length + 1) / 2 % 2 ^ 32

def sameBacking (left right : Ref) : Bool :=
  match literals.sectionType left, literals.sectionType right with
  | .cstring, .cstring =>
    left = right ||
      (literals.content left).length % 2 ^ 32 = (literals.content right).length % 2 ^ 32 &&
        literals.cstringEqual left right
  | .utf16Strings, .utf16Strings =>
    left = right || charCount literals left = charCount literals right &&
      literals.memcmpEqual left right (2 * charCount literals left)
  -- a malformed string is like no other
  | _, _ => false

def canCoalesceWith (table : Table) (left right : Ref) : Bool :=
  match table with
  | .nonLazyPointer =>
    references.sectionName left = references.sectionName right &&
      references.sameName base slots left right
  | .threadPointer =>
    !references.isStatic base left && !references.isStatic base right &&
      references.sameName base slots left right
  | .objc2ClassRef => references.sameName base slots left right
  | .pointerToCString =>
    references.sectionName left = references.sectionName right &&
      references.sameCString literals slots left right
  | .cfString =>
    left = right || (references.targetAtom slots left).any fun leftTarget =>
      (references.targetAtom slots right).any (sameBacking literals leftTarget)
  | _ => false

/-- What the slot of an atom is for. -/
def standsFor (atom : Ref) : Option Subject :=
  match (base.atom atom).combine with
  | .never | .byName => some (.symbol (base.name atom))
  | .byNameAndContent =>
    (contentTable (literals.sectionType atom)).map (.literal · (literals.content atom))
  | .byNameAndReferences =>
    match referencesTable (literals.sectionType atom) with
    | some .nonLazyPointer => (references.targetName base slots atom).map
        (.pointer .nonLazyPointer (references.sectionName atom))
    | some .pointerToCString => (references.targetAtom slots atom).map fun target =>
        .string .pointerToCString (references.sectionName atom) none (literals.content target)
    | some .cfString => (references.targetAtom slots atom).map fun target =>
        .string .cfString "" (contentTable (literals.sectionType target)) (literals.content target)
    | some table => (references.targetName base slots atom).map (.pointer table "")
    | none => none

end Comparing

/-- The comparisons of references. `base` says which atoms have the same hash. -/
def comparing (keyFirst : Bool) : Symbols Ref :=
  { base with same := fun table slots key atom => base.same table slots key atom &&
      if keyFirst then references.canCoalesceWith literals base slots table key atom
      else references.canCoalesceWith literals base slots table atom key }

/-- The symbols with all their comparisons. -/
abbrev symbols (hash : Ref → Nat) (keyFirst : Bool) : Symbols Ref :=
  literals.symbols (references.comparing literals base keyFirst) hash keyFirst

def isNamed : Table → Bool
  | .nonLazyPointer | .objc2ClassRef | .threadPointer => true
  | _ => false

def ByName (atom : Ref) : Prop :=
  (base.atom atom).combine = .never ∨ (base.atom atom).combine = .byName

/-- What the target of a string has to be: a C string where that is asserted, and not so long
that its number of units is not an `unsigned int`. -/
def IsString (table : Table) (target : Ref) : Prop :=
  (table = .pointerToCString → literals.sectionType target = .cstring ∨
    ∃ segmentName sectionName, literals.sectionType target = .nonStdCString segmentName sectionName) ∧
  (literals.content target).length < 2 ^ 32

/-- An atom that is entered by references refers to something: where its target is bound through a
slot, the slot is there, and was made for a name or for a literal as the atom needs it. -/
structure WellBound (run : Run Ref) (atom : Ref) (table : Table) : Prop where
  named : isNamed table = true → ∀ slot, references.binding atom = .indirectlyBound slot →
    ∃ target, (target, slot) ∈ run.added ∧ ByName base target
  string : isNamed table = false → ∃ target, IsString literals table target ∧
    (references.binding atom = .byContentBound target ∨
      references.binding atom = .directlyBound target ∨
      ∃ slot, references.binding atom = .indirectlyBound slot ∧ (target, slot) ∈ run.added ∧
        (base.atom target).combine = .byNameAndContent)

section Sharing

variable {references literals base} {hash : Ref → Nat} {keyFirst : Bool} {run before : Run Ref}
  {atom left right : Ref} {slot : Nat} {table : Table}

theorem shared_name (keyed : Keyed (references.symbols literals base hash keyFirst) run)
    (leftIn : (left, slot) ∈ run.added) (rightIn : (right, slot) ∈ run.added)
    (byName : ByName base left) : ByName base right ∧ base.name left = base.name right := by
  obtain ⟨key, hasKey, leftMeets⟩ := keyed.meets left slot leftIn
  obtain ⟨other, hasOther, rightMeets⟩ := keyed.meets right slot rightIn
  cases keyed.oneKey slot key other hasKey hasOther
  cases key with
  | name name => exact ⟨rightMeets.1, leftMeets.2.trans rightMeets.2.symm⟩
  | shared table first =>
    have shared : (base.atom left).combine = .byNameAndContent ∨
        (base.atom left).combine = .byNameAndReferences :=
      leftMeets.1.imp And.left And.left
    rcases byName with never | named
    · rw [never] at shared
      simp at shared
    · rw [named] at shared
      simp at shared

variable (references literals base hash keyFirst) in
/-- A run in good order, with the atoms for which slots were made. -/
structure Sound (run : Run Ref) : Prop
    extends Keeps (references.symbols literals base hash keyFirst) run where
  founds : ∀ entry ∈ run.state.coalescing,
    Meets (references.symbols literals base hash keyFirst) entry.2.1 (.shared entry.1 entry.2.1)

variable (keyFirst) in
theorem named_target (bound : references.WellBound literals base before atom table)
    (isNamed : isNamed table = true) : ∃ name, ∀ run,
      Sound references literals base hash keyFirst run → before.added ⊆ run.added →
        references.targetName base run.state.indirectBindingTable atom = some name := by
  unfold targetName targetAtom
  cases isBinding : references.binding atom with
  | byNameUnbound name => exact ⟨name, fun _ _ _ => rfl⟩
  | byContentBound target => exact ⟨base.name target, fun _ _ _ => rfl⟩
  | directlyBound target => exact ⟨base.name target, fun _ _ _ => rfl⟩
  | indirectlyBound slot =>
    obtain ⟨target, isIn, byName⟩ := bound.named isNamed slot isBinding
    refine ⟨base.name target, fun run sound later => ?_⟩
    obtain ⟨other, held⟩ := sound.occupied target slot (later isIn)
    have shared := shared_name sound.toKeyed (later isIn) (sound.bound slot other held).1 byName
    simp [held, shared.2]

variable (keyFirst) in
theorem string_target (noStarts : literals.NoStartsWithin hash)
    (bound : references.WellBound literals base before atom table)
    (isNamed : isNamed table = false) : ∃ target, IsString literals table target ∧ ∀ run,
      Sound references literals base hash keyFirst run → before.added ⊆ run.added →
        ∃ other, references.targetAtom run.state.indirectBindingTable atom = some other ∧
          contentTable (literals.sectionType other) = contentTable (literals.sectionType target) ∧
          literals.content other = literals.content target := by
  obtain ⟨target, isString, isBinding⟩ := bound.string isNamed
  refine ⟨target, isString, fun run sound later => ?_⟩
  unfold targetAtom
  rcases isBinding with isBinding | isBinding | ⟨slot, isBinding, isIn, byContent⟩
  · exact ⟨target, by rw [isBinding], rfl, rfl⟩
  · exact ⟨target, by rw [isBinding], rfl, rfl⟩
  · obtain ⟨other, held⟩ := sound.occupied target slot (later isIn)
    obtain ⟨table, targetTable, _, otherTable, same⟩ := Literals.shared_content sound.toKeyed
      sound.founds noStarts (later isIn) (sound.bound slot other held).1 byContent
    exact ⟨other, by simp [isBinding, held], otherTable.trans targetTable.symm, same.symm⟩

omit [DecidableEq Ref] in
theorem cstring_same (leftString : IsString literals .pointerToCString left)
    (rightString : IsString literals .pointerToCString right)
    (same : literals.cstringEqual left right = true) :
    literals.content left = literals.content right := by
  have formed {atom : Ref} (isString : IsString literals .pointerToCString atom) :
      ∃ chars, 0 ∉ chars ∧ literals.content atom = chars ++ [0] := by
    rcases isString.1 rfl with isType | ⟨_, _, isType⟩
    · exact literals.formed atom .cstring (by rw [isType]; rfl)
    · exact literals.formed atom (.nonStdCString _) (by rw [isType]; rfl)
  obtain ⟨leftChars, leftNul, leftContent⟩ := formed leftString
  obtain ⟨rightChars, rightNul, rightContent⟩ := formed rightString
  exact (Literals.cstring_equal_iff leftNul leftContent rightNul rightContent).mp same

theorem backing_same (leftShort : (literals.content left).length < 2 ^ 32)
    (rightShort : (literals.content right).length < 2 ^ 32)
    (same : sameBacking literals left right = true) :
    contentTable (literals.sectionType left) = contentTable (literals.sectionType right) ∧
      literals.content left = literals.content right := by
  unfold sameBacking at same
  split at same
  next leftType rightType =>
    refine ⟨by rw [leftType, rightType], ?_⟩
    rcases Bool.or_eq_true_iff.mp same with isSame | same
    · rw [of_decide_eq_true isSame]
    · exact cstring_same ⟨fun _ => .inl leftType, leftShort⟩ ⟨fun _ => .inl rightType, rightShort⟩
        (Bool.and_eq_true_iff.mp same).2
  next leftType rightType =>
    refine ⟨by rw [leftType, rightType], ?_⟩
    rcases Bool.or_eq_true_iff.mp same with isSame | same
    · rw [of_decide_eq_true isSame]
    obtain ⟨counts, bytes⟩ := Bool.and_eq_true_iff.mp same
    obtain ⟨⟨leftHalf, leftEven⟩, _⟩ := literals.formed left .utf16 (by rw [leftType]; rfl)
    obtain ⟨⟨rightHalf, rightEven⟩, _⟩ := literals.formed right .utf16 (by rw [rightType]; rfl)
    have counts := of_decide_eq_true counts
    unfold charCount at counts bytes
    have length : (literals.content left).length = (literals.content right).length := by omega
    apply (Literals.content_equal_iff length).mp
    rwa [Literals.contentEqual, show (literals.content left).length =
      2 * (((literals.content left).length + 1) / 2 % 2 ^ 32) by omega]
  · cases same

variable {slots : List (Option Ref)}

omit [DecidableEq Ref] in
theorem same_name_iff : references.sameName base slots left right = true ↔
    ∃ name, references.targetName base slots left = some name ∧
      references.targetName base slots right = some name := by
  simp [sameName, Option.any_eq_true]

/-- Atoms that `canCoalesceWith` takes for the same stand for the same. -/
theorem stands_for_same (leftBy : (base.atom left).combine = .byNameAndReferences)
    (rightBy : (base.atom right).combine = .byNameAndReferences)
    (leftTable : referencesTable (literals.sectionType left) = some table)
    (rightTable : referencesTable (literals.sectionType right) = some table)
    (strings : isNamed table = false → ∀ atom ∈ [left, right], ∀ target,
      references.targetAtom slots atom = some target → IsString literals table target)
    (same : references.canCoalesceWith literals base slots table left right = true) :
    references.standsFor literals base slots left =
      references.standsFor literals base slots right := by
  unfold standsFor
  rw [leftBy, rightBy, leftTable, rightTable]
  unfold canCoalesceWith at same
  split at same
  · obtain ⟨sections, names⟩ := Bool.and_eq_true_iff.mp same
    obtain ⟨name, leftName, rightName⟩ := same_name_iff.mp names
    simp only [leftName, rightName, of_decide_eq_true sections]
  · obtain ⟨name, leftName, rightName⟩ := same_name_iff.mp (Bool.and_eq_true_iff.mp same).2
    simp only [leftName, rightName]
  · obtain ⟨name, leftName, rightName⟩ := same_name_iff.mp same
    simp only [leftName, rightName]
  · obtain ⟨sections, same⟩ := Bool.and_eq_true_iff.mp same
    obtain ⟨leftTarget, isLeft, same⟩ := (Option.any_eq_true _ _).mp same
    obtain ⟨rightTarget, isRight, same⟩ := (Option.any_eq_true _ _).mp same
    have content := cstring_same (strings rfl left (by simp) leftTarget isLeft)
      (strings rfl right (by simp) rightTarget isRight) same
    simp only [isLeft, isRight, Option.map_some, of_decide_eq_true sections, content]
  · rcases Bool.or_eq_true_iff.mp same with isSame | same
    · rw [of_decide_eq_true isSame]
    obtain ⟨leftTarget, isLeft, same⟩ := (Option.any_eq_true _ _).mp same
    obtain ⟨rightTarget, isRight, same⟩ := (Option.any_eq_true _ _).mp same
    have content := backing_same (strings rfl left (by simp) leftTarget isLeft).2
      (strings rfl right (by simp) rightTarget isRight).2 same
    simp only [isLeft, isRight, Option.map_some, content]
  · cases same

omit [DecidableEq Ref] in
theorem is_string_congr {target : Ref} (isString : IsString literals table target)
    (tables : contentTable (literals.sectionType atom) = contentTable (literals.sectionType target))
    (content : literals.content atom = literals.content target) : IsString literals table atom := by
  refine ⟨fun isPointer => ?_, content ▸ isString.2⟩
  rcases isString.1 isPointer with isType | ⟨_, _, isType⟩
  all_goals
    rw [isType] at tables
    cases ofAtom : literals.sectionType atom
    all_goals
      rw [ofAtom] at tables
      simp_all [contentTable]

variable (references literals base) in
def Bounded (run : Run Ref) (atom : Ref) : Prop :=
  (base.atom atom).combine = .byNameAndReferences →
    ∀ table, referencesTable (literals.sectionType atom) = some table →
      references.WellBound literals base run atom table

omit [DecidableEq Ref] in
theorem Bounded.later (bounded : Bounded references literals base before atom)
    (later : before.added ⊆ run.added) : Bounded references literals base run atom := by
  intro byReferences table isTable
  obtain ⟨named, string⟩ := bounded byReferences table isTable
  refine ⟨fun isNamed slot isBinding => ?_, fun isNamed => ?_⟩
  · obtain ⟨target, isIn, byName⟩ := named isNamed slot isBinding
    exact ⟨target, later isIn, byName⟩
  · obtain ⟨target, isString, direct | direct | ⟨slot, isBinding, isIn, byContent⟩⟩ :=
      string isNamed
    · exact ⟨target, isString, .inl direct⟩
    · exact ⟨target, isString, .inr (.inl direct)⟩
    · exact ⟨target, isString, .inr (.inr ⟨slot, isBinding, later isIn, byContent⟩)⟩

theorem strings_of_bound (noStarts : literals.NoStartsWithin hash)
    (sound : Sound references literals base hash keyFirst run)
    (bound : references.WellBound literals base run atom table) (isNamed : isNamed table = false)
    {target : Ref} (isTarget : references.targetAtom run.state.indirectBindingTable atom = some target) :
    IsString literals table target := by
  obtain ⟨original, isString, resolved⟩ := string_target keyFirst noStarts bound isNamed
  obtain ⟨other, isOther, tables, content⟩ := resolved run sound (Subset.refl _)
  cases isOther.symm.trans isTarget
  exact is_string_congr isString tables content

variable (references literals base hash keyFirst) in
/-- From this run on the atom stands for the subject. -/
def Settles (before : Run Ref) (atom : Ref) (subject : Subject) : Prop :=
  ∀ run, Sound references literals base hash keyFirst run → before.added ⊆ run.added →
    references.standsFor literals base run.state.indirectBindingTable atom = some subject

theorem references_table {key : Key Ref}
    (byReferences : (base.atom atom).combine = .byNameAndReferences)
    (meets : Meets (references.symbols literals base hash keyFirst) atom key) :
    ∃ table, referencesTable (literals.sectionType atom) = some table := by
  have isCombine : ((references.symbols literals base hash keyFirst).atom atom).combine =
      .byNameAndReferences := byReferences
  cases key with
  | name name =>
    have byName := meets.1
    rw [isCombine] at byName
    simp at byName
  | shared table first =>
    rcases meets.1 with ⟨byContent, _⟩ | ⟨_, isTable⟩
    · rw [isCombine] at byContent
      cases byContent
    · exact ⟨table, isTable⟩

omit [DecidableEq Ref] in
theorem references_tables {type : SectionType} (isTable : referencesTable type = some table) :
    table = .nonLazyPointer ∨ table = .objc2ClassRef ∨ table = .threadPointer ∨
      table = .pointerToCString ∨ table = .cfString := by
  cases type <;> cases isTable <;> simp

theorem settles_of_bound (noStarts : literals.NoStartsWithin hash)
    (bounded : Bounded references literals base before atom)
    (enters : ∃ key, Meets (references.symbols literals base hash keyFirst) atom key) :
    ∃ subject, Settles references literals base hash keyFirst before atom subject := by
  obtain ⟨key, meets⟩ := enters
  unfold Settles standsFor
  cases isCombine : (base.atom atom).combine with
  | never => exact ⟨_, fun _ _ _ => rfl⟩
  | byName => exact ⟨_, fun _ _ _ => rfl⟩
  | byNameAndContent =>
    obtain ⟨table, _, rfl, isTable⟩ := Literals.meets_content
      (show ((references.comparing literals base keyFirst).atom atom).combine = _ from isCombine)
      meets
    exact ⟨_, fun _ _ _ => by rw [isTable]; rfl⟩
  | byNameAndReferences =>
    obtain ⟨table, isTable⟩ := references_table isCombine meets
    have bound := bounded isCombine table isTable
    rw [isTable]
    rcases references_tables isTable with rfl | rfl | rfl | rfl | rfl
    · obtain ⟨name, named⟩ := named_target keyFirst bound rfl
      exact ⟨_, fun run sound later => by rw [named run sound later]; rfl⟩
    · obtain ⟨name, named⟩ := named_target keyFirst bound rfl
      exact ⟨_, fun run sound later => by rw [named run sound later]; rfl⟩
    · obtain ⟨name, named⟩ := named_target keyFirst bound rfl
      exact ⟨_, fun run sound later => by rw [named run sound later]; rfl⟩
    · obtain ⟨target, _, resolved⟩ := string_target keyFirst noStarts bound rfl
      refine ⟨.string .pointerToCString (references.sectionName atom) none
        (literals.content target), fun run sound later => ?_⟩
      obtain ⟨other, isOther, _, content⟩ := resolved run sound later
      simp only [isOther, Option.map_some, content]
    · obtain ⟨target, _, resolved⟩ := string_target keyFirst noStarts bound rfl
      refine ⟨.string .cfString "" (contentTable (literals.sectionType target))
        (literals.content target), fun run sound later => ?_⟩
      obtain ⟨other, isOther, tables, content⟩ := resolved run sound later
      simp only [isOther, Option.map_some, tables, content]

section Adding

variable {mode : CommonsMode} {unset : Ref → Ref → Bool} {requests : List (Ref × Treatment)}
  (noStarts : literals.NoStartsWithin hash)

variable (mode unset) in
theorem sound_add_all (distinct : (requests.map Prod.fst).Nodup)
    (apart : Apart (references.symbols literals base hash keyFirst) (requests.map Prod.fst)) :
    Sound references literals base hash keyFirst
      (addAll (references.symbols literals base hash keyFirst) mode unset requests) :=
  ⟨keeps_addAll requests distinct apart, founders_meet requests⟩

variable {new : Ref} {treatment : Treatment} {state : State Ref}

theorem entered_by_references (isCombine : (base.atom new).combine = .byNameAndReferences)
    (returns : add (references.symbols literals base hash keyFirst) mode unset treatment new
      run.state = .ok (slot, state)) :
    addByReferences (references.symbols literals base hash keyFirst) new run.state =
      .ok (slot, state) := by
  have isCombine : ((references.symbols literals base hash keyFirst).atom new).combine =
      .byNameAndReferences := isCombine
  unfold add at returns
  split at returns
  · cases returns
  · rwa [isCombine] at returns

theorem by_references {first : Ref}
    (meets : Meets (references.symbols literals base hash keyFirst) first (.shared table first))
    (isTable : referencesTable (literals.sectionType new) = some table) :
    (base.atom first).combine = .byNameAndReferences ∧
      referencesTable (literals.sectionType first) = some table := by
  rcases meets.1 with ⟨_, isContent⟩ | both
  · have compared : (literals.equality table).isSome := Literals.equality_of_content isContent
    rw [Literals.equality_of_references isTable] at compared
    cases compared
  · exact both

theorem stands_for_compared {first : Ref}
    (firstBy : (base.atom first).combine = .byNameAndReferences)
    (newBy : (base.atom new).combine = .byNameAndReferences)
    (firstTable : referencesTable (literals.sectionType first) = some table)
    (newTable : referencesTable (literals.sectionType new) = some table)
    (strings : isNamed table = false → ∀ atom ∈ [first, new], ∀ target,
      references.targetAtom slots atom = some target → IsString literals table target)
    (same : (references.symbols literals base hash keyFirst).same table slots first new = true) :
    references.standsFor literals base slots first =
      references.standsFor literals base slots new := by
  have noLiteral : literals.equality table = none := Literals.equality_of_references newTable
  simp only [Literals.symbols, noLiteral, comparing, Bool.and_eq_true] at same
  cases keyFirst with
  | true => exact stands_for_same firstBy newBy firstTable newTable strings same.2
  | false =>
    refine (stands_for_same newBy firstBy newTable firstTable (fun isNamed atom isIn => ?_)
      same.2).symm
    exact strings isNamed atom (by simpa [or_comm] using isIn)

include noStarts in
/-- A new atom stands for what another one in its slot stands for. -/
theorem new_agrees (sound : Sound references literals base hash keyFirst run)
    (soundAfter : Sound references literals base hash keyFirst ⟨state, run.added ++ [(new, slot)]⟩)
    (founders : ∀ entry ∈ run.state.coalescing, entry.2 ∈ run.added)
    (bounded : ∀ atom slot, (atom, slot) ∈ run.added → Bounded references literals base run atom)
    (newBounded : Bounded references literals base run new)
    (returns : add (references.symbols literals base hash keyFirst) mode unset treatment new
      run.state = .ok (slot, state)) (isIn : (atom, slot) ∈ run.added) :
    ∃ other, (other, slot) ∈ run.added ∧ ∃ later,
      Sound references literals base hash keyFirst later ∧ run.added ⊆ later.added ∧
      references.standsFor literals base later.state.indirectBindingTable other =
        references.standsFor literals base later.state.indirectBindingTable new := by
  have newIn : (new, slot) ∈ run.added ++ [(new, slot)] := mem_append_right _ mem_cons_self
  have later : run.added ⊆ run.added ++ [(new, slot)] := subset_append_left _ _
  have static : ByName base new ∨ (base.atom new).combine = .byNameAndContent →
      ∃ other, (other, slot) ∈ run.added ∧ ∃ later,
        Sound references literals base hash keyFirst later ∧ run.added ⊆ later.added ∧
        references.standsFor literals base later.state.indirectBindingTable other =
          references.standsFor literals base later.state.indirectBindingTable new := by
    rintro (byName | byContent)
    · obtain ⟨atomBy, names⟩ := shared_name soundAfter.toKeyed newIn (later isIn) byName
      refine ⟨atom, isIn, _, soundAfter, later, ?_⟩
      unfold standsFor
      rcases byName with byName | byName
      all_goals
        rcases atomBy with atomBy | atomBy
        all_goals simp only [byName, atomBy, names]
    · obtain ⟨table, newTable, atomBy, atomTable, content⟩ := Literals.shared_content
        soundAfter.toKeyed soundAfter.founds noStarts newIn (later isIn) byContent
      have atomBy : (base.atom atom).combine = .byNameAndContent := atomBy
      refine ⟨atom, isIn, _, soundAfter, later, ?_⟩
      unfold standsFor
      simp only [byContent, atomBy, newTable, atomTable, content]
  cases isCombine : (base.atom new).combine with
  | never => exact static (.inl (.inl isCombine))
  | byName => exact static (.inl (.inr isCombine))
  | byNameAndContent => exact static (.inr isCombine)
  | byNameAndReferences =>
    obtain ⟨_, _, isFind, _⟩ := addByReferences_decided (entered_by_references isCombine returns)
    obtain ⟨table, newTable, ⟨first, isFirst, same, _⟩ | ⟨isSlot, _⟩⟩ := find_slot_ok isFind
    · have firstIn : (first, slot) ∈ run.added := founders _ isFirst
      obtain ⟨firstBy, firstTable⟩ := by_references (sound.founds _ isFirst) newTable
      refine ⟨first, firstIn, run, sound, Subset.refl _, ?_⟩
      have strings (isNamed : isNamed table = false) : ∀ atom ∈ [first, new], ∀ target,
          references.targetAtom run.state.indirectBindingTable atom = some target →
            IsString literals table target := by
        intro other isOther target isTarget
        rcases mem_pair.mp isOther with rfl | rfl
        · exact strings_of_bound noStarts sound
            (bounded other slot firstIn firstBy table firstTable) isNamed isTarget
        · exact strings_of_bound noStarts sound (newBounded isCombine table newTable) isNamed isTarget
      exact stands_for_compared firstBy isCombine firstTable newTable strings same
    · obtain ⟨_, held⟩ := sound.occupied atom slot isIn
      rw [isSlot, getElem?_length] at held
      cases held

variable (references literals base hash keyFirst) in
/-- All atoms of a slot stand for one subject from now on. -/
structure Standing (run : Run Ref) : Prop where
  bounded : ∀ atom slot, (atom, slot) ∈ run.added → Bounded references literals base run atom
  subject : ∀ slot, ∃ subject, ∀ atom, (atom, slot) ∈ run.added →
    Settles references literals base hash keyFirst run atom subject

theorem Settles.later {subject : Subject}
    (settles : Settles references literals base hash keyFirst before atom subject)
    (later : before.added ⊆ run.added) :
    Settles references literals base hash keyFirst run atom subject :=
  fun _ sound evenLater => settles _ sound (List.Subset.trans later evenLater)

include noStarts in
theorem Standing.add_step (standing : Standing references literals base hash keyFirst run)
    (sound : Sound references literals base hash keyFirst run)
    (soundAfter : Sound references literals base hash keyFirst ⟨state, run.added ++ [(new, slot)]⟩)
    (founders : ∀ entry ∈ run.state.coalescing, entry.2 ∈ run.added)
    (newBounded : Bounded references literals base run new)
    (returns : add (references.symbols literals base hash keyFirst) mode unset treatment new
      run.state = .ok (slot, state)) :
    Standing references literals base hash keyFirst ⟨state, run.added ++ [(new, slot)]⟩ := by
  have later : run.added ⊆ run.added ++ [(new, slot)] := subset_append_left _ _
  have newIn : (new, slot) ∈ run.added ++ [(new, slot)] := mem_append_right _ mem_cons_self
  have enters := (soundAfter.meets new slot newIn).imp fun _ both => both.2
  obtain ⟨newSubject, newSettles⟩ := settles_of_bound noStarts newBounded enters
  constructor
  · intro other place isIn
    rcases mem_append.mp isIn with isIn | isIn
    · exact (standing.bounded other place isIn).later later
    · cases mem_singleton.mp isIn
      exact newBounded.later later
  · intro place
    obtain ⟨subject, settles⟩ := standing.subject place
    by_cases shares : place = slot ∧ ∃ atom, (atom, slot) ∈ run.added
    · obtain ⟨rfl, atom, isIn⟩ := shares
      obtain ⟨known, knownIn, after, soundThen, laterThen, agrees⟩ :=
        new_agrees noStarts sound soundAfter founders standing.bounded newBounded returns isIn
      have same : some subject = some newSubject := by
        rw [← settles known knownIn after soundThen laterThen, agrees,
          newSettles after soundThen laterThen]
      refine ⟨subject, fun other otherIn => ?_⟩
      rcases mem_append.mp otherIn with otherIn | otherIn
      · exact (settles other otherIn).later later
      · cases mem_singleton.mp otherIn
        exact Option.some.inj same ▸ newSettles.later later
    · by_cases isSlot : place = slot
      · refine ⟨newSubject, fun other otherIn => ?_⟩
        rcases mem_append.mp otherIn with otherIn | otherIn
        · exact absurd ⟨isSlot, other, isSlot ▸ otherIn⟩ shares
        · cases mem_singleton.mp otherIn
          exact newSettles.later later
      · refine ⟨subject, fun other otherIn => ?_⟩
        rcases mem_append.mp otherIn with otherIn | otherIn
        · exact (settles other otherIn).later later
        · exact absurd (Prod.mk.inj (mem_singleton.mp otherIn)).2 isSlot

variable (references literals base hash keyFirst mode unset) in
/-- Each atom is bound as it has to be when it is entered. -/
def BoundOnEntry (requests : List (Ref × Treatment)) : Prop :=
  ∀ front request back, requests = front ++ request :: back →
    Bounded references literals base
      (addAll (references.symbols literals base hash keyFirst) mode unset front) request.1

include noStarts in
theorem standing_add_all (distinct : (requests.map Prod.fst).Nodup)
    (apart : Apart (references.symbols literals base hash keyFirst) (requests.map Prod.fst))
    (bound : BoundOnEntry references literals base hash keyFirst mode unset requests) :
    Standing references literals base hash keyFirst
      (addAll (references.symbols literals base hash keyFirst) mode unset requests) := by
  induction requests using reverseRecOn with
  | nil => exact ⟨nofun, fun _ => ⟨.symbol "", nofun⟩⟩
  | append_singleton earlier request ih =>
    have soundAfter := sound_add_all mode unset distinct apart
    have fewer : (earlier.map Prod.fst) ⊆ ((earlier ++ [request]).map Prod.fst) :=
      map_subset _ (subset_append_left _ _)
    have distinct := distinct.sublist ((sublist_append_left earlier [request]).map Prod.fst)
    have apart := apart.sublist fewer
    have standing := ih distinct apart fun front other back isEarlier =>
      bound front other (back ++ [request]) (by rw [isEarlier, append_assoc, cons_append])
    rw [addAll_append, call] at soundAfter ⊢
    split
    · exact standing
    next slot state returns =>
      rw [returns] at soundAfter
      exact standing.add_step noStarts (sound_add_all mode unset distinct apart) soundAfter
        (founders_added earlier) (bound earlier request [] rfl) returns

end Adding

end Sharing

/-- What an atom stands for is the same later on, and one for all the atoms of a slot. -/
structure SlotsStand (early late : Run Ref) : Prop where
  kept : ∀ atom slot, (atom, slot) ∈ early.added → ∃ subject,
    references.standsFor literals base early.state.indirectBindingTable atom = some subject ∧
      references.standsFor literals base late.state.indirectBindingTable atom = some subject
  shared : ∀ left right slot, (left, slot) ∈ late.added → (right, slot) ∈ late.added →
    references.standsFor literals base late.state.indirectBindingTable left =
      references.standsFor literals base late.state.indirectBindingTable right

/-- After any calls for distinct atoms that are not in each other's groups the accounts hold, and
slots go on to stand for what they stood for after some of the calls. -/
theorem accounts_stand (hash : Ref → Nat) (keyFirst : Bool) (mode : CommonsMode)
    (unset : Ref → Ref → Bool) (front back : List (Ref × Treatment))
    (noStarts : literals.NoStartsWithin hash)
    (distinct : ((front ++ back).map Prod.fst).Nodup)
    (apart : Apart (references.symbols literals base hash keyFirst) ((front ++ back).map Prod.fst))
    (bound : BoundOnEntry references literals base hash keyFirst mode unset (front ++ back)) :
    Accounts (references.symbols literals base hash keyFirst)
        (addAll (references.symbols literals base hash keyFirst) mode unset (front ++ back)) ∧
      references.SlotsStand literals base
        (addAll (references.symbols literals base hash keyFirst) mode unset front)
        (addAll (references.symbols literals base hash keyFirst) mode unset (front ++ back)) := by
  have sound := sound_add_all mode unset distinct apart
  have frontDistinct := distinct.sublist ((sublist_append_left front back).map Prod.fst)
  have frontApart := apart.sublist (map_subset _ (subset_append_left front back))
  have frontBound : BoundOnEntry references literals base hash keyFirst mode unset front :=
    fun first request rest isFront =>
      bound first request (rest ++ back) (by rw [isFront, append_assoc, cons_append])
  refine ⟨sound.accounts, fun atom slot isIn => ?_, fun left right slot leftIn rightIn => ?_⟩
  · obtain ⟨subject, settles⟩ :=
      (standing_add_all noStarts frontDistinct frontApart frontBound).subject slot
    exact ⟨subject, settles atom isIn _ (sound_add_all mode unset frontDistinct frontApart) (Subset.refl _),
      settles atom isIn _ sound (added_grows front back)⟩
  · obtain ⟨subject, settles⟩ := (standing_add_all noStarts distinct apart bound).subject slot
    rw [settles left leftIn _ sound (Subset.refl _), settles right rightIn _ sound (Subset.refl _)]

theorem bound_on_entry {hash : Ref → Nat} {keyFirst : Bool} {mode : CommonsMode}
    {unset : Ref → Ref → Bool} {requests : List (Ref × Treatment)}
    (bounded : ∀ n request, requests[n]? = some request → Bounded references literals base
      (addAll (references.symbols literals base hash keyFirst) mode unset (requests.take n))
      request.1) :
    BoundOnEntry references literals base hash keyFirst mode unset requests := by
  rintro front request back rfl
  simpa using bounded front.length request (by simp)

end References

def units : List UInt8 → List Nat
  | low :: high :: rest => (low.toNat + 256 * high.toNat) :: units rest
  | _ => []

/-- `UTF16StringSection::contentHash` -/
def utf16Hash (content : List UInt8) : Nat :=
  ((units content).take (content.length / 2 - 1)).foldl
    (fun hash unit => (hash * 33 + unit) % 2 ^ 64) 5381

/-- Two strings with the same hash, one of which starts the other. -/
def collision : Literals Bool where
  sectionType _ := .utf16Strings
  content long :=
    if long then
      [0x61, 0, 0x8F, 9, 11, 0, 10, 0, 28, 0, 32, 0, 18, 0, 3, 0, 4, 0, 9, 0, 28, 0, 2, 0, 0, 0]
    else [0x61, 0, 0, 0]
  behind _ := []
  formed long table isTable := by
    cases isTable
    cases long
    · exact ⟨by decide, by decide⟩
    · exact ⟨by decide, by decide⟩

def unreferring (Ref : Type) : References Ref where
  sectionName _ := ""
  binding _ := .byNameUnbound ""

def collidingTable : Symbols Bool :=
  (unreferring Bool).symbols collision
    { Literals.allByContent with
      atom := fun long => { Literals.allByContent.atom long with
        alignment := ⟨if long then 1 else 0, 0⟩ } }
    (fun long => utf16Hash (collision.content long)) true

/-- The slot of the string "a" goes over to a longer string that is more aligned. -/
theorem slot_changes_string :
    let run := addAll collidingTable .ignoreDylibs (fun _ _ => false)
    (run [(false, .error)]).state.indirectBindingTable = [some false] ∧
      (run [(false, .error), (true, .error)]).state.indirectBindingTable = [some true] ∧
      ¬ (unreferring Bool).SlotsStand collision collidingTable (run [(false, .error)])
        (run [(false, .error), (true, .error)]) := by
  refine ⟨by decide +kernel, by decide +kernel, fun stand => ?_⟩
  have same := stand.shared false true 0 (by decide +kernel) (by decide +kernel)
  revert same
  decide +kernel

/-- Two copies of a symbol, three C strings, two pointers to them and two UTF-16 strings. -/
def mixedLiterals : Literals (Fin 8) where
  sectionType
    | 2 | 3 => .cstring
    | 4 | 5 => .cstringPointer
    | 6 | 7 => .utf16Strings
    | _ => .other
  content
    | 6 => [0x61, 0, 0, 0]
    | 7 => [0x61, 0, 0x62, 0, 0, 0]
    | _ => [0x61, 0]
  behind _ := []
  formed atom table isTable := by
    fin_cases atom <;> cases isTable
    · exact ⟨[0x61], by decide, rfl⟩
    · exact ⟨[0x61], by decide, rfl⟩
    · exact ⟨by decide, by decide⟩
    · exact ⟨by decide, by decide⟩

def mixedReferences : References (Fin 8) where
  sectionName _ := "__objc_selrefs"
  binding
    | 4 => .indirectlyBound 1
    | _ => .byContentBound 3

def mixedBase : Symbols (Fin 8) where
  atom
    | 0 | 1 => ⟨.regular, .byName, .global, true, false, false, 4, ⟨0, 0⟩, 0⟩
    | 4 | 5 => ⟨.regular, .byNameAndReferences, .global, false, false, false, 4, ⟨0, 0⟩, 0⟩
    | atom => ⟨.regular, .byNameAndContent, .global, false, false, false, 4, ⟨atom, 0⟩, 0⟩
  name _ := "_weak"
  sectionType _ := .other
  subordinates _ := []
  depth _ := 0
  nested := by simp
  same _ _ _ _ := true

def mixedTable : Symbols (Fin 8) :=
  mixedReferences.symbols mixedLiterals mixedBase
    (fun atom => utf16Hash (mixedLiterals.content atom)) true

def mixedFront : List (Fin 8 × Treatment) := [(0, .error), (1, .error), (2, .error)]

def mixedBack : List (Fin 8 × Treatment) :=
  [(3, .error), (4, .error), (5, .error), (6, .error), (7, .error)]

/-- The second C string takes the slot from the first one, and both pointers share a slot. -/
theorem mixed_accounts_stand :
    let run := addAll mixedTable .ignoreDylibs (fun _ _ => false)
    (run mixedFront).state.indirectBindingTable = [some 0, some 2] ∧
      (run (mixedFront ++ mixedBack)).state.indirectBindingTable =
        [some 0, some 3, some 4, some 6, some 7] ∧
      Accounts mixedTable (run (mixedFront ++ mixedBack)) ∧
      mixedReferences.SlotsStand mixedLiterals mixedBase (run mixedFront)
        (run (mixedFront ++ mixedBack)) := by
  refine ⟨by decide +kernel, by decide +kernel, ?_⟩
  refine mixedReferences.accounts_stand mixedLiterals mixedBase
    (fun atom => utf16Hash (mixedLiterals.content atom)) true .ignoreDylibs (fun _ _ => false)
    mixedFront mixedBack ?_ (by decide) ?_ ?_
  · unfold Literals.NoStartsWithin
    decide +kernel
  · intro atom _ other _ differs inGroup
    rcases Relation.ReflTransGen.cases_head inGroup with same | ⟨_, isIn, _⟩
    · exact differs same
    · cases isIn
  · refine References.bound_on_entry _ _ _ fun n request isRequest byReferences table isTable => ?_
    have inside : n < 8 := (List.getElem?_eq_some_iff.mp isRequest).1
    have second : References.IsString mixedLiterals .pointerToCString 2 :=
      ⟨fun _ => .inl rfl, by decide⟩
    have third : References.IsString mixedLiterals .pointerToCString 3 :=
      ⟨fun _ => .inl rfl, by decide⟩
    interval_cases n <;> cases isRequest <;> cases byReferences <;> cases isTable
    · exact ⟨nofun, fun _ => ⟨2, second, .inr (.inr ⟨1, rfl, by decide +kernel, rfl⟩)⟩⟩
    · exact ⟨nofun, fun _ => ⟨3, third, .inl rfl⟩⟩

end DeveloperTools.Ld64.LiteralCoalescing
