import DeveloperTools.Lib.FailingFold
import DeveloperTools.Ld64.SymbolResolution
import Mathlib.Data.List.Induction
import Mathlib.Logic.Relation
import Mathlib.Logic.Function.Basic

/-!
`SymbolTable::add`. Atoms are entered by name, by content or by references; the three ways share
one table of slots. A slot belongs to a name or to the atom for which it was made, and holds the
atom that is used for all that share it. The others are marked as coalesced away, with their
groups.
-/

namespace DeveloperTools.Ld64.SymbolTable

open FailingFold SymbolResolution
open List

inductive SectionType
  | cstring | nonStdCString (segmentName sectionName : String) | utf16Strings
  | literal4 | literal8 | literal16
  | nonLazyPointer | cfString | objCClassRefs | cstringPointer | tlvPointers | other
  deriving DecidableEq

inductive Table
  | cstring | nonStdCString (segsect : String) | utf16
  | literal4 | literal8 | literal16
  | nonLazyPointer | cfString | objc2ClassRef | pointerToCString | threadPointer
  deriving DecidableEq

/-- The map of `findSlotForContent`; `none` is the failed assertion. -/
def contentTable : SectionType → Option Table
  | .cstring => some .cstring
  | .nonStdCString segmentName sectionName =>
    -- avoids coalescing across segments and sections
    some (.nonStdCString (segmentName ++ "/" ++ sectionName))
  | .utf16Strings => some .utf16
  | .literal4 => some .literal4
  | .literal8 => some .literal8
  | .literal16 => some .literal16
  | _ => none

def referencesTable : SectionType → Option Table
  | .nonLazyPointer => some .nonLazyPointer
  | .cfString => some .cfString
  | .objCClassRefs => some .objc2ClassRef
  | .cstringPointer => some .pointerToCString
  | .tlvPointers => some .threadPointer
  | _ => none

/-- The atoms, which the table only reads. The groups nest to a finite depth: with a cycle
`markCoalescedAway` would not return. -/
structure Symbols (Ref : Type) where
  atom : Ref → Atom
  name : Ref → String
  sectionType : Ref → SectionType
  -- the targets of the fixups of group kinds
  subordinates : Ref → List Ref
  depth : Ref → Nat
  nested : ∀ atom, ∀ member ∈ subordinates atom, depth member < depth atom
  -- whether a map takes two atoms for the same; references are compared through the slots
  same : Table → List (Option Ref) → Ref → Ref → Bool

structure State (Ref : Type) where
  indirectBindingTable : List (Option Ref)
  byNameTable : List (String × Nat)
  coalescing : List (Table × Ref × Nat)
  coalescedAway : Ref → Bool
  hasTentativeDefinitions : Bool
  duplicateSymbolErrors : List (String × Ref)
  duplicateSymbolWarnings : List (String × Ref)

def State.empty {Ref : Type} : State Ref := ⟨[], [], [], fun _ => false, false, [], []⟩

inductive Stop
  | assertion | exception
  deriving DecidableEq

variable {Ref : Type}

section Adding

variable [DecidableEq Ref] (symbols : Symbols Ref)

/-- The flags after an atom and its group are marked. -/
def markCoalescedAway (atom : Ref) (flags : Ref → Bool) : Ref → Bool :=
  (symbols.subordinates atom).attach.foldl (fun flags member => markCoalescedAway member.1 flags)
    (Function.update flags atom true)
termination_by symbols.depth atom
decreasing_by exact symbols.nested atom member.1 member.2

def findSlotForName (name : String) (state : State Ref) : Nat × State Ref :=
  match state.byNameTable.lookup name with
  | some slot => (slot, state)
  | none =>
    (state.indirectBindingTable.length,
      { state with
        indirectBindingTable := state.indirectBindingTable ++ [none]
        byNameTable := state.byNameTable ++ [(name, state.indirectBindingTable.length)] })

/-- `findSlotForContent` and `findSlotForReferences`: the slot, and the atom that is in it when
the map has it already. -/
def findSlot (tableOf : SectionType → Option Table) (atom : Ref) (state : State Ref) :
    Except Stop (Nat × Option Ref × State Ref) :=
  match tableOf (symbols.sectionType atom) with
  | none => .error .assertion
  | some table =>
    match state.coalescing.find? fun entry =>
      entry.1 = table && symbols.same table state.indirectBindingTable entry.2.1 atom with
    | some entry => .ok (entry.2.2, (state.indirectBindingTable[entry.2.2]?).join, state)
    | none =>
      .ok (state.indirectBindingTable.length, none,
        { state with
          indirectBindingTable := state.indirectBindingTable ++ [some atom]
          coalescing := state.coalescing ++ [(table, atom, state.indirectBindingTable.length)] })

def bind (slot : Nat) (atom : Ref) (state : State Ref) : State Ref :=
  { state with indirectBindingTable := state.indirectBindingTable.set slot (some atom) }

def coalesce (atom : Ref) (state : State Ref) : State Ref :=
  { state with coalescedAway := markCoalescedAway symbols atom state.coalescedAway }

def noteTentative (atom : Ref) (state : State Ref) : State Ref :=
  { state with hasTentativeDefinitions :=
      state.hasTentativeDefinitions || (symbols.atom atom).definition = .tentative }

def noteDuplicates (duplicates : Treatment) (report : Bool) (new existing : Ref)
    (state : State Ref) : State Ref :=
  let pair := [(symbols.name new, existing), (symbols.name new, new)]
  if report && duplicates = .error then
    { state with duplicateSymbolErrors := state.duplicateSymbolErrors ++ pair }
  else if report && duplicates = .warning then
    { state with duplicateSymbolWarnings := state.duplicateSymbolWarnings ++ pair }
  else state

variable (mode : CommonsMode) (unset : Ref → Ref → Bool)

/-- `choseAtom(newAtom)`. When no atom was picked, a pointer is read that was never set;
`unset` says whether it happens to point to the new atom. -/
def choseNew (new existing : Ref) : Choice → Bool
  | .a => true
  | .b => false
  | .unset => unset new existing

def addByName (duplicates : Treatment) (new : Ref) (state : State Ref) :
    Except Stop (Nat × State Ref) :=
  let (slot, state) := findSlotForName (symbols.name new) state
  match (state.indirectBindingTable[slot]?).join with
  | none => .ok (slot, noteTentative symbols new (bind slot new state))
  | some existing =>
    if new = existing then .error .assertion
    else match pickAtom duplicates mode (symbols.atom new) (symbols.atom existing) with
    | none => .error .exception
    | some (chosen, report) =>
      let state := noteDuplicates symbols duplicates report new existing state
      if choseNew unset new existing chosen then
        .ok (slot, noteTentative symbols new (coalesce symbols existing (bind slot new state)))
      else .ok (slot, coalesce symbols new state)

def greaterAlignment (new existing : Ref) : Bool :=
  (symbols.atom new).alignment.trailingZeros > (symbols.atom existing).alignment.trailingZeros

def addByContent (new : Ref) (state : State Ref) : Except Stop (Nat × State Ref) := do
  let (slot, existing, state) ← findSlot symbols contentTable new state
  match existing with
  | none => .ok (slot, bind slot new state)
  | some existing =>
    if greaterAlignment symbols new existing then
      .ok (slot, coalesce symbols existing (bind slot new state))
    else
      let state := bind slot existing state
      .ok (slot, if existing ≠ new then coalesce symbols new state else state)

def addByReferences (new : Ref) (state : State Ref) : Except Stop (Nat × State Ref) := do
  let (slot, existing, state) ← findSlot symbols referencesTable new state
  match existing with
  | none => .ok (slot, bind slot new state)
  | some existing =>
    if greaterAlignment symbols new existing then
      .ok (slot, coalesce symbols existing (bind slot new state))
    else .ok (slot, if existing ≠ new then coalesce symbols new state else state)

def add (duplicates : Treatment) (new : Ref) (state : State Ref) : Except Stop (Nat × State Ref) :=
  if (symbols.atom new).scope = .translationUnit then .error .assertion
  else match (symbols.atom new).combine with
  | .never | .byName => addByName symbols mode unset duplicates new state
  | .byNameAndContent => addByContent symbols new state
  | .byNameAndReferences => addByReferences symbols new state

structure Run (Ref : Type) where
  state : State Ref
  added : List (Ref × Nat)

/-- A call that does not return leaves the table as it was. -/
def call (run : Run Ref) (request : Ref × Treatment) : Run Ref :=
  match add symbols mode unset request.2 request.1 run.state with
  | .error _ => run
  | .ok (slot, state) => ⟨state, run.added ++ [(request.1, slot)]⟩

def addAll (requests : List (Ref × Treatment)) : Run Ref :=
  requests.foldl (call symbols mode unset) ⟨State.empty, []⟩

end Adding

inductive Key (Ref : Type)
  | name (name : String)
  | shared (table : Table) (first : Ref)

def State.HasKey (state : State Ref) (slot : Nat) : Key Ref → Prop
  | .name name => (name, slot) ∈ state.byNameTable
  | .shared table first => (table, first, slot) ∈ state.coalescing

def Meets (symbols : Symbols Ref) (new : Ref) : Key Ref → Prop
  | .name name =>
    ((symbols.atom new).combine = .never ∨ (symbols.atom new).combine = .byName) ∧
      symbols.name new = name
  | .shared table first =>
    ((symbols.atom new).combine = .byNameAndContent ∧
        contentTable (symbols.sectionType new) = some table ∨
      (symbols.atom new).combine = .byNameAndReferences ∧
        referencesTable (symbols.sectionType new) = some table) ∧
    (first = new ∨ ∃ slots, symbols.same table slots first new = true)

/-- An atom or one of its group, over any number of steps. -/
def InGroup (symbols : Symbols Ref) : Ref → Ref → Prop :=
  Relation.ReflTransGen fun atom member => member ∈ symbols.subordinates atom

variable {flags : Ref → Bool}

section OneCall

variable {symbols : Symbols Ref} {mode : CommonsMode} {unset : Ref → Ref → Bool}
  {duplicates : Treatment} {new : Ref} {slot : Nat} {before after found : State Ref}

inductive Found (symbols : Symbols Ref) (new : Ref) (slot : Nat) (before found : State Ref) :
    Prop
  | known (key : Key Ref) : before.HasKey slot key → Meets symbols new key → found = before →
      Found symbols new slot before found
  | made (key : Key Ref) (entry : Option Ref) : Meets symbols new key →
      entry = none ∨ entry = some new →
      slot = before.indirectBindingTable.length →
      found.indirectBindingTable = before.indirectBindingTable ++ [entry] →
      found.coalescedAway = before.coalescedAway →
      (∀ i other, found.HasKey i other ↔ before.HasKey i other ∨ i = slot ∧ other = key) →
      Found symbols new slot before found

theorem find_name (byName : (symbols.atom new).combine = .never ∨
      (symbols.atom new).combine = .byName) :
    Found symbols new (findSlotForName (symbols.name new) before).1 before
      (findSlotForName (symbols.name new) before).2 := by
  unfold findSlotForName
  split
  next slot isSlot =>
    obtain ⟨front, back, isTable, _⟩ := lookup_eq_some_iff.mp isSlot
    refine .known (.name (symbols.name new)) ?_ ⟨byName, rfl⟩ rfl
    rw [State.HasKey, isTable]
    simp
  · refine .made (.name (symbols.name new)) none ⟨byName, rfl⟩ (.inl rfl) rfl rfl rfl ?_
    intro i other
    cases other with
    | name name => simp [State.HasKey, and_comm]
    | shared table first => simp [State.HasKey]

variable {tableOf : SectionType → Option Table} {existing : Option Ref}

theorem find_slot_ok (run : findSlot symbols tableOf new before = .ok (slot, existing, found)) :
    ∃ table, tableOf (symbols.sectionType new) = some table ∧
      ((∃ first, (table, first, slot) ∈ before.coalescing ∧
          symbols.same table before.indirectBindingTable first new = true ∧
          existing = (before.indirectBindingTable[slot]?).join ∧ found = before) ∨
        (slot = before.indirectBindingTable.length ∧ existing = none ∧
          found = { before with
            indirectBindingTable := before.indirectBindingTable ++ [some new]
            coalescing := before.coalescing ++ [(table, new, slot)] } ∧
          ∀ entry ∈ before.coalescing, entry.1 = table →
            symbols.same table before.indirectBindingTable entry.2.1 new = false)) := by
  unfold findSlot at run
  split at run
  · cases run
  rename_i table isTable
  refine ⟨table, isTable, ?_⟩
  split at run
  next entry isEntry =>
    cases run
    left
    have holds := find?_some isEntry
    have isIn := mem_of_find?_eq_some isEntry
    simp only [Bool.and_eq_true, decide_eq_true_eq] at holds
    obtain ⟨entryTable, first, slot⟩ := entry
    exact ⟨first, holds.1 ▸ isIn, holds.2, rfl, rfl⟩
  next isNew =>
    cases run
    refine .inr ⟨rfl, rfl, rfl, fun entry isIn isTable => ?_⟩
    simpa [isTable] using List.find?_eq_none.mp isNew entry isIn

theorem find_slot_only {table : Table} {key : Ref}
    (isTable : tableOf (symbols.sectionType new) = some table)
    (isIn : (table, key, slot) ∈ found.coalescing)
    (same : symbols.same table found.indirectBindingTable key new = true)
    (only : ∀ other place, (table, other, place) ∈ found.coalescing →
      symbols.same table found.indirectBindingTable other new = true → place = slot) :
    findSlot symbols tableOf new found =
      .ok (slot, (found.indirectBindingTable[slot]?).join, found) := by
  rw [findSlot, isTable]
  dsimp only
  split
  next entry isEntry =>
    have holds := find?_some isEntry
    simp only [Bool.and_eq_true, decide_eq_true_eq] at holds
    obtain ⟨_, other, place⟩ := entry
    obtain ⟨rfl, equal⟩ := holds
    rw [only other place (mem_of_find?_eq_some isEntry) equal]
  next none =>
    have absent := List.find?_eq_none.mp none _ isIn
    simp [same] at absent

def Enters (symbols : Symbols Ref) (new : Ref) (tableOf : SectionType → Option Table) : Prop :=
  ∀ table, tableOf (symbols.sectionType new) = some table → ∀ first,
    (first = new ∨ ∃ slots, symbols.same table slots first new = true) →
      Meets symbols new (.shared table first)

theorem find_shared (entered : Enters symbols new tableOf)
    (run : findSlot symbols tableOf new before = .ok (slot, existing, found)) :
    Found symbols new slot before found := by
  obtain ⟨table, isTable, either⟩ := find_slot_ok run
  rcases either with ⟨first, isIn, same, _, isFound⟩ | ⟨isSlot, _, isFound, _⟩
  · exact .known (.shared table first) isIn (entered _ isTable _ (.inr ⟨_, same⟩)) isFound
  subst isFound
  refine .made (.shared table new) (some new) (entered _ isTable _ (.inl rfl)) (.inr rfl) isSlot
    rfl rfl ?_
  intro i other
  cases other with
  | name name => simp [State.HasKey]
  | shared table' first =>
    simp only [State.HasKey, mem_append, mem_singleton, Prod.mk.injEq, Key.shared.injEq]
    tauto

theorem Found.held (isFound : Found symbols new slot before found) {existing : Ref}
    (held : (found.indirectBindingTable[slot]?).join = some existing) (differs : new ≠ existing) :
    before.indirectBindingTable[slot]? = some (some existing) := by
  cases isFound with
  | known key hasKey meets same =>
    rw [same] at held
    exact Option.join_eq_some_iff.mp held
  | made key entry meets isEntry isSlot grown =>
    rw [grown, isSlot, getElem?_concat_length, Option.join_some] at held
    rcases isEntry with rfl | rfl
    · cases held
    · exact absurd (Option.some.inj held) differs

theorem Found.empty (isFound : Found symbols new slot before found)
    (empty : (found.indirectBindingTable[slot]?).join = none) :
    (before.indirectBindingTable[slot]?).join = none := by
  cases isFound with
  | known key hasKey meets same => rw [← same]; exact empty
  | made key entry meets isEntry isSlot => rw [isSlot, getElem?_length, Option.join_none]

theorem Found.rest (isFound : Found symbols new slot before found)
    (inside : ∀ i key, before.HasKey i key → i < before.indirectBindingTable.length) :
    slot < found.indirectBindingTable.length ∧ found.coalescedAway = before.coalescedAway ∧
      ∀ i ≠ slot, found.indirectBindingTable[i]? = before.indirectBindingTable[i]? := by
  cases isFound with
  | known key hasKey meets same =>
    subst same
    exact ⟨inside slot key hasKey, rfl, fun _ _ => rfl⟩
  | made key entry meets isEntry isSlot grown flags isKeys =>
    refine ⟨?_, flags, fun i differs => ?_⟩
    · rw [grown, isSlot, length_append, length_singleton]
      exact Nat.lt_succ_self _
    rw [grown]
    rcases Nat.lt_or_gt_of_ne (isSlot ▸ differs) with less | greater
    · exact getElem?_append_left less
    · rw [getElem?_eq_none (Nat.le_of_lt greater), getElem?_eq_none]
      rw [length_append, length_singleton]
      exact greater

variable {state : State Ref}

theorem noteDuplicates_eq {report : Bool} {existing : Ref} :
    ∃ errors warnings, noteDuplicates symbols duplicates report new existing state =
      { state with duplicateSymbolErrors := errors, duplicateSymbolWarnings := warnings } := by
  unfold noteDuplicates
  split
  · exact ⟨_, _, rfl⟩
  · split
    · exact ⟨_, _, rfl⟩
    · exact ⟨_, _, rfl⟩

theorem find_slot_held {other : Ref}
    (run : findSlot symbols tableOf new before = .ok (slot, some other, found)) :
    before.indirectBindingTable[slot]? = some (some other) ∧ found = before := by
  obtain ⟨_, _, either⟩ := find_slot_ok run
  rcases either with ⟨_, _, _, isExisting, isFound⟩ | ⟨_, isNone, _⟩
  · exact ⟨Option.join_eq_some_iff.mp isExisting.symm, isFound⟩
  · cases isNone

theorem has_key_congr (names : after.byNameTable = found.byNameTable)
    (maps : after.coalescing = found.coalescing) (i : Nat) (key : Key Ref) :
    after.HasKey i key ↔ found.HasKey i key := by
  cases key with
  | name name => rw [State.HasKey, State.HasKey, names]
  | shared table first => rw [State.HasKey, State.HasKey, maps]

def Entered (symbols : Symbols Ref) (new : Ref) (slot : Nat) (before after : State Ref) : Prop :=
  ∃ found, Found symbols new slot before found ∧
    after.indirectBindingTable.length = found.indirectBindingTable.length ∧
    ∀ i key, after.HasKey i key ↔ found.HasKey i key

theorem Entered.keys (entered : Entered symbols new slot before after) :
    ∃ key, Meets symbols new key ∧ after.HasKey slot key ∧
      (∀ i other, before.HasKey i other → after.HasKey i other) ∧
      (∀ i other, after.HasKey i other → before.HasKey i other ∨ other = key ∧
        i = before.indirectBindingTable.length ∧ i < after.indirectBindingTable.length) ∧
      before.indirectBindingTable.length ≤ after.indirectBindingTable.length ∧
      ∀ i < after.indirectBindingTable.length, i < before.indirectBindingTable.length ∨ i = slot := by
  obtain ⟨found, isFound, length, sameKeys⟩ := entered
  cases isFound with
  | known key hasKey meets same =>
    subst same
    exact ⟨key, meets, (sameKeys slot key).mpr hasKey, fun i other => (sameKeys i other).mpr,
      fun i other hasKey => .inl ((sameKeys i other).mp hasKey), Nat.le_of_eq length.symm,
      fun i less => .inl (length ▸ less)⟩
  | made key entry meets isEntry isSlot grown _ isKeys =>
    rw [grown, length_append, length_singleton] at length
    refine ⟨key, meets, ?_, fun i other hasKey => ?_, fun i other hasKey => ?_, by omega, by omega⟩
    · exact (sameKeys slot key).mpr ((isKeys slot key).mpr (.inr ⟨rfl, rfl⟩))
    · exact (sameKeys i other).mpr ((isKeys i other).mpr (.inl hasKey))
    · rcases (isKeys i other).mp ((sameKeys i other).mp hasKey) with has | ⟨rfl, isKey⟩
      · exact .inl has
      · exact .inr ⟨isKey, by omega⟩

variable [DecidableEq Ref]

theorem mark_iff {symbols : Symbols Ref} {atom : Ref} {other : Ref} :
    markCoalescedAway symbols atom flags other = true ↔
      flags other = true ∨ InGroup symbols atom other := by
  induction size : symbols.depth atom using Nat.strongRecOn generalizing atom flags with
  | _ depth ih =>
    -- the loop over the members of the group
    have loop : ∀ (members : List { member // member ∈ symbols.subordinates atom })
        (flags : Ref → Bool),
        members.foldl (fun flags member => markCoalescedAway symbols member.1 flags) flags
            other = true ↔
          flags other = true ∨ ∃ member ∈ members, InGroup symbols member.1 other := by
      intro members
      induction members with
      | nil => simp
      | cons member rest inner =>
        intro flags
        have smaller : symbols.depth member.1 < depth := by
          rw [← size]
          exact symbols.nested atom member.1 member.2
        rw [foldl_cons, inner, ih _ smaller rfl]
        simp only [mem_cons, exists_eq_or_imp, or_assoc]
    rw [markCoalescedAway, loop, InGroup, Relation.ReflTransGen.cases_head_iff,
      Function.update_apply]
    simp only [mem_attach, true_and, Subtype.exists, exists_prop]
    by_cases same : other = atom
    · simp [same]
    · rw [if_neg same]
      simp only [Ne.symm same, false_or]

/-- The new atom is bound in an empty slot, or it is set against the one in its slot. -/
inductive Outcome (symbols : Symbols Ref) (new : Ref) (slot : Nat) (before found : State Ref) :
    State Ref → Prop
  | first {after : State Ref} : (before.indirectBindingTable[slot]?).join = none →
      after.indirectBindingTable = found.indirectBindingTable.set slot (some new) →
      after.coalescedAway = found.coalescedAway → Outcome symbols new slot before found after
  | replaces {after : State Ref} {existing : Ref} :
      before.indirectBindingTable[slot]? = some (some existing) →
      after.indirectBindingTable = found.indirectBindingTable.set slot (some new) →
      after.coalescedAway = markCoalescedAway symbols existing found.coalescedAway →
      Outcome symbols new slot before found after
  | yields {after : State Ref} {existing : Ref} :
      before.indirectBindingTable[slot]? = some (some existing) →
      after.indirectBindingTable = found.indirectBindingTable →
      after.coalescedAway = markCoalescedAway symbols new found.coalescedAway →
      Outcome symbols new slot before found after

def Added (symbols : Symbols Ref) (new : Ref) (slot : Nat) (before after : State Ref) : Prop :=
  ∃ found, Found symbols new slot before found ∧
    Outcome symbols new slot before found after ∧
    ∀ i key, after.HasKey i key ↔ found.HasKey i key

theorem addByName_outcome (byName : (symbols.atom new).combine = .never ∨
      (symbols.atom new).combine = .byName)
    (returns : addByName symbols mode unset duplicates new before = .ok (slot, after)) :
    ∃ found, findSlotForName (symbols.name new) before = (slot, found) ∧
      Found symbols new slot before found ∧ Outcome symbols new slot before found after ∧
      after.byNameTable = found.byNameTable ∧ after.coalescing = found.coalescing := by
  have isFound : Found symbols new _ before _ := find_name byName
  unfold addByName at returns
  generalize findSlotForName (symbols.name new) before = place at isFound returns ⊢
  obtain ⟨place, found⟩ := place
  dsimp only at isFound returns
  split at returns
  next empty =>
    cases returns
    exact ⟨found, rfl, isFound, .first (isFound.empty empty) rfl rfl, rfl, rfl⟩
  rename_i existing held
  split at returns
  · cases returns
  rename_i differs
  split at returns
  · cases returns
  rename_i chosen report _
  obtain ⟨errors, warnings, rest⟩ := noteDuplicates_eq
  rw [rest] at returns
  split at returns
  · cases returns
    exact ⟨found, rfl, isFound, .replaces (isFound.held held differs) rfl rfl, rfl, rfl⟩
  · cases returns
    exact ⟨found, rfl, isFound, .yields (isFound.held held differs) rfl rfl, rfl, rfl⟩

def Decided (symbols : Symbols Ref) (new : Ref) (slot : Nat) (existing : Option Ref)
    (found after : State Ref) : Prop :=
  existing = none ∧ after = bind slot new found ∨ ∃ other, existing = some other ∧
    (after = coalesce symbols other (bind slot new found) ∨
      after = if other ≠ new then coalesce symbols new found else found)

theorem Decided.keeps (decided : Decided symbols new slot existing found after) :
    after.indirectBindingTable.length = found.indirectBindingTable.length ∧
      after.byNameTable = found.byNameTable ∧ after.coalescing = found.coalescing := by
  rcases decided with ⟨_, rfl⟩ | ⟨other, _, rfl | rfl⟩
  · exact ⟨length_set, rfl, rfl⟩
  · exact ⟨length_set, rfl, rfl⟩
  · split
    · exact ⟨rfl, rfl, rfl⟩
    · exact ⟨rfl, rfl, rfl⟩

theorem addByContent_decided (returns : addByContent symbols new before = .ok (slot, after)) :
    ∃ existing found, findSlot symbols contentTable new before = .ok (slot, existing, found) ∧
      Decided symbols new slot existing found after := by
  obtain ⟨⟨place, existing, found⟩, run, returns⟩ := bind_ok returns
  cases existing with
  | none =>
    cases returns
    exact ⟨_, _, run, .inl ⟨rfl, rfl⟩⟩
  | some other =>
    obtain ⟨held, isFound⟩ := find_slot_held run
    change (if _ then _ else _) = _ at returns
    have again : bind place other found = found := by
      obtain ⟨inside, isEntry⟩ := List.getElem?_eq_some_iff.mp (isFound ▸ held)
      rw [bind, ← isEntry, set_getElem_self]
    rw [again] at returns
    split at returns
    · cases returns
      exact ⟨_, _, run, .inr ⟨other, rfl, .inl rfl⟩⟩
    · cases returns
      exact ⟨_, _, run, .inr ⟨other, rfl, .inr rfl⟩⟩

theorem addByReferences_decided
    (returns : addByReferences symbols new before = .ok (slot, after)) :
    ∃ existing found, findSlot symbols referencesTable new before = .ok (slot, existing, found) ∧
      Decided symbols new slot existing found after := by
  obtain ⟨⟨place, existing, found⟩, run, returns⟩ := bind_ok returns
  cases existing with
  | none =>
    cases returns
    exact ⟨_, _, run, .inl ⟨rfl, rfl⟩⟩
  | some other =>
    change (if _ then _ else _) = _ at returns
    split at returns
    · cases returns
      exact ⟨_, _, run, .inr ⟨other, rfl, .inl rfl⟩⟩
    · cases returns
      exact ⟨_, _, run, .inr ⟨other, rfl, .inr rfl⟩⟩

theorem add_cases (returns : add symbols mode unset duplicates new before = .ok (slot, after)) :
    (∃ found, findSlotForName (symbols.name new) before = (slot, found) ∧
      Found symbols new slot before found ∧ Outcome symbols new slot before found after ∧
      after.byNameTable = found.byNameTable ∧ after.coalescing = found.coalescing) ∨
    ∃ tableOf existing found, Enters symbols new tableOf ∧
      findSlot symbols tableOf new before = .ok (slot, existing, found) ∧
      Decided symbols new slot existing found after := by
  unfold add at returns
  split at returns
  · cases returns
  split at returns
  · exact .inl (addByName_outcome (.inl ‹_›) returns)
  · exact .inl (addByName_outcome (.inr ‹_›) returns)
  · obtain ⟨existing, found, run, decided⟩ := addByContent_decided returns
    exact .inr ⟨_, existing, found, fun _ isTable _ same => ⟨.inl ⟨‹_›, isTable⟩, same⟩, run,
      decided⟩
  · obtain ⟨existing, found, run, decided⟩ := addByReferences_decided returns
    exact .inr ⟨_, existing, found, fun _ isTable _ same => ⟨.inr ⟨‹_›, isTable⟩, same⟩, run,
      decided⟩

theorem add_added (unused : ∀ i : Nat, before.indirectBindingTable[i]? ≠ some (some new))
    (returns : add symbols mode unset duplicates new before = .ok (slot, after)) :
    Added symbols new slot before after := by
  rcases add_cases returns with ⟨found, _, isFound, outcome, names, maps⟩ |
    ⟨tableOf, existing, found, entered, run, decided⟩
  · exact ⟨found, isFound, outcome, has_key_congr names maps⟩
  obtain ⟨_, names, maps⟩ := decided.keeps
  refine ⟨found, find_shared entered run, ?_, has_key_congr names maps⟩
  rcases decided with ⟨isNone, rfl⟩ | ⟨other, rfl, decided⟩
  · refine .first ?_ rfl rfl
    obtain ⟨_, _, either⟩ := find_slot_ok run
    rcases either with ⟨_, _, _, isExisting, _⟩ | ⟨isSlot, _, _⟩
    · rw [← isExisting, isNone]
    · rw [isSlot, getElem?_length, Option.join_none]
  · have held := (find_slot_held run).1
    have differs : other ≠ new := by
      rintro rfl
      exact unused slot held
    rw [if_pos differs] at decided
    rcases decided with rfl | rfl
    · exact .replaces held rfl rfl
    · exact .yields held rfl rfl

theorem Outcome.length (outcome : Outcome symbols new slot before found after) :
    after.indirectBindingTable.length = found.indirectBindingTable.length := by
  cases outcome with
  | first _ isTable => rw [isTable, length_set]
  | replaces _ isTable => rw [isTable, length_set]
  | yields _ isTable => rw [isTable]

theorem Added.entered (added : Added symbols new slot before after) :
    Entered symbols new slot before after := by
  obtain ⟨found, isFound, outcome, sameKeys⟩ := added
  exact ⟨found, isFound, outcome.length, sameKeys⟩

theorem add_entered (returns : add symbols mode unset duplicates new before = .ok (slot, after)) :
    Entered symbols new slot before after := by
  rcases add_cases returns with ⟨found, _, isFound, outcome, names, maps⟩ |
    ⟨tableOf, existing, found, entered, run, decided⟩
  · exact ⟨found, isFound, outcome.length, has_key_congr names maps⟩
  · obtain ⟨length, names, maps⟩ := decided.keeps
    exact ⟨found, find_shared entered run, length, has_key_congr names maps⟩

theorem add_coalescing
    (returns : add symbols mode unset duplicates new before = .ok (slot, after)) :
    after.coalescing = before.coalescing ∨
      ∃ table, after.coalescing = before.coalescing ++ [(table, new, slot)] ∧
        Meets symbols new (.shared table new) ∧ ∀ entry ∈ before.coalescing, entry.1 = table →
          symbols.same table before.indirectBindingTable entry.2.1 new = false := by
  rcases add_cases returns with ⟨found, run, _, _, _, maps⟩ |
    ⟨tableOf, existing, found, entered, run, decided⟩
  · left
    rw [maps]
    unfold findSlotForName at run
    split at run
    · cases run
      rfl
    · cases run
      rfl
  · rw [decided.keeps.2.2]
    obtain ⟨table, isTable, ⟨_, _, _, _, rfl⟩ | ⟨_, _, rfl, isNew⟩⟩ := find_slot_ok run
    · exact .inl rfl
    · exact .inr ⟨table, rfl, entered table isTable new (.inl rfl), isNew⟩

end OneCall

/-- No atom is in the group of another, at any depth. -/
def Apart (symbols : Symbols Ref) (atoms : List Ref) : Prop :=
  ∀ atom ∈ atoms, ∀ other ∈ atoms, atom ≠ other → ¬ InGroup symbols atom other

structure Keyed (symbols : Symbols Ref) (run : Run Ref) : Prop where
  inside : ∀ slot key, run.state.HasKey slot key → slot < run.state.indirectBindingTable.length
  keyed : ∀ slot < run.state.indirectBindingTable.length, ∃ key, run.state.HasKey slot key
  oneKey : ∀ slot key other, run.state.HasKey slot key → run.state.HasKey slot other → key = other
  meets : ∀ atom slot, (atom, slot) ∈ run.added →
    ∃ key, run.state.HasKey slot key ∧ Meets symbols atom key

structure Keeps (symbols : Symbols Ref) (run : Run Ref) : Prop extends Keyed symbols run where
  oneSlot : ∀ atom slot other, (atom, slot) ∈ run.added → (atom, other) ∈ run.added → slot = other
  bound : ∀ slot atom, run.state.indirectBindingTable[slot]? = some (some atom) →
    (atom, slot) ∈ run.added ∧ run.state.coalescedAway atom = false
  marked : ∀ atom, run.state.coalescedAway atom = true →
    ∃ entry ∈ run.added, InGroup symbols entry.1 atom
  settled : ∀ atom slot, (atom, slot) ∈ run.added →
    run.state.indirectBindingTable[slot]? = some (some atom) ∨ run.state.coalescedAway atom = true
  occupied : ∀ atom slot, (atom, slot) ∈ run.added →
    ∃ other, run.state.indirectBindingTable[slot]? = some (some other)

variable {run : Run Ref}

section Step

variable {symbols : Symbols Ref} {new : Ref} {slot : Nat} {before after found : State Ref}

theorem Keeps.unmarked (keeps : Keeps symbols run) (fresh : new ∉ run.added.map Prod.fst)
    (apart : Apart symbols (new :: run.added.map Prod.fst)) :
    run.state.coalescedAway new = false := by
  rw [← Bool.not_eq_true]
  intro isMarked
  obtain ⟨entry, isIn, inGroup⟩ := keeps.marked new isMarked
  have isAtom := mem_map_of_mem (f := Prod.fst) isIn
  refine apart entry.1 (.tail _ isAtom) new mem_cons_self ?_ inGroup
  rintro rfl
  exact fresh isAtom

theorem Keyed.add_step (keeps : Keyed symbols run)
    (entered : Entered symbols new slot run.state after) :
    Keyed symbols ⟨after, run.added ++ [(new, slot)]⟩ := by
  obtain ⟨key, meets, hasKey, grow, only, longer, cover⟩ := entered.keys
  refine ⟨fun i key' has => ?_, fun i less => ?_, fun i first second has has' => ?_,
    fun atom i isIn => ?_⟩
  · rcases only i key' has with has | isNew
    · exact Nat.lt_of_lt_of_le (keeps.inside i key' has) longer
    · exact isNew.2.2
  · rcases cover i less with less | rfl
    · obtain ⟨key', has⟩ := keeps.keyed i less
      exact ⟨key', grow i key' has⟩
    · exact ⟨key, hasKey⟩
  · rcases only i first has with has | ⟨rfl, isFirst, _⟩
    · rcases only i second has' with has' | ⟨_, isSecond, _⟩
      · exact keeps.oneKey i first second has has'
      · exact absurd (keeps.inside i first has) (by omega)
    · rcases only i second has' with has' | ⟨rfl, _⟩
      · exact absurd (keeps.inside i second has') (by omega)
      · rfl
  · rcases mem_append.mp isIn with isIn | isIn
    · obtain ⟨key', hasKey', meets'⟩ := keeps.meets atom i isIn
      exact ⟨key', grow i key' hasKey', meets'⟩
    · cases mem_singleton.mp isIn
      exact ⟨key, hasKey, meets⟩

variable [DecidableEq Ref]

theorem Added.atoms (added : Added symbols new slot before after)
    (inside : ∀ i key, before.HasKey i key → i < before.indirectBindingTable.length) :
    (after.indirectBindingTable[slot]? = some (some new) ∧
        (∀ i ≠ slot, after.indirectBindingTable[i]? = before.indirectBindingTable[i]?) ∧
        ((before.indirectBindingTable[slot]?).join = none ∧
            after.coalescedAway = before.coalescedAway ∨
          ∃ existing, before.indirectBindingTable[slot]? = some (some existing) ∧
            after.coalescedAway = markCoalescedAway symbols existing before.coalescedAway)) ∨
      (∃ existing, before.indirectBindingTable[slot]? = some (some existing)) ∧
        (∀ i : Nat, after.indirectBindingTable[i]? = before.indirectBindingTable[i]?) ∧
        after.coalescedAway = markCoalescedAway symbols new before.coalescedAway := by
  obtain ⟨found, isFound, outcome, _⟩ := added
  obtain ⟨isSlot, flags, others⟩ := isFound.rest inside
  have bound : (found.indirectBindingTable.set slot (some new))[slot]? = some (some new) :=
    getElem?_set_self isSlot
  have rest : ∀ i ≠ slot, (found.indirectBindingTable.set slot (some new))[i]? =
      before.indirectBindingTable[i]? := by
    intro i differs
    rw [getElem?_set_ne differs.symm, others i differs]
  cases outcome with
  | first empty isTable isFlags =>
    rw [isTable, isFlags, flags]
    exact .inl ⟨bound, rest, .inl ⟨empty, rfl⟩⟩
  | replaces held isTable isFlags =>
    rw [isTable, isFlags, flags]
    exact .inl ⟨bound, rest, .inr ⟨_, held, rfl⟩⟩
  | yields held isTable isFlags =>
    rw [isTable, isFlags, flags]
    refine .inr ⟨⟨_, held⟩, fun i => ?_, rfl⟩
    cases isFound with
    | known key hasKey meets same => rw [same]
    | made key entry meets isEntry isLast =>
      -- a slot that is made holds nothing to yield to
      rw [isLast, getElem?_length] at held
      cases held

theorem Added.occupied (added : Added symbols new slot before after)
    (inside : ∀ i key, before.HasKey i key → i < before.indirectBindingTable.length) :
    (∃ atom, after.indirectBindingTable[slot]? = some (some atom)) ∧
      ∀ (i : Nat) (atom : Ref), before.indirectBindingTable[i]? = some (some atom) →
        ∃ other, after.indirectBindingTable[i]? = some (some other) := by
  rcases added.atoms inside with ⟨bound, others, _⟩ | ⟨⟨existing, held⟩, same, _⟩
  · refine ⟨⟨new, bound⟩, fun i atom held => ?_⟩
    by_cases isSlot : i = slot
    · exact ⟨new, isSlot ▸ bound⟩
    · exact ⟨atom, (others i isSlot).trans held⟩
  · exact ⟨⟨existing, (same slot).trans held⟩, fun i atom held => ⟨atom, (same i).trans held⟩⟩

theorem unmarked_of_apart {loser atom : Ref} {atoms : List Ref} (apart : Apart symbols atoms)
    (isLoser : loser ∈ atoms) (isAtom : atom ∈ atoms) (differs : loser ≠ atom)
    (unmarked : flags atom = false) :
    markCoalescedAway symbols loser flags atom = false := by
  rw [← Bool.not_eq_true, mark_iff, unmarked]
  rintro (marked | inGroup)
  · cases marked
  · exact apart loser isLoser atom isAtom differs inGroup

section

variable {run : Run Ref} (keeps : Keeps symbols run)
    (added : Added symbols new slot run.state after) (fresh : new ∉ run.added.map Prod.fst)
    (apart : Apart symbols (new :: run.added.map Prod.fst))

include keeps added fresh apart

theorem Keeps.add_atoms :
    (∀ i atom, after.indirectBindingTable[i]? = some (some atom) →
        ((atom, i) ∈ run.added ∨ atom = new ∧ i = slot) ∧ after.coalescedAway atom = false) ∧
      (∀ atom, after.coalescedAway atom = true →
        (∃ entry ∈ run.added, InGroup symbols entry.1 atom) ∨ InGroup symbols new atom) ∧
      (∀ atom i, (atom, i) ∈ run.added → after.indirectBindingTable[i]? = some (some atom) ∨
        after.coalescedAway atom = true) ∧
      (after.indirectBindingTable[slot]? = some (some new) ∨ after.coalescedAway new = true) := by
  have isAtom : ∀ {atom i}, (atom, i) ∈ run.added → atom ∈ new :: run.added.map Prod.fst :=
    fun isIn => .tail _ (List.mem_map.mpr ⟨_, isIn, rfl⟩)
  have differs : ∀ {atom i}, (atom, i) ∈ run.added → atom ≠ new := by
    rintro atom i isIn rfl
    exact fresh (List.mem_map.mpr ⟨_, isIn, rfl⟩)
  have unmarked := keeps.unmarked fresh apart
  rcases added.atoms keeps.inside with
    ⟨bound, others, ⟨empty, flags⟩ | ⟨existing, existed, flags⟩⟩ | ⟨_, same, flags⟩
  · -- the slot was empty
    rw [flags]
    refine ⟨fun i atom held => ?_, fun atom marked => .inl (keeps.marked atom marked),
      fun atom i isIn => ?_, .inl bound⟩
    · by_cases isSlot : i = slot
      · rw [isSlot, bound] at held
        cases held
        exact ⟨.inr ⟨rfl, isSlot⟩, unmarked⟩
      · obtain ⟨isIn, flag⟩ := keeps.bound i atom (others i isSlot ▸ held)
        exact ⟨.inl isIn, flag⟩
    · rcases keeps.settled atom i isIn with held | marked
      · have isSlot : i ≠ slot := by
          rintro rfl
          rw [held] at empty
          cases empty
        exact .inl (others i isSlot ▸ held)
      · exact .inr marked
  · -- the atom in the slot loses
    obtain ⟨isExisting, _⟩ := keeps.bound slot existing existed
    rw [flags]
    refine ⟨fun i atom held => ?_, fun atom marked => ?_, fun atom i isIn => ?_, .inl bound⟩
    · by_cases isSlot : i = slot
      · rw [isSlot, bound] at held
        cases held
        exact ⟨.inr ⟨rfl, isSlot⟩, unmarked_of_apart apart (isAtom isExisting) mem_cons_self
          (differs isExisting) unmarked⟩
      obtain ⟨isIn, flag⟩ := keeps.bound i atom (others i isSlot ▸ held)
      refine ⟨.inl isIn, unmarked_of_apart apart (isAtom isExisting) (isAtom isIn) ?_ flag⟩
      rintro rfl
      exact isSlot (keeps.oneSlot _ i slot isIn isExisting)
    · rcases mark_iff.mp marked with marked | inGroup
      · exact .inl (keeps.marked atom marked)
      · exact .inl ⟨_, isExisting, inGroup⟩
    · rcases keeps.settled atom i isIn with held | marked
      · by_cases isSlot : i = slot
        · rw [isSlot, existed] at held
          cases held
          exact .inr (mark_iff.mpr (.inr .refl))
        · exact .inl (others i isSlot ▸ held)
      · exact .inr (mark_iff.mpr (.inl marked))
  · -- the new atom loses
    rw [flags]
    refine ⟨fun i atom held => ?_, fun atom marked => ?_, fun atom i isIn => ?_,
      .inr (mark_iff.mpr (.inr .refl))⟩
    · obtain ⟨isIn, flag⟩ := keeps.bound i atom (same i ▸ held)
      exact ⟨.inl isIn,
        unmarked_of_apart apart mem_cons_self (isAtom isIn) (differs isIn).symm flag⟩
    · rcases mark_iff.mp marked with marked | inGroup
      · exact .inl (keeps.marked atom marked)
      · exact .inr inGroup
    · rcases keeps.settled atom i isIn with held | marked
      · exact .inl (same i ▸ held)
      · exact .inr (mark_iff.mpr (.inl marked))

theorem Keeps.add_step : Keeps symbols ⟨after, run.added ++ [(new, slot)]⟩ := by
  have notIn : ∀ i, (new, i) ∉ run.added := fun i isIn => fresh (List.mem_map.mpr ⟨_, isIn, rfl⟩)
  obtain ⟨bound, marked, settled, newSettled⟩ := keeps.add_atoms added fresh apart
  have last : (new, slot) ∈ run.added ++ [(new, slot)] := by simp
  obtain ⟨held, stillHeld⟩ := added.occupied keeps.inside
  refine ⟨keeps.toKeyed.add_step added.entered, ?_, ?_, ?_, ?_, ?_⟩
  · intro atom i j isIn isIn'
    rcases mem_append.mp isIn with isIn | isIn
    · rcases mem_append.mp isIn' with isIn' | isIn'
      · exact keeps.oneSlot atom i j isIn isIn'
      · cases mem_singleton.mp isIn'
        exact absurd isIn (notIn i)
    cases mem_singleton.mp isIn
    rcases mem_append.mp isIn' with isIn' | isIn'
    · exact absurd isIn' (notIn j)
    · cases mem_singleton.mp isIn'
      rfl
  · intro i atom held
    obtain ⟨isIn | ⟨rfl, rfl⟩, flag⟩ := bound i atom held
    · exact ⟨mem_append_left _ isIn, flag⟩
    · exact ⟨last, flag⟩
  · intro atom isMarked
    rcases marked atom isMarked with ⟨entry, isIn, inGroup⟩ | inGroup
    · exact ⟨entry, mem_append_left _ isIn, inGroup⟩
    · exact ⟨_, last, inGroup⟩
  · intro atom i isIn
    rcases mem_append.mp isIn with isIn | isIn
    · exact settled atom i isIn
    · cases mem_singleton.mp isIn
      exact newSettled
  · intro atom i isIn
    rcases mem_append.mp isIn with isIn | isIn
    · obtain ⟨other, isHeld⟩ := keeps.occupied atom i isIn
      exact stillHeld i other isHeld
    · cases mem_singleton.mp isIn
      exact held

end

end Step

section Calls

variable {symbols : Symbols Ref} {mode : CommonsMode} {unset : Ref → Ref → Bool}

theorem keeps_empty : Keeps symbols ⟨State.empty, []⟩ := by
  refine ⟨⟨fun _ key hasKey => ?_, fun _ less => ?_, fun _ key _ hasKey => ?_, ?_⟩,
    ?_, ?_, ?_, ?_, ?_⟩
  · cases key <;> cases hasKey
  · cases less
  · cases key <;> cases hasKey
  · intro _ _ isIn; cases isIn
  · intro _ _ _ isIn; cases isIn
  · intro _ _ held; cases held
  · intro _ marked; cases marked
  · intro _ _ isIn; cases isIn
  · intro _ _ isIn; cases isIn

theorem Apart.sublist {atoms fewer : List Ref} (apart : Apart symbols atoms)
    (sub : fewer ⊆ atoms) : Apart symbols fewer :=
  fun atom isIn other isIn' => apart atom (sub isIn) other (sub isIn')

/-- The accounts of the table: an atom that was added is bound in its slot or else coalesced away,
a slot holds one of the atoms that share it and stands for one key, which they all meet. -/
structure Accounts (symbols : Symbols Ref) (run : Run Ref) : Prop where
  settled : ∀ atom slot, (atom, slot) ∈ run.added →
    Xor (run.state.indirectBindingTable[slot]? = some (some atom))
      (run.state.coalescedAway atom = true)
  holds : ∀ atom slot, run.state.indirectBindingTable[slot]? = some (some atom) →
    (atom, slot) ∈ run.added
  alone : ∀ atom other slot, (atom, slot) ∈ run.added → (other, slot) ∈ run.added →
    run.state.coalescedAway atom = false → run.state.coalescedAway other = false → atom = other
  keyed : ∀ slot < run.state.indirectBindingTable.length, ∃! key, run.state.HasKey slot key
  meets : ∀ atom slot, (atom, slot) ∈ run.added →
    ∃ key, run.state.HasKey slot key ∧ Meets symbols atom key

theorem Keeps.accounts (keeps : Keeps symbols run) : Accounts symbols run := by
  refine ⟨?_, fun atom slot held => (keeps.bound slot atom held).1, ?_, ?_, keeps.meets⟩
  · intro atom slot isIn
    rcases keeps.settled atom slot isIn with held | marked
    · refine .inl ⟨held, ?_⟩
      rw [(keeps.bound slot atom held).2]
      exact Bool.false_ne_true
    · refine .inr ⟨marked, fun held => ?_⟩
      rw [(keeps.bound slot atom held).2] at marked
      cases marked
  · intro atom other slot isAtom isOther atomFlag otherFlag
    have held : run.state.indirectBindingTable[slot]? = some (some atom) :=
      (keeps.settled atom slot isAtom).resolve_right (by rw [atomFlag]; exact Bool.false_ne_true)
    have held' : run.state.indirectBindingTable[slot]? = some (some other) :=
      (keeps.settled other slot isOther).resolve_right (by rw [otherFlag]; exact Bool.false_ne_true)
    rw [held] at held'
    exact Option.some.inj (Option.some.inj held')
  · intro slot less
    obtain ⟨key, hasKey⟩ := keeps.keyed slot less
    exact ⟨key, hasKey, fun other hasOther => keeps.oneKey slot other key hasOther hasKey⟩

variable [DecidableEq Ref]

theorem Keeps.call (keeps : Keeps symbols run) (request : Ref × Treatment)
    (fresh : request.1 ∉ run.added.map Prod.fst)
    (apart : Apart symbols (request.1 :: run.added.map Prod.fst)) :
    Keeps symbols (call symbols mode unset run request) := by
  unfold SymbolTable.call
  split
  · exact keeps
  refine keeps.add_step (add_added (fun i held => ?_) ‹_›) fresh apart
  exact fresh (List.mem_map.mpr ⟨_, (keeps.bound i _ held).1, rfl⟩)

theorem addAll_append (front : List (Ref × Treatment)) (request : Ref × Treatment) :
    addAll symbols mode unset (front ++ [request]) =
      call symbols mode unset (addAll symbols mode unset front) request := by
  rw [addAll, addAll, foldl_append, foldl_cons, foldl_nil]

theorem keyed_addAll (requests : List (Ref × Treatment)) :
    Keyed symbols (addAll symbols mode unset requests) := by
  induction requests using reverseRecOn with
  | nil => exact keeps_empty.toKeyed
  | append_singleton earlier request ih =>
    rw [addAll_append, call]
    split
    · exact ih
    · exact ih.add_step (add_entered ‹_›)

theorem founders_meet (requests : List (Ref × Treatment)) :
    ∀ entry ∈ (addAll symbols mode unset requests).state.coalescing,
      Meets symbols entry.2.1 (.shared entry.1 entry.2.1) := by
  induction requests using reverseRecOn with
  | nil => nofun
  | append_singleton earlier request ih =>
    rw [addAll_append, call]
    split
    · exact ih
    rename_i slot state returns
    intro entry isIn
    rcases add_coalescing returns with same | ⟨table, grown, meets, _⟩
    · exact ih entry (same ▸ isIn)
    rcases mem_append.mp (grown ▸ isIn) with isIn | isIn
    · exact ih entry isIn
    · rw [mem_singleton.mp isIn]
      exact meets

theorem founders_added (requests : List (Ref × Treatment)) :
    ∀ entry ∈ (addAll symbols mode unset requests).state.coalescing,
      entry.2 ∈ (addAll symbols mode unset requests).added := by
  induction requests using reverseRecOn with
  | nil => nofun
  | append_singleton earlier request ih =>
    rw [addAll_append, call]
    split
    · exact ih
    rename_i slot state returns
    intro entry isIn
    rcases add_coalescing returns with same | ⟨table, grown, _⟩
    · exact mem_append_left _ (ih entry (same ▸ isIn))
    rcases mem_append.mp (grown ▸ isIn) with isIn | isIn
    · exact mem_append_left _ (ih entry isIn)
    · rw [mem_singleton.mp isIn]
      exact mem_append_right _ mem_cons_self

theorem added_grows (front back : List (Ref × Treatment)) :
    (addAll symbols mode unset front).added ⊆ (addAll symbols mode unset (front ++ back)).added := by
  induction back using reverseRecOn with
  | nil => rw [append_nil]; exact List.Subset.refl _
  | append_singleton back request ih =>
    rw [← append_assoc, addAll_append, call]
    split
    · exact ih
    · exact subset_append_of_subset_left _ ih

theorem added_subset (requests : List (Ref × Treatment)) :
    (addAll symbols mode unset requests).added.map Prod.fst ⊆ requests.map Prod.fst := by
  induction requests using reverseRecOn with
  | nil => exact List.Subset.refl _
  | append_singleton front request ih =>
    rw [addAll_append, map_append, call]
    split
    · exact subset_append_of_subset_left _ ih
    · rw [map_append]
      apply append_subset.mpr
      exact ⟨subset_append_of_subset_left _ ih, subset_append_right _ _⟩

theorem keeps_addAll (requests : List (Ref × Treatment))
    (distinct : (requests.map Prod.fst).Nodup) (apart : Apart symbols (requests.map Prod.fst)) :
    Keeps symbols (addAll symbols mode unset requests) := by
  induction requests using reverseRecOn with
  | nil => exact keeps_empty
  | append_singleton earlier request ih =>
    have keeps := ih (distinct.sublist ((sublist_append_left _ _).map _))
      (apart.sublist (map_subset _ (subset_append_left _ _)))
    rw [map_append, map_singleton] at distinct apart
    rw [addAll_append]
    apply keeps.call
    · intro isIn
      exact (nodup_append.mp distinct).2.2 _ (added_subset earlier isIn) _ (mem_singleton.mpr rfl)
        rfl
    apply apart.sublist
    intro atom isIn
    rcases mem_cons.mp isIn with rfl | isIn
    · simp
    · exact mem_append_left _ (added_subset earlier isIn)

end Calls

end DeveloperTools.Ld64.SymbolTable
