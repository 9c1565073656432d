import DeveloperTools.Ld64.SymbolTable
import DeveloperTools.Lib.CString

/-!
Literals in the maps of `SymbolTable`. Each map has an equality of its own and the hashes of the
atoms, which may be any numbers. Two literals that share a slot should have the same bytes; for
UTF-16 strings that takes that none of them, without its terminator, starts another one.
`removeDeadAtoms` goes by the atom for which a slot was made, which may not be the one in it.
-/

namespace DeveloperTools.Ld64.LiteralCoalescing

open SymbolResolution (CommonsMode Treatment)
open SymbolTable List

def Formed : Table → List UInt8 → Prop
  | .cstring, content | .nonStdCString _, content => ∃ chars, 0 ∉ chars ∧ content = chars ++ [0]
  | .utf16, content => Even content.length ∧ [0, 0] <:+ content
  | .literal4, content => content.length = 4
  | .literal8, content => content.length = 8
  | .literal16, content => content.length = 16
  | _, _ => True

structure Literals (Ref : Type) where
  sectionType : Ref → SectionType
  content : Ref → List UInt8
  -- what follows the content in its file
  behind : Ref → List UInt8
  formed : ∀ atom table, contentTable (sectionType atom) = some table → Formed table (content atom)

variable {Ref : Type} [DecidableEq Ref] (literals : Literals Ref)

namespace Literals

def memory (atom : Ref) : List UInt8 := literals.content atom ++ literals.behind atom

/-- `memcmp(left->rawContentPointer(), right->rawContentPointer(), amount) == 0` -/
def memcmpEqual (left right : Ref) (amount : Nat) : Bool :=
  (literals.memory left).take amount = (literals.memory right).take amount

def contentEqual (left right : Ref) : Bool :=
  literals.memcmpEqual left right (literals.content left).length

def cstringEqual (left right : Ref) : Bool :=
  (readString (literals.memory left)).map Prod.fst =
    (readString (literals.memory right)).map Prod.fst

/-- The `unsigned int` that `UTF16StringHashFuncs` compares: all but the terminator. -/
def amount (left : Ref) : Nat := ((literals.content left).length - 2) % 2 ^ 32

def utf16Equal (left right : Ref) : Bool :=
  left = right || literals.memcmpEqual left right (literals.amount left)

def equality : Table → Option (Ref → Ref → Bool)
  | .cstring | .nonStdCString _ => some literals.cstringEqual
  | .utf16 => some literals.utf16Equal
  | .literal4 | .literal8 | .literal16 => some literals.contentEqual
  | _ => none

/-- The symbols with these literals. The standard leaves open which of key and argument is on the
left when a map compares them. -/
def symbols (base : Symbols Ref) (hash : Ref → Nat) (keyFirst : Bool) : Symbols Ref :=
  { base with
    sectionType := literals.sectionType
    same := fun table slots key atom =>
      match literals.equality table with
      | some equal =>
        hash key = hash atom && if keyFirst then equal key atom else equal atom key
      | none => base.same table slots key atom }

def SameKind : SectionType → SectionType → Prop
  | .nonStdCString _ _, .nonStdCString _ _ => True
  | left, right => left = right

/-- Literals that share a slot are the same, and the equalities are symmetric. -/
def MergesOnlySame : Prop :=
  (∀ (base : Symbols Ref) (hash : Ref → Nat) (keyFirst : Bool) (mode : CommonsMode)
      (unset : Ref → Ref → Bool) (requests : List (Ref × Treatment)) (left right : Ref)
      (slot : Nat), (base.atom left).combine = .byNameAndContent →
    (base.atom right).combine = .byNameAndContent →
    (left, slot) ∈ (addAll (literals.symbols base hash keyFirst) mode unset requests).added →
    (right, slot) ∈ (addAll (literals.symbols base hash keyFirst) mode unset requests).added →
    SameKind (literals.sectionType left) (literals.sectionType right) ∧
      literals.content left = literals.content right) ∧
  ∀ table equal left right, literals.equality table = some equal →
    contentTable (literals.sectionType left) = some table →
    contentTable (literals.sectionType right) = some table → equal left right = equal right left

/-- No UTF-16 string without its terminator is what another, different one starts with. -/
def NoStarts : Prop :=
  ∀ left right, literals.sectionType left = .utf16Strings →
    literals.sectionType right = .utf16Strings →
    (literals.content left).take (literals.amount left) <+: literals.memory right →
    literals.content left = literals.content right

/-- The same of strings with one hash, the only ones that a map compares. -/
def NoStartsWithin (hash : Ref → Nat) : Prop :=
  ∀ left right, literals.sectionType left = .utf16Strings →
    literals.sectionType right = .utf16Strings → hash left = hash right →
    (literals.content left).take (literals.amount left) <+: literals.memory right →
    literals.content left = literals.content right

variable {literals} {right : Ref} {hash : Ref → Nat}

omit [DecidableEq Ref] in
theorem NoStarts.within (noStarts : literals.NoStarts) : literals.NoStartsWithin hash :=
  fun left right isLeft isRight _ => noStarts left right isLeft isRight

omit [DecidableEq Ref] in
theorem memcmp_equal_iff {left : Ref} {amount : Nat}
    (short : amount ≤ (literals.content left).length) :
    literals.memcmpEqual left right amount = true ↔
      (literals.content left).take amount <+: literals.memory right := by
  unfold memcmpEqual
  rw [decide_eq_true_iff, prefix_iff_eq_take, length_take, min_eq_left short, memory,
    take_append_of_le_length short]

omit [DecidableEq Ref] in
theorem content_equal_iff {left : Ref}
    (same : (literals.content left).length = (literals.content right).length) :
    literals.contentEqual left right = true ↔ literals.content left = literals.content right := by
  unfold contentEqual
  rw [memcmp_equal_iff le_rfl, take_length]
  constructor
  · intro starts
    have inside := prefix_of_prefix_length_le starts (prefix_append _ _) same.le
    exact inside.eq_of_length same
  · intro equal
    exact equal ▸ prefix_append _ _

omit [DecidableEq Ref] in
theorem cstring_equal_iff {left : Ref} {leftChars rightChars : List UInt8} (leftNul : 0 ∉ leftChars)
    (leftContent : literals.content left = leftChars ++ [0]) (rightNul : 0 ∉ rightChars)
    (rightContent : literals.content right = rightChars ++ [0]) :
    literals.cstringEqual left right = true ↔ literals.content left = literals.content right := by
  unfold cstringEqual memory
  rw [decide_eq_true_iff, leftContent, rightContent, append_assoc, append_assoc, singleton_append,
    singleton_append, read_string_written leftNul, read_string_written rightNul, Option.map_some,
    Option.map_some, Option.some_inj, append_left_inj]

variable {type : SectionType}

omit [DecidableEq Ref] in
theorem utf16_type (isTable : contentTable type = some .utf16) : type = .utf16Strings := by
  cases type <;> cases isTable
  rfl

variable {table : Table}

theorem equal_iff (noStarts : literals.NoStartsWithin hash) {equal : Ref → Ref → Bool}
    (isEqual : literals.equality table = some equal) {left : Ref} (alike : hash left = hash right)
    (leftIn : contentTable (literals.sectionType left) = some table)
    (rightIn : contentTable (literals.sectionType right) = some table) :
    equal left right = true ↔ literals.content left = literals.content right := by
  have leftFormed := literals.formed left table leftIn
  have rightFormed := literals.formed right table rightIn
  cases table with
  | cstring | nonStdCString =>
    cases isEqual
    obtain ⟨leftChars, leftNul, leftContent⟩ := leftFormed
    obtain ⟨rightChars, rightNul, rightContent⟩ := rightFormed
    exact cstring_equal_iff leftNul leftContent rightNul rightContent
  | utf16 =>
    cases isEqual
    have short : literals.amount left ≤ (literals.content left).length :=
      (Nat.mod_le _ _).trans (Nat.sub_le _ _)
    rw [utf16Equal, Bool.or_eq_true, decide_eq_true_iff, memcmp_equal_iff short]
    constructor
    · rintro (rfl | starts)
      · rfl
      · exact noStarts left right (utf16_type leftIn) (utf16_type rightIn) alike starts
    intro same
    right
    rw [memory, ← same]
    exact IsPrefix.trans ( take_prefix _ _) (prefix_append _ _)
  | literal4 | literal8 | literal16 =>
    cases isEqual
    exact content_equal_iff (Eq.trans leftFormed (Eq.symm rightFormed))
  | _ => cases isEqual

theorem equality_of_content (isTable : contentTable type = some table) :
    (literals.equality table).isSome := by
  cases type <;> cases isTable <;> rfl

theorem equality_of_references (isTable : referencesTable type = some table) :
    literals.equality table = none := by
  cases type <;> cases isTable <;> rfl

omit [DecidableEq Ref] in
theorem same_kind {left right : SectionType} (leftIn : contentTable left = some table)
    (rightIn : contentTable right = some table) :
    SameKind left right := by
  cases left <;> cases leftIn <;> cases right <;> first | exact True.intro | rfl | cases rightIn

variable {base : Symbols Ref} {keyFirst : Bool}

theorem meets_content {atom : Ref} {key : Key Ref}
    (byContent : (base.atom atom).combine = .byNameAndContent)
    (meets : Meets (literals.symbols base hash keyFirst) atom key) :
    ∃ table first, key = .shared table first ∧
      contentTable (literals.sectionType atom) = some table := by
  have isCombine : ((literals.symbols base hash keyFirst).atom atom).combine = .byNameAndContent :=
    byContent
  cases key with
  | name name =>
    rcases meets.1 with never | byName
    · rw [isCombine] at never
      cases never
    · rw [isCombine] at byName
      cases byName
  | shared table first =>
    rcases meets.1 with ⟨_, isTable⟩ | ⟨byReferences, _⟩
    · exact ⟨table, first, rfl, isTable⟩
    · rw [isCombine] at byReferences
      cases byReferences

theorem Meets.literal {first atom : Ref}
    (meets : Meets (literals.symbols base hash keyFirst) atom (.shared table first))
    (compared : (literals.equality table).isSome) :
    (base.atom atom).combine = .byNameAndContent ∧
      contentTable (literals.sectionType atom) = some table := by
  rcases meets.1 with both | ⟨_, isTable⟩
  · exact both
  · rw [equality_of_references isTable] at compared
    cases compared

theorem same_iff (noStarts : literals.NoStartsWithin hash) {slots : List (Option Ref)} {key atom : Ref}
    (keyIn : contentTable (literals.sectionType key) = some table)
    (atomIn : contentTable (literals.sectionType atom) = some table) :
    (literals.symbols base hash keyFirst).same table slots key atom = true ↔
      hash key = hash atom ∧ literals.content key = literals.content atom := by
  obtain ⟨equal, isEqual⟩ := Option.isSome_iff_exists.mp
    (equality_of_content keyIn : (literals.equality table).isSome)
  simp only [symbols, isEqual, Bool.and_eq_true, decide_eq_true_eq]
  refine and_congr_right fun alike => ?_
  split
  · rw [equal_iff noStarts isEqual alike keyIn atomIn]
  · rw [equal_iff noStarts isEqual alike.symm atomIn keyIn, eq_comm]

theorem content_of_founder (noStarts : literals.NoStartsWithin hash) {first atom : Ref}
    (founds : Meets (literals.symbols base hash keyFirst) first (.shared table first))
    (meets : Meets (literals.symbols base hash keyFirst) atom (.shared table first))
    (isIn : contentTable (literals.sectionType atom) = some table) :
    literals.content first = literals.content atom := by
  have firstIn := (Meets.literal founds (equality_of_content isIn)).2
  rcases meets.2 with rfl | ⟨slots, same⟩
  · rfl
  · exact ((same_iff noStarts firstIn isIn).mp same).2

theorem shared_content {run : Run Ref}
    (keyed : Keyed (literals.symbols base hash keyFirst) run)
    (founds : ∀ entry ∈ run.state.coalescing,
      Meets (literals.symbols base hash keyFirst) entry.2.1 (.shared entry.1 entry.2.1))
    (noStarts : literals.NoStartsWithin hash) {left : Ref} {slot : Nat}
    (leftIn : (left, slot) ∈ run.added) (rightIn : (right, slot) ∈ run.added)
    (leftBy : (base.atom left).combine = .byNameAndContent) :
    ∃ table, contentTable (literals.sectionType left) = some table ∧
      (base.atom right).combine = .byNameAndContent ∧
      contentTable (literals.sectionType right) = some table ∧
      literals.content left = literals.content right := by
  obtain ⟨key, hasKey, leftMeets⟩ := keyed.meets left slot leftIn
  obtain ⟨other, hasOther, rightMeets⟩ := keyed.meets right slot rightIn
  cases keyed.oneKey slot key other hasKey hasOther
  obtain ⟨table, first, rfl, leftTable⟩ := meets_content leftBy leftMeets
  obtain ⟨rightBy, rightTable⟩ := Meets.literal rightMeets (equality_of_content leftTable)
  have founder := founds (table, first, slot) hasKey
  refine ⟨table, leftTable, rightBy, rightTable, ?_⟩
  rw [← content_of_founder noStarts founder leftMeets leftTable]
  exact content_of_founder noStarts founder rightMeets rightTable

theorem merges_of_no_starts (noStarts : literals.NoStarts) : literals.MergesOnlySame := by
  constructor
  · intro base hash keyFirst mode unset requests left right slot leftBy rightBy leftIn rightIn
    obtain ⟨table, leftTable, _, rightTable, same⟩ := shared_content (keyed_addAll requests)
      (founders_meet requests) noStarts.within leftIn rightIn leftBy
    exact ⟨same_kind leftTable rightTable, same⟩
  · intro table equal left right isEqual leftIn rightIn
    -- as if all hashes were the same
    have alike : literals.NoStartsWithin fun _ => 0 := noStarts.within
    rw [Bool.eq_iff_iff, equal_iff alike isEqual rfl leftIn rightIn,
      equal_iff alike isEqual rfl rightIn leftIn]
    exact eq_comm

def allByContent : Symbols Ref where
  atom _ := ⟨.regular, .byNameAndContent, .global, false, false, false, 4, ⟨0, 0⟩, 0⟩
  name _ := ""
  sectionType _ := .other
  subordinates _ := []
  depth _ := 0
  nested := by simp
  same _ _ _ _ := false

/-- Different literals are never merged and the equalities are symmetric, if and only if no UTF-16
string starts another one. -/
theorem merges_only_same_iff (literals : Literals Ref) :
    literals.MergesOnlySame ↔ literals.NoStarts := by
  refine ⟨fun merges left right leftType rightType starts => ?_, merges_of_no_starts⟩
  have short : literals.amount left ≤ (literals.content left).length :=
    (Nat.mod_le _ _).trans (Nat.sub_le _ _)
  have equal : literals.utf16Equal left right = true := by
    rw [utf16Equal, Bool.or_eq_true]
    exact .inr ((memcmp_equal_iff short).mpr starts)
  -- with one hash for all, a string that starts another one gets it into its slot
  have added : (addAll (literals.symbols allByContent (fun _ => 0) true) .ignoreDylibs
      (fun _ _ => false) [(left, .error), (right, .error)]).added = [(left, 0), (right, 0)] := by
    simp [addAll, call, add, addByContent, findSlot, State.empty, allByContent, symbols, equality,
      contentTable, leftType, rightType, equal, SymbolTable.bind, greaterAlignment, Bind.bind,
      Except.bind]
  refine (merges.1 allByContent (fun _ => 0) true .ignoreDylibs (fun _ _ => false)
    [(left, .error), (right, .error)] left right 0 rfl rfl ?_ ?_).2
  · rw [added]
    exact mem_cons_self
  · rw [added]
    exact .tail _ mem_cons_self

section Removing

variable (live dontDeadStrip : Ref → Bool)

def notLive (atom : Ref) : Bool := !live atom && !dontDeadStrip atom

def deadSlot (state : State Ref) (slot : Nat) : Bool :=
  (state.indirectBindingTable[slot]?).join.any (notLive live dontDeadStrip)

def cleaned : Table → Bool
  | .nonLazyPointer | .cstring | .utf16 | .cfString | .literal4 | .literal8 | .literal16 => true
  | .nonStdCString _ | .objc2ClassRef | .pointerToCString | .threadPointer => false

/-- Whether the entry of a key stays in its map: the atom for which the slot was made decides. -/
def stays (table : Table) (key : Ref) : Bool := !(cleaned table && notLive live dontDeadStrip key)

def removeDeadAtoms (state : State Ref) : State Ref :=
  { state with
    indirectBindingTable := state.indirectBindingTable.mapIdx fun slot atom =>
      if deadSlot live dontDeadStrip state slot && (state.byNameTable.map Prod.snd).contains slot
      then none else atom
    byNameTable := state.byNameTable.filter fun entry =>
      !deadSlot live dontDeadStrip state entry.2
    coalescing := state.coalescing.filter fun entry => stays live dontDeadStrip entry.1 entry.2.1 }

/-- A literal like a live one that is bound is looked up in the slot of that one, and no entry of
a literal leads to a dead one. -/
structure KeepsLive (symbols : Symbols Ref) (run : Run Ref) : Prop where
  found : ∀ atom slot table new, (symbols.atom atom).combine = .byNameAndContent →
    (atom, slot) ∈ run.added → run.state.indirectBindingTable[slot]? = some (some atom) →
    live atom = true → contentTable (literals.sectionType atom) = some table →
    contentTable (literals.sectionType new) = some table →
    literals.content new = literals.content atom →
    findSlot symbols contentTable new (removeDeadAtoms live dontDeadStrip run.state) =
      .ok (slot, some atom, removeDeadAtoms live dontDeadStrip run.state)
  bound : ∀ entry ∈ (removeDeadAtoms live dontDeadStrip run.state).coalescing,
    (literals.equality entry.1).isSome → ∀ atom,
    (removeDeadAtoms live dontDeadStrip run.state).indirectBindingTable[entry.2.2]? =
      some (some atom) → notLive live dontDeadStrip atom = false

/-- Entries stay exactly with live atoms in their slots: what is bound is live where the entry
stays, and the entry stays where what was added and is bound is live. -/
def KeysAgree (run : Run Ref) : Prop :=
  ∀ table key slot atom, (table, key, slot) ∈ run.state.coalescing →
    (literals.equality table).isSome →
    run.state.indirectBindingTable[slot]? = some (some atom) →
    (stays live dontDeadStrip table key = true → notLive live dontDeadStrip atom = false) ∧
    ((atom, slot) ∈ run.added → live atom = true → stays live dontDeadStrip table key = true)

abbrev hashed (base : Symbols Ref) (hash : List UInt8 → Nat) (keyFirst : Bool) : Symbols Ref :=
  literals.symbols base (fun atom => hash (literals.content atom)) keyFirst

end Removing

section Lookup

variable {base : Symbols Ref} {hash : List UInt8 → Nat} {keyFirst : Bool} {mode : CommonsMode}
  {unset : Ref → Ref → Bool} {live dontDeadStrip : Ref → Bool}

omit [DecidableEq Ref] in
theorem removed_slot {symbols : Symbols Ref} {run : Run Ref} (keyed : Keyed symbols run) {key : Ref}
    {slot : Nat} (isIn : (table, key, slot) ∈ run.state.coalescing) :
    (removeDeadAtoms live dontDeadStrip run.state).indirectBindingTable[slot]? =
      run.state.indirectBindingTable[slot]? := by
  have unnamed : slot ∉ run.state.byNameTable.map Prod.snd := by
    intro named
    obtain ⟨⟨name, _⟩, isName, rfl⟩ := mem_map.mp named
    cases keyed.oneKey _ (.shared table key) (.name name) isIn isName
  simp [removeDeadAtoms, getElem?_mapIdx, unnamed]

def Differ (literals : Literals Ref) (left right : Table × Ref × Nat) : Prop :=
  left.1 = right.1 → (literals.equality left.1).isSome →
    literals.content left.2.1 ≠ literals.content right.2.1

instance : Std.Symm literals.Differ :=
  ⟨fun _ _ differ same compared equal => differ same.symm (same ▸ compared) equal.symm⟩

theorem entries_differ
    (noStarts : literals.NoStartsWithin fun atom => hash (literals.content atom)) (requests : List (Ref × Treatment)) :
    (addAll (literals.hashed base hash keyFirst) mode unset requests).state.coalescing.Pairwise
      literals.Differ := by
  induction requests using reverseRecOn with
  | nil => exact .nil
  | append_singleton earlier request ih =>
    rw [addAll_append, call]
    split
    · exact ih
    rename_i slot state returns
    rcases add_coalescing returns with same | ⟨table, grown, meets, isNew⟩
    · exact same ▸ ih
    rw [grown, pairwise_append]
    refine ⟨ih, pairwise_singleton _ _, ?_⟩
    rintro ⟨_, key, place⟩ isIn _ isLast rfl compared same
    cases mem_singleton.mp isLast
    have keyIn := (Meets.literal (founders_meet earlier _ isIn) compared).2
    have newIn := (Meets.literal meets compared).2
    apply Bool.false_ne_true
    rw [← isNew _ isIn rfl]
    exact (same_iff noStarts keyIn newIn).mpr ⟨congrArg hash same, same⟩

/-- Live literals are found and dead ones are not, after any calls and any marking, if and only if
the atoms for which the slots were made agree with those that are in them. -/
theorem keeps_live_iff (literals : Literals Ref) (hash : List UInt8 → Nat)
    (noStarts : literals.NoStartsWithin fun atom => hash (literals.content atom))
    (base : Symbols Ref) (keyFirst : Bool) (mode : CommonsMode) (unset : Ref → Ref → Bool)
    (requests : List (Ref × Treatment)) (live dontDeadStrip : Ref → Bool) :
    literals.KeepsLive live dontDeadStrip (literals.hashed base hash keyFirst)
        (addAll (literals.hashed base hash keyFirst) mode unset requests) ↔
      literals.KeysAgree live dontDeadStrip
        (addAll (literals.hashed base hash keyFirst) mode unset requests) := by
  have keyed : Keyed (literals.hashed base hash keyFirst) (addAll _ mode unset requests) :=
    keyed_addAll requests
  constructor
  · intro keeps table key slot atom isIn compared held
    constructor
    · intro stay
      exact keeps.bound (table, key, slot) (mem_filter.mpr ⟨isIn, stay⟩) compared atom
        ((removed_slot keyed isIn).trans held)
    intro isAdded isLive
    obtain ⟨other, hasOther, meets⟩ := keyed.meets atom slot isAdded
    cases keyed.oneKey slot other (.shared table key) hasOther isIn
    obtain ⟨byContent, atomIn⟩ := Meets.literal meets compared
    have looked := keeps.found atom slot table atom byContent isAdded held isLive atomIn atomIn rfl
    obtain ⟨_, _, ⟨first, isFirst, _⟩ | ⟨_, isNone, _⟩⟩ := find_slot_ok looked
    · obtain ⟨isFirst, stay⟩ := mem_filter.mp isFirst
      cases keyed.oneKey slot (.shared _ first) (.shared table key) isFirst isIn
      exact stay
    · cases isNone
  · intro agree
    constructor
    · intro atom slot table new byContent isAdded held isLive atomIn newIn same
      obtain ⟨other, hasKey, meets⟩ := keyed.meets atom slot isAdded
      obtain ⟨_, key, rfl, isTable⟩ :=
        meets_content (show (base.atom atom).combine = _ from byContent) meets
      cases atomIn.symm.trans isTable
      have compared : (literals.equality table).isSome := equality_of_content atomIn
      have founds := founders_meet requests _ hasKey
      have keyIn := (Meets.literal founds compared).2
      have isContent := content_of_founder noStarts founds meets atomIn
      have stay := (agree table key slot atom hasKey compared held).2 isAdded isLive
      have sameBytes := isContent.trans same.symm
      rw [find_slot_only newIn (mem_filter.mpr ⟨hasKey, stay⟩), removed_slot keyed hasKey, held]
      · rfl
      · exact (same_iff noStarts keyIn newIn).mpr ⟨congrArg hash sameBytes, sameBytes⟩
      -- no other entry has these bytes
      · intro other place isOther equal
        have isOther := (mem_filter.mp isOther).1
        have otherIn := (Meets.literal (founders_meet requests _ isOther) compared).2
        by_contra differs
        refine (entries_differ noStarts requests).forall isOther hasKey ?_ rfl compared ?_
        · rintro ⟨⟩
          exact differs rfl
        · exact ((same_iff noStarts otherIn newIn).mp equal).2.trans sameBytes.symm
    · intro entry isIn compared atom held
      obtain ⟨isIn, stay⟩ := mem_filter.mp isIn
      rw [removed_slot keyed isIn] at held
      exact (agree _ _ _ atom isIn compared held).1 stay

end Lookup

end Literals

def twoStrings : Literals Bool where
  sectionType _ := .utf16Strings
  content long := if long then [0x61, 0, 0x62, 0, 0, 0] else [0x61, 0, 0, 0]
  behind _ := []
  formed long table isTable := by
    cases isTable
    cases long
    · exact ⟨by decide, by decide⟩
    · exact ⟨by decide, by decide⟩

theorem shorter_string_merged :
    (addAll (twoStrings.symbols Literals.allByContent (fun _ => 0) true) .ignoreDylibs
        (fun _ _ => false) [(false, .error), (true, .error)]).added = [(false, 0), (true, 0)] ∧
      twoStrings.content false ≠ twoStrings.content true ∧
      twoStrings.utf16Equal false true = true ∧ twoStrings.utf16Equal true false = false := by
  decide +kernel

def copies : Literals (Fin 3) where
  sectionType _ := .cstring
  content _ := [0x61, 0]
  behind _ := []
  formed _ _ isTable := by
    cases isTable
    exact ⟨[0x61], by decide, rfl⟩

def aligned : Symbols (Fin 3) :=
  { Literals.allByContent with
    atom := fun copy => { Literals.allByContent.atom copy with alignment := ⟨copy, 0⟩ } }

def copiesTable : Symbols (Fin 3) := copies.hashed aligned (fun _ => 0) true

def copiesRun : Run (Fin 3) :=
  addAll copiesTable .ignoreDylibs (fun _ _ => false) [(0, .error), (1, .error)]

/-- The second copy has replaced the first one, with which its entry goes. -/
theorem replaced_string_lost :
    copiesRun.added = [(0, 0), (1, 0)] ∧ copiesRun.state.indirectBindingTable = [some 1] ∧
      (findSlot copiesTable contentTable 2
        (Literals.removeDeadAtoms (· = 1) (fun _ => false) copiesRun.state)).map Prod.fst = .ok 1 ∧
      ¬ copies.KeepsLive (· = 1) (fun _ => false) copiesTable copiesRun := by
  have lost : (findSlot copiesTable contentTable 2
      (Literals.removeDeadAtoms (· = 1) (fun _ => false) copiesRun.state)).map Prod.fst =
        .ok 1 := by
    decide +kernel
  refine ⟨by decide +kernel, by decide +kernel, lost, fun keeps => ?_⟩
  have looked := keeps.found 1 0 .cstring 2 rfl (by decide +kernel) (by decide +kernel) rfl rfl
    rfl rfl
  rw [looked] at lost
  cases lost

theorem both_copies_kept :
    copies.KeepsLive (fun _ => true) (fun _ => false) copiesTable copiesRun := by
  refine (copies.keeps_live_iff (fun _ => 0) nofun aligned true .ignoreDylibs (fun _ _ => false)
    [(0, .error), (1, .error)] (fun _ => true) (fun _ => false)).mpr ?_
  intro table key slot atom _ _ _
  exact ⟨fun _ => rfl, fun _ _ => by simp [Literals.stays, Literals.notLive]⟩

end DeveloperTools.Ld64.LiteralCoalescing
