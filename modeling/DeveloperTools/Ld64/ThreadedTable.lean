import DeveloperTools.Ld64.BindFaithful
import DeveloperTools.Ld64.ThreadedBinds

/-!
An entry gets a place in the table when it differs from the entry before it in
what the table holds, and its ordinal is the place of the last entry that did.
The ordinals have 16 bits and the places do not: one more place than there are
ordinals is let through.
-/

namespace DeveloperTools.Ld64.ThreadedBinds

open BindOpcodes
open List Option Transducer

structure Target where
  ordinal : Int
  symbol : Bytes
  type : Nat
  addend : Int
deriving DecidableEq, Repr

def targetOf (bound : Bind) : Target := ⟨bound.ordinal, bound.symbol, bound.type, bound.addend⟩

def tableTarget? : Event → Option Target
  | .tableEntry bound => some (targetOf bound)
  | _ => none

section Places

variable {Pointer : Type} {string : Pointer → CString}

def target (string : Pointer → CString) (info : BindingInfo Pointer) : Target :=
  targetOf (info.exact string)

def SamePlace (left right : BindingInfo Pointer) : Prop :=
  left.libraryOrdinal = right.libraryOrdinal ∧ left.symbolName = right.symbolName ∧
    left.type = right.type ∧ left.addend = right.addend

def TableCorrect (string : Pointer → CString) (table : List Target)
    (bindInfo : List (BindingInfo Pointer)) (ordinals : List Nat) : Prop :=
  List.Forall₂ (fun info ordinal => table[ordinal]? = some (target string info)) bindInfo ordinals

theorem both_at_place {table : List Target} {rest : List (BindingInfo Pointer)} {given : List Nat}
    {truncate : Nat → Nat} {place : Nat} (whole : TableCorrect string table rest given)
    (truncated : TableCorrect string table rest (given.map truncate)) (member : place ∈ given) :
    table[truncate place]? = table[place]? := by
  unfold TableCorrect at whole truncated
  induction whole with
  | nil => cases member
  | cons held _ ih =>
    cases truncated with
    | cons other others =>
      rcases mem_cons.mp member with rfl | later
      · rw [held, other]
      · exact ih others later

variable [DecidableEq Pointer]

instance (left right : BindingInfo Pointer) : Decidable (SamePlace left right) :=
  inferInstanceAs (Decidable (_ ∧ _))

def startsPlace (previous : Option (BindingInfo Pointer)) (info : BindingInfo Pointer) : Bool :=
  previous.all fun before => ¬ SamePlace before info

def changes : Option (BindingInfo Pointer) → List (BindingInfo Pointer) → List (BindingInfo Pointer)
  | _, [] => []
  | previous, info :: rest =>
    (if startsPlace previous info then [info] else []) ++ changes (some info) rest

def places : Option (BindingInfo Pointer) → Nat → List (BindingInfo Pointer) → List Nat
  | _, _, [] => []
  | previous, count, info :: rest =>
    let grown := if startsPlace previous info then count + 1 else count
    (grown - 1) :: places (some info) grown rest

theorem same_place_of_not_starts {previous : Option (BindingInfo Pointer)}
    {info : BindingInfo Pointer} (shares : startsPlace previous info = false) :
    ∃ before, previous = some before ∧ SamePlace before info := by
  cases previous with
  | none => cases shares
  | some before =>
    refine ⟨before, rfl, ?_⟩
    simpa [startsPlace] using shares

/-- The table holds at its place what an entry asks for. `before` are the places
given out so far, of which the last is that of the previous entry. -/
theorem places_hold {rest : List (BindingInfo Pointer)} {previous : Option (BindingInfo Pointer)}
    {before : List Target}
    (last : (∀ info, previous = some info → before.getLast? = some (target string info))) :
    Forall₂
      (fun info place =>
        (before ++ (changes previous rest).map (target string))[place]? = some (target string info))
      rest (places previous before.length rest) := by
  induction rest generalizing previous before last with
  | nil => exact List.Forall₂.nil
  | cons info rest ih =>
    rw [changes, places]
    by_cases starts : startsPlace previous info = true
    · have later := @ih (some info) (before ++ [target string info])
        (by
          intro other same
          cases same
          exact getLast?_concat)
      rw [length_append, length_singleton] at later
      simp only [starts, if_true, map_append, map_cons, map_nil, ← append_assoc, Nat.add_sub_cancel]
      refine List.Forall₂.cons ?_ later
      rw [append_assoc, getElem?_append_right le_rfl, Nat.sub_self]
      rfl
    · rw [Bool.not_eq_true] at starts
      obtain ⟨previous, rfl, same⟩ := same_place_of_not_starts starts
      have held : before.getLast? = some (target string info) := by
        obtain ⟨ordinal, symbol, type, addend⟩ := same
        rw [last previous rfl]
        simp only [target, targetOf, BindingInfo.exact, ordinal, symbol, type, addend]
      have later := @ih (some info) before
        (by
          intro other equal
          cases equal
          exact held)
      simp only [starts, Bool.false_eq_true, if_false, nil_append]
      refine List.Forall₂.cons ?_ later
      rw [getLast?_eq_getElem?] at held
      rw [getElem?_append_left (List.getElem?_eq_some_iff.mp held).choose, held]

theorem last_place_mem {rest : List (BindingInfo Pointer)} (nonempty : rest ≠ []) :
    ∀ {previous : Option (BindingInfo Pointer)} {count : Nat},
      count + (changes previous rest).length - 1 ∈ places previous count rest := by
  induction rest with
  | nil => exact absurd rfl nonempty
  | cons info rest ih =>
    intro previous count
    have grew : (if startsPlace previous info then count + 1 else count) +
        (changes (some info) rest).length = count + (changes previous (info :: rest)).length := by
      rw [changes]
      split
      · rw [length_append, length_singleton]
        omega
      · rfl
    rw [← grew, places]
    by_cases last : rest = []
    · subst last
      exact mem_cons_self
    · exact .tail _ (ih last)

/-- The table fills one place more than there are ordinals, with something else
than the first. -/
def Truncates (string : Pointer → CString) (sorted : List (BindingInfo Pointer)) : Prop :=
  (changes none sorted).length = 2 ^ 16 + 1 ∧
    ((changes none sorted).map (target string)).head? ≠
      ((changes none sorted).map (target string)).getLast?

theorem table_correct_iff {sorted : List (BindingInfo Pointer)}
    (bounded : (changes none sorted).length ≤ 2 ^ 16 + 1) :
    TableCorrect string ((changes none sorted).map (target string)) sorted
        ((places none 0 sorted).map (· % 2 ^ 16)) ↔ ¬ Truncates string sorted := by
  have whole : TableCorrect string ((changes none sorted).map (target string)) sorted
      (places none 0 sorted) := by
    have held := @places_hold _ string _ sorted none [] (fun _ impossible => nomatch impossible)
    exact held
  constructor
  · rintro correct ⟨full, differ⟩
    apply differ
    have nonempty : sorted ≠ [] := by
      rintro rfl
      cases full
    have last := @last_place_mem _ _ sorted nonempty none 0
    rw [full] at last
    have same := both_at_place whole correct last
    rw [head?_eq_getElem?, getLast?_eq_getElem?, length_map, full]
    exact same
  · intro fits
    unfold TableCorrect at whole ⊢
    rw [forall₂_map_right_iff]
    apply whole.imp
    intro info place held
    have inside := (List.getElem?_eq_some_iff.mp held).choose
    rw [length_map] at inside
    by_cases small : place < 2 ^ 16
    · rw [Nat.mod_eq_of_lt small]
      exact held
    -- the one place whose ordinal is truncated
    have full : (changes none sorted).length = 2 ^ 16 + 1 := by omega
    have same : ((changes none sorted).map (target string)).head? =
        ((changes none sorted).map (target string)).getLast? := by
      by_contra differ
      exact fits ⟨full, differ⟩
    have placeIs : place = 2 ^ 16 := by omega
    rw [head?_eq_getElem?, getLast?_eq_getElem?, length_map, full] at same
    subst placeIs
    exact same.trans held

end Places

section Steps

variable {Pointer : Type} {string : Pointer → CString} {sections : List FinalSection}
  {pointerSize : Nat} {state next : Encoder Pointer} {machine : Machine}
  {info : BindingInfo Pointer} {ops : List BindingTmp}

structure Mirrors (string : Pointer → CString) (state : Encoder Pointer) (machine : Machine) :
    Prop where
  ordinal : state.ordinal = -2 ^ 31 ∨ machine.ordinal = state.ordinal
  symbol : ∀ pointer, state.symbolName = some pointer → machine.symbol = (string pointer).chars
  type : machine.type = state.type
  addend : machine.addend = state.addend.toInt
  threaded : machine.threaded = true

structure Holds (state : Encoder Pointer) (info : BindingInfo Pointer) : Prop where
  ordinal : state.ordinal = info.libraryOrdinal
  symbol : state.symbolName = some info.symbolName
  type : state.type = info.type.code
  addend : state.addend = info.addend

variable (sections pointerSize) in
theorem set_ordinal_moves (lower : -3 ≤ info.libraryOrdinal) (upper : info.libraryOrdinal < 2 ^ 31)
    (known : state.ordinal = -2 ^ 31 ∨ machine.ordinal = state.ordinal) :
    effect sections pointerSize (setOrdinal state info).2 machine =
        ({ machine with ordinal := info.libraryOrdinal }, []) ∧
      (setOrdinal state info).1 = { state with ordinal := info.libraryOrdinal } ∧
      Writable (setOrdinal state info).2 := by
  unfold setOrdinal
  split
  · dsimp only
    split
    next special =>
      refine ⟨?_, rfl, writable_singleton rfl trivial⟩
      rw [effect, program_singleton, BindingTmp.meaning]
      simp only [special_ordinal_unsigned lower special]
    rename_i positive
    have value := unsigned_of_positive (not_le.mp positive) upper
    split
    next small =>
      refine ⟨?_, rfl, writable_singleton rfl ?_⟩
      · rw [effect, program_singleton, BindingTmp.meaning]
        simp only [value]
      · change unsigned info.libraryOrdinal < 16
        omega
    · refine ⟨?_, rfl, writable_singleton rfl trivial⟩
      rw [effect, program_singleton, BindingTmp.meaning]
      simp only [value]
  next same =>
    rw [ne_eq, not_not] at same
    have ordinal : machine.ordinal = info.libraryOrdinal := by
      omega
    refine ⟨?_, ?_, writable_nil⟩
    · rw [← ordinal]
      rfl
    · rw [← same]

theorem set_type_some {typed : Encoder Pointer × List BindingTmp}
    (ran : setType state info = some typed) : typed = state.setType info := by
  unfold setType at ran
  unfold Encoder.setType
  split at ran
  · split at ran
    · cases ran
    · cases ran
      rw [if_pos ‹_›]
  · cases ran
    rw [if_neg ‹_›]

theorem locate_some (ran : locate sections state info = some next) :
    next.ordinal = state.ordinal ∧ next.symbolName = state.symbolName ∧ next.type = state.type ∧
      next.addend = state.addend := by
  unfold locate at ran
  split at ran
  · split at ran
    · obtain ⟨found, -, rfl⟩ := map_eq_some_iff.mp ran
      exact ⟨rfl, rfl, rfl, rfl⟩
    · cases ran
      exact ⟨rfl, rfl, rfl, rfl⟩
  · cases ran
    exact ⟨rfl, rfl, rfl, rfl⟩

theorem set_ordinal_nil : (setOrdinal state info).2 = [] ↔ state.ordinal = info.libraryOrdinal := by
  unfold setOrdinal
  split
  next differs =>
    refine iff_of_false ?_ differs
    split
    · exact cons_ne_nil _ _
    · split <;> exact cons_ne_nil _ _
  next same =>
    exact iff_of_true rfl (not_not.mp same)

theorem set_type_nil : (state.setType info).2 = [] ↔ state.type = info.type.code := by
  unfold Encoder.setType
  split
  next differs =>
    exact iff_of_false (cons_ne_nil _ _) differs
  next same =>
    exact iff_of_true rfl (not_not.mp same)

theorem set_addend_nil : (state.setAddend info).2 = [] ↔ state.addend = info.addend := by
  unfold Encoder.setAddend
  split
  next differs =>
    exact iff_of_false (cons_ne_nil _ _) differs
  next same =>
    exact iff_of_true rfl (not_not.mp same)

theorem set_type_is_some :
    (setType state info).isSome ↔ state.type = info.type.code ∨ info.type = .pointer := by
  unfold setType
  split
  next differs =>
    split
    next unsupported =>
      exact iff_of_false Bool.false_ne_true (fun either => either.elim differs unsupported)
    next supported =>
      exact iff_of_true rfl (Or.inr (not_not.mp supported))
  next same =>
    exact iff_of_true rfl (Or.inl (not_not.mp same))

variable [DecidableEq Pointer]

theorem set_symbol_nil :
    (state.setSymbol string info).2 = [] ↔ state.symbolName = some info.symbolName := by
  unfold Encoder.setSymbol
  split
  next differs =>
    exact iff_of_false (cons_ne_nil _ _) differs
  next same =>
    exact iff_of_true rfl (not_not.mp same)

theorem announced_targets : (announced string state info).filterMap tableTarget? = [] := by
  unfold announced
  split <;> rfl

def changeOps (string : Pointer → CString) (state placed : Encoder Pointer)
    (info : BindingInfo Pointer) : List BindingTmp :=
  (setOrdinal state info).2 ++ ((setOrdinal state info).1.setSymbol string info).2 ++
    (((setOrdinal state info).1.setSymbol string info).1.setType info).2 ++
    (placed.setAddend info).2

theorem step_some (ran : step string sections state info = some (next, ops)) : ∃ placed,
      locate sections (((setOrdinal state info).1.setSymbol string info).1.setType info).1 info =
        some placed ∧
      next = (placed.setAddend info).1 ∧
      ops = if changeOps string state placed info ≠ [] then
          changeOps string state placed info ++ [{ opcode := .doBind, operand1 := 0 }]
        else [] := by
  obtain ⟨typed, typeRan, ran⟩ := bind_eq_some_iff.mp ran
  obtain ⟨placed, placeRan, ran⟩ := bind_eq_some_iff.mp ran
  rw [set_type_some typeRan] at placeRan ran
  cases ran
  exact ⟨placed, placeRan, rfl, rfl⟩

variable (pointerSize) in
theorem change_ops_effect (lower : -3 ≤ info.libraryOrdinal)
    (upper : info.libraryOrdinal < 2 ^ 31) (mirrors : Mirrors string state machine)
    {placed : Encoder Pointer}
    (located :
      locate sections (((setOrdinal state info).1.setSymbol string info).1.setType info).1 info =
        some placed) :
    ∃ machine', effect sections pointerSize (changeOps string state placed info) machine =
        (machine', announced string (setOrdinal state info).1 info) ∧
      Mirrors string (placed.setAddend info).1 machine' ∧ Holds (placed.setAddend info).1 info ∧
      targetOf machine'.bound = target string info ∧
      (changeOps string state placed info = [] ↔ Holds state info) ∧
      Writable (changeOps string state placed info) := by
  obtain ⟨ordinalEffect, ordinalSet, ordinalWritable⟩ :=
    set_ordinal_moves sections pointerSize lower upper mirrors.ordinal
  have symbolKnown : (setOrdinal state info).1.symbolName = some info.symbolName →
      machine.symbol = (string info.symbolName).chars := by
    rw [ordinalSet]
    exact mirrors.symbol info.symbolName
  let chosenMachine : Machine := { machine with ordinal := info.libraryOrdinal }
  obtain ⟨symbolEffect, symbolSet, symbolWritable⟩ :=
    set_symbol_moves sections pointerSize chosenMachine symbolKnown
  let namedMachine : Machine := { chosenMachine with
    symbol := (string info.symbolName).chars
    flags := if (setOrdinal state info).1.symbolName ≠ some info.symbolName then info.flags.code
      else machine.flags }
  have typeKnown : namedMachine.type =
      ((setOrdinal state info).1.setSymbol string info).1.type := by
    rw [symbolSet, ordinalSet]
    exact mirrors.type
  obtain ⟨typeEffect, typeSet, typeWritable⟩ :=
    set_type_moves sections pointerSize namedMachine info typeKnown
  let typedMachine : Machine := { namedMachine with type := info.type.code }
  obtain ⟨sameOrdinal, sameSymbol, sameType, sameAddend⟩ := locate_some located
  rw [typeSet, symbolSet, ordinalSet] at sameOrdinal sameSymbol sameType sameAddend
  have addendKnown : typedMachine.addend = placed.addend.toInt := by
    rw [sameAddend]
    exact mirrors.addend
  obtain ⟨addEffect, addSet, addWritable⟩ :=
    set_addend_moves sections pointerSize typedMachine info addendKnown
  have whole := program_then
    (program_then (program_then ordinalEffect symbolEffect) typeEffect)
    addEffect
  rw [append_nil, append_nil, nil_append] at whole
  refine ⟨_, whole, ?_, ?_, rfl, ?_, ?_⟩
  · rw [addSet]
    exact ⟨Or.inr sameOrdinal.symm, fun pointer set => by
      rw [sameSymbol] at set
      cases set
      rfl, sameType.symm, rfl, mirrors.threaded⟩
  · rw [addSet]
    exact ⟨sameOrdinal, sameSymbol, sameType, rfl⟩
  · rw [changeOps, append_eq_nil_iff, append_eq_nil_iff, append_eq_nil_iff,
      set_ordinal_nil, set_symbol_nil, set_type_nil, set_addend_nil, symbolSet, ordinalSet,
      sameAddend]
    constructor
    · rintro ⟨⟨⟨ordinal, symbol⟩, type⟩, addend⟩
      exact ⟨ordinal, symbol, type, addend⟩
    · intro holds
      exact ⟨⟨⟨holds.ordinal, holds.symbol⟩, holds.type⟩, holds.addend⟩
  · exact writable_append (writable_append (writable_append ordinalWritable symbolWritable)
      typeWritable) addWritable

variable (pointerSize) in
theorem step_outcome (lower : -3 ≤ info.libraryOrdinal) (upper : info.libraryOrdinal < 2 ^ 31)
    (mirrors : Mirrors string state machine)
    (ran : step string sections state info = some (next, ops)) :
    Holds next info ∧ Writable ops ∧ (ops = [] ↔ Holds state info) ∧
      Mirrors string next (effect sections pointerSize ops machine).1 ∧
      (effect sections pointerSize ops machine).2.filterMap tableTarget? =
        if ops = [] then [] else [target string info] := by
  obtain ⟨placed, located, rfl, made⟩ := step_some ran
  obtain ⟨machine', changed, still, holds, bound, empty, writable⟩ :=
    change_ops_effect pointerSize lower upper mirrors located
  by_cases nothing : changeOps string state placed info = []
  · rw [if_neg (not_not.mpr nothing)] at made
    subst made
    rw [nothing] at changed
    have same : machine = machine' := (Prod.mk.inj changed).1
    rw [← same] at still
    refine ⟨holds, writable_nil, iff_of_true rfl (empty.mp nothing), still, rfl⟩
  · rw [if_pos nothing] at made
    subst made
    have bindEffect : effect sections pointerSize [{ opcode := .doBind, operand1 := 0 }] machine' =
        (machine'.add pointerSize, [.tableEntry machine'.bound]) := by
      rw [effect, program_singleton, BindingTmp.meaning]
      simp only [bindOnce, Machine.add_add, Nat.add_zero, still.threaded, if_true]
    have whole : effect sections pointerSize (_ ++ _) machine = _ := program_then changed bindEffect
    have some' : changeOps string state placed info ++ [{ opcode := .doBind, operand1 := 0 }] ≠ [] :=
      append_ne_nil_of_right_ne_nil _ (cons_ne_nil _ _)
    rw [whole, if_neg some']
    refine ⟨holds, writable_append writable (writable_singleton rfl trivial),
      iff_of_false some' (fun same => nothing (empty.mpr same)), { still with }, ?_⟩
    rw [filterMap_append, announced_targets, ← bound]
    rfl

def Stands (previous : Option (BindingInfo Pointer)) (state : Encoder Pointer) : Prop :=
  match previous with
  | none => state.ordinal = -2 ^ 31
  | some before => Holds state before

theorem type_code_injective {left right : BindType} (same : left.code = right.code) :
    left = right := by
  cases left <;> cases right <;> first | rfl | cases same

theorem starts_place_iff {previous : Option (BindingInfo Pointer)}
    (stands : Stands previous state) (lower : -3 ≤ info.libraryOrdinal) :
    startsPlace previous info = true ↔ ¬ Holds state info := by
  cases previous with
  | none =>
    refine iff_of_true rfl ?_
    intro holds
    have unset : state.ordinal = -2 ^ 31 := stands
    have set := holds.ordinal
    omega
  | some before =>
    have held : Holds state before := stands
    have same : SamePlace before info ↔ Holds state info := by
      constructor
      · rintro ⟨ordinal, symbol, type, addend⟩
        exact ⟨held.ordinal.trans ordinal, held.symbol.trans (congrArg some symbol),
          held.type.trans (congrArg BindType.code type), held.addend.trans addend⟩
      intro holds
      exact ⟨held.ordinal.symm.trans holds.ordinal,
        Option.some.inj (held.symbol.symm.trans holds.symbol),
        type_code_injective (held.type.symm.trans holds.type),
        held.addend.symm.trans holds.addend⟩
    simp [startsPlace, same]

variable (pointerSize) in
theorem bind_table_outcome {rest : List (BindingInfo Pointer)} :
    ∀ {previous : Option (BindingInfo Pointer)} {count : Nat} {state : Encoder Pointer}
      {machine : Machine} {table : BindTable},
      (∀ info ∈ rest, -3 ≤ info.libraryOrdinal ∧ info.libraryOrdinal < 2 ^ 31) →
      Mirrors string state machine → Stands previous state → (previous = none ∨ 1 ≤ count) →
      bindTable string sections rest state ((count : Int) - 1) = some table →
      Writable table.ops ∧
        table.numBinds = ((count + (changes previous rest).length : Nat) : Int) - 1 ∧
        table.threadedBindOrdinals = (places previous count rest).map (· % 2 ^ 16) ∧
        (effect sections pointerSize table.ops machine).2.filterMap tableTarget? =
          (changes previous rest).map (target string) := by
  induction rest with
  | nil =>
    intro previous count state machine table _ _ _ _ ran
    cases ran
    exact ⟨writable_nil, rfl, rfl, rfl⟩
  | cons info rest ih =>
    intro previous count state machine table bounds mirrors stands counted ran
    obtain ⟨⟨next, ops⟩, stepped, ran⟩ := bind_eq_some_iff.mp ran
    obtain ⟨later, laterRan, made⟩ := bind_eq_some_iff.mp ran
    cases made
    obtain ⟨lower, upper⟩ := bounds info mem_cons_self
    obtain ⟨holds, writable, empty, still, here⟩ :=
      step_outcome pointerSize lower upper mirrors stepped
    have starts := starts_place_iff stands lower
    rw [← empty] at starts
    -- the places given out once the entry has been seen
    let grown := if startsPlace previous info then count + 1 else count
    have positive : 1 ≤ grown := by
      dsimp only [grown]
      split
      · omega
      rename_i shares
      rcases counted with first | counted
      · rw [first] at shares
        exact absurd rfl shares
      · exact counted
    have index : (if ops ≠ [] then (count : Int) - 1 + 1 else (count : Int) - 1) =
        (grown : Int) - 1 := by
      dsimp only [grown]
      by_cases nothing : ops = []
      · rw [if_neg (not_not.mpr nothing), if_neg (fun new => starts.mp new nothing)]
      · rw [if_pos nothing, if_pos (starts.mpr nothing)]
        push_cast
        ring
    have grew : grown + (changes (some info) rest).length =
        count + (changes previous (info :: rest)).length := by
      rw [changes]
      dsimp only [grown]
      split
      · rw [length_append, length_singleton]
        omega
      · rfl
    dsimp only at laterRan ⊢
    rw [index] at laterRan ⊢
    obtain ⟨laterWritable, numBinds, ordinals, targets⟩ := ih
      (fun other member => bounds other (.tail _ member)) still
      (show Stands (some info) next from holds) (Or.inr positive) laterRan
    refine ⟨writable_append writable laterWritable, ?_, ?_, ?_⟩
    · rw [numBinds, grew]
    · rw [places, map_cons, ordinals]
      congr 1
      omega
    rw [effect, program_append, mul_apply, filterMap_append]
    rw [changes, map_append, ← targets]
    congr 1
    refine here.trans ?_
    by_cases nothing : ops = []
    · rw [if_pos nothing, if_neg (fun new => starts.mp new nothing)]
      rfl
    · rw [if_neg nothing, if_pos (starts.mpr nothing)]
      rfl

/-- The types the first loop takes when it has last seen `type`. -/
def typesSupported : Nat → List (BindingInfo Pointer) → Bool
  | _, [] => true
  | type, info :: rest =>
    (type = info.type.code ∨ info.type = .pointer) && typesSupported info.type.code rest

theorem named_type : ((setOrdinal state info).1.setSymbol string info).1.type = state.type := by
  have named : ∀ other : Encoder Pointer, (other.setSymbol string info).1.type = other.type := by
    intro other
    unfold Encoder.setSymbol
    split <;> rfl
  rw [named]
  unfold setOrdinal
  split <;> rfl

theorem step_is_some (held : ∃ found, findSegment sections info.address = some found) :
    (step string sections state info).isSome ↔
      state.type = info.type.code ∨ info.type = .pointer := by
  rw [← @named_type _ string state info, ← set_type_is_some]
  cases typed : setType ((setOrdinal state info).1.setSymbol string info).1 info with
  | none =>
    have thrown : step string sections state info = none := by
      change (setType ((setOrdinal state info).1.setSymbol string info).1 info).bind _ = none
      rw [typed]
      rfl
    rw [thrown]
  | some typedState =>
    have ⟨placed, located⟩ : ∃ placed, locate sections typedState.1 info = some placed := by
      obtain ⟨found, search⟩ := held
      unfold locate
      rw [search]
      split
      · split
        · exact ⟨_, rfl⟩
        · exact ⟨_, rfl⟩
      · exact ⟨_, rfl⟩
    refine iff_of_true ?_ rfl
    change ((setType ((setOrdinal state info).1.setSymbol string info).1 info).bind _).isSome
    rw [typed, bind_some, located]
    rfl

theorem step_type (ran : step string sections state info = some (next, ops)) :
    next.type = info.type.code := by
  obtain ⟨placed, located, rfl, -⟩ := step_some ran
  obtain ⟨-, -, type, -⟩ := locate_some located
  have added : (placed.setAddend info).1.type = placed.type := by
    unfold Encoder.setAddend
    split <;> rfl
  rw [added, type]
  unfold Encoder.setType
  split
  · rfl
  next same =>
    exact not_not.mp same

theorem bind_table_is_some {rest : List (BindingInfo Pointer)} :
    ∀ {state : Encoder Pointer} {numBinds : Int},
      (∀ info ∈ rest, ∃ found, findSegment sections info.address = some found) →
      ((bindTable string sections rest state numBinds).isSome ↔
        typesSupported state.type rest = true) := by
  induction rest with
  | nil =>
    intro state numBinds _
    exact iff_of_true rfl rfl
  | cons info rest ih =>
    intro state numBinds held
    have here := @step_is_some _ string sections state info _ (held info mem_cons_self)
    rw [typesSupported, Bool.and_eq_true, decide_eq_true_iff, ← here]
    cases stepped : step string sections state info with
    | none =>
      rw [bindTable, stepped]
      exact iff_of_false Bool.false_ne_true (fun both => Bool.false_ne_true both.1)
    | some result =>
      obtain ⟨next, ops⟩ := result
      have later := @ih next (if ops ≠ [] then numBinds + 1 else numBinds)
        fun other member => held other (.tail _ member)
      rw [step_type stepped] at later
      rw [← later]
      cases table : bindTable string sections rest next
          (if ops ≠ [] then numBinds + 1 else numBinds) with
      | none =>
        have thrown : bindTable string sections (info :: rest) state numBinds = none := by
          rw [bindTable, stepped, bind_eq_bind, bind_some]
          dsimp only
          rw [table]
          rfl
        rw [thrown]
        exact iff_of_false Bool.false_ne_true (fun both => Bool.false_ne_true both.2)
      | some table' =>
        refine iff_of_true ?_ ⟨rfl, rfl⟩
        rw [bindTable, stepped, bind_eq_bind, bind_some]
        dsimp only
        rw [table]
        rfl

end Steps

end DeveloperTools.Ld64.ThreadedBinds
