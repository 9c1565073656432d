import Mathlib.Data.List.Basic
import DeveloperTools.Lib.FailingFold

/-!
The count arguments `mig` adds to the arguments of a routine, and the ones its server generator
takes for granted: in the check of the message's size and in that of out-of-line data.
-/

namespace DeveloperTools.Mig.Counts
open List FailingFold

/-- What is read of an `ipc_type_t` and of the type of its elements. -/
structure Attributes where
  itNumber : Nat := 1
  itKPD_Number : Nat := 0
  itInLine : Bool := true
  itMigInLine : Bool := false
  itPortType : Bool := false
  itString : Bool := false
  itVarArray : Bool := false
  itNative : Bool := false
  itNativePointer : Bool := false
  /-- `itBadValue != NULL` -/
  itBadValue : Bool := false

structure IpcType extends Attributes where
  itElement : Option Attributes := none

namespace IpcType
variable (it : IpcType)

def isVariableSizedUntyped : Bool := it.itVarArray && it.itInLine && !it.itPortType

def isKernProcData : Bool := !it.itInLine || it.itPortType

def isOptionalNative : Bool := it.itNative && it.itNativePointer && it.itBadValue

def isMultipleKPD : Bool := it.itKPD_Number > 1

/-- `it->itElement->itVarArray` -/
def ofVarArrays : Bool := it.itElement.any (·.itVarArray)

def copyType : IpcType := { it with itElement := some it.toAttributes }

/-- An unbounded array, which is out of line, has the number 0. -/
def arrayOf (varying : Bool) (number : Nat) : Except String IpcType :=
  if !it.itInLine then
    if it.itKPD_Number ≠ 1 ∨ varying ∧ number = 0 then
      .error "IPC type decl is too complicated for Kernel Processed Data"
    else .ok { it.copyType with itKPD_Number := number, itNumber := 1, itVarArray := varying,
                                itString := false }
  else if it.itVarArray then .error "IPC type decl is too complicated"
  else if varying ∧ number = 0 then
    .ok { it.copyType with itNumber := 0, itMigInLine := true, itInLine := false,
                           itKPD_Number := 1, itVarArray := true, itString := false }
  else .ok { it.copyType with
             itNumber := it.itNumber * number, itVarArray := varying, itString := false
             itKPD_Number := if it.itPortType then it.itKPD_Number * number else it.itKPD_Number }

def varArrayDecl : Nat → Except String IpcType := it.arrayOf true

def arrayDecl : Nat → Except String IpcType := it.arrayOf false

/-- The type itself is changed, and keeps its elements. -/
def ptrDecl : Except String IpcType :=
  if !it.itInLine && !it.itMigInLine then
    .error "IPC type decl is already defined to be Out-Of-Line"
  else .ok { it with itInLine := false, itString := false, itMigInLine := false, itKPD_Number := 1 }

def structDecl (number : Nat) : Except String IpcType :=
  if !it.itInLine || it.itVarArray then .error "IPC type decl is too complicated"
  else .ok { it.copyType with itNumber := it.itNumber * number, itString := false }
end IpcType

inductive TypeSpec where
  | basic (port string : Bool)
  | native (pointer badValue : Bool)
  | cString (count : Nat) (varying : Bool)
  | prev (old : TypeSpec)
  | varArray (number : Nat) (old : TypeSpec)
  | array (number : Nat) (old : TypeSpec)
  | struct (number : Nat) (old : TypeSpec)
  | ptr (old : TypeSpec)

def TypeSpec.type : TypeSpec → Except String IpcType
  | basic port string =>
    .ok { itPortType := port, itString := string, itKPD_Number := if port then 1 else 0 }
  | native pointer badValue =>
    .ok { itNative := true, itNativePointer := pointer, itBadValue := badValue }
  | cString count varying =>
    .ok { itNumber := count, itVarArray := varying, itString := true
          itElement := some { itString := true } }
  | prev old => do .ok (← old.type).copyType
  | varArray number old => do (← old.type).varArrayDecl number
  | array number old => do (← old.type).arrayDecl number
  | struct number old => do (← old.type).structDecl number
  | ptr old => do (← old.type).ptrDecl

inductive KPDType where
  | port
  | ool
  | oolPorts
deriving DecidableEq

structure Argument where
  argName : String
  argType : IpcType
  akbRequest : Bool := false
  akbReply : Bool := false
  akbSend : Bool := false
  akbSendBody : Bool := false
  akbSendRcv : Bool := false
  akbVariable : Bool := false
  akbSendKPD : Bool := false
  argKPD_Type : Option KPDType := none
  /-- The count, by its `argMultiplier`. -/
  argCount : Option Nat := none
  argSubCount : Option Nat := none

namespace Argument
variable (arg : Argument)

def withVariable : Argument :=
  { arg with akbVariable := arg.argType.isVariableSizedUntyped || arg.argType.isOptionalNative }

def augmentKind : Except String Argument :=
  if arg.argType.isVariableSizedUntyped && (arg.akbRequest && arg.akbReply) then
    .error (arg.argName ++ ": Inline variable-sized arguments can't be InOut")
  else .ok arg.withVariable

def detectKPD : Argument :=
  if arg.argType.isKernProcData then
    { arg with
      akbSendBody := false
      akbSendKPD := arg.akbSendBody || arg.akbSendKPD
      argKPD_Type := some
        (if arg.argType.itInLine then .port else if arg.argType.itPortType then .oolPorts else .ool) }
  else arg

/-- The count of a string is in the message, but no argument on either side. -/
def countOf (suffix : String) (type : IpcType) : Argument :=
  let argName := arg.argName ++ suffix
  if arg.argType.itString then { argName, argType := type, akbSendRcv := arg.akbSend }
  else
    let plain := !arg.argType.isVariableSizedUntyped
    { argName
      argType := type
      akbRequest := arg.akbRequest && plain
      akbReply := arg.akbReply && plain
      akbSend := arg.akbSend
      akbSendBody := arg.akbSendBody
      akbSendRcv := arg.akbSendRcv }

def countsSubs : Bool := arg.argType.isMultipleKPD && arg.argType.ofVarArrays

def subCountType (number : Nat) (varying : Bool) : IpcType :=
  { itNumber := number, itVarArray := varying, itElement := some {} }

def isCounted : Bool := arg.argType.itVarArray || arg.countsSubs

/-- The master is the argument itself or, for its counts, the one they belong to. -/
def addCount (master : IpcType) : Argument :=
  let count := if master.isMultipleKPD then 1 else arg.argType.itElement.elim 0 (·.itNumber)
  { arg with
    argSubCount := if arg.countsSubs then some count else arg.argSubCount
    argCount := if arg.countsSubs then arg.argCount else some count }

def newCount : Argument :=
  if arg.countsSubs then
    arg.countOf "Subs" (subCountType arg.argType.itKPD_Number arg.argType.itVarArray)
  else arg.countOf "Cnt" {}

/-- The turn of the loop of `rtCheckRoutineArgs` for a declared argument and those for the counts
it adds, which come next. The count of an argument's counts is a count of the argument, too. -/
def check : Except String (List Argument) := do
  let arg ← arg.augmentKind
  if !arg.isCounted then .ok [arg.detectKPD]
  else
    let own := arg.addCount arg.argType
    let count ← arg.newCount.augmentKind
    if !count.argType.itVarArray then .ok [own.detectKPD, count.detectKPD]
    else
      let counted ← count.newCount.augmentKind
      let count := count.addCount arg.argType
      .ok [detectKPD { own with argCount := count.argCount }, count.detectKPD, counted.detectKPD]

/-- `WriteCheckRequest` passes it to `WriteCheckMsgSize`. -/
def isSized : Bool := arg.akbSendRcv && arg.akbSendBody && arg.akbVariable

/-- `WriteOOLSizeCheck` compares its number of elements with a count. -/
def isCompared : Bool :=
  arg.akbSendKPD && arg.argKPD_Type ≠ some .port && arg.isCounted

def comparedCount : Option Nat :=
  if arg.argType.isMultipleKPD then arg.argSubCount else arg.argCount

@[mk_iff]
structure Found : Prop where
  sized : arg.isSized → arg.argCount.isSome ∧ arg.argType.itElement.isSome
  compared : arg.isCompared → arg.comparedCount.isSome
end Argument

structure Declared where
  argName : String
  decl : TypeSpec
  argType : IpcType
  typed : decl.type = .ok argType
  akbRequest : Bool
  akbReply : Bool
  akbSend : Bool
  akbSendBody : Bool
  akbSendRcv : Bool

def Declared.argument (arg : Declared) : Argument := { arg with }

def rtCheckRoutineArgs : List Declared → Except String (List Argument)
  | [] => .ok []
  | arg :: args => do .ok ((← arg.argument.check) ++ (← rtCheckRoutineArgs args))

/-- An optional native in the message's body, or descriptors that vary in number for data of one
size. -/
def Declared.isLost (arg : Declared) : Bool :=
  let it := arg.argType
  arg.akbSendBody &&
    (arg.akbSendRcv && !it.isKernProcData && it.isOptionalNative && !it.itVarArray ||
      !it.itInLine && it.isMultipleKPD && it.itVarArray && !it.ofVarArrays)

theorem var_array_element (decl : TypeSpec) :
    ∀ {it : IpcType}, decl.type = .ok it → it.itVarArray → it.itElement.isSome := by
  induction decl with
  | basic port string | native pointer badValue => rintro it ⟨⟩ ⟨⟩
  | cString count varying =>
    rintro it ⟨⟩ _
    rfl
  | prev old ih =>
    intro it typed _
    obtain ⟨before, _, ⟨⟩⟩ := bind_ok typed
    rfl
  | varArray number old ih | array number old ih | struct number old ih =>
    intro it typed _
    obtain ⟨before, _, made⟩ := bind_ok typed
    simp only [IpcType.varArrayDecl, IpcType.arrayDecl, IpcType.arrayOf, IpcType.structDecl] at made
    split_ifs at made <;> cases made <;> rfl
  | ptr old ih =>
    intro it typed varies
    obtain ⟨before, old_typed, made⟩ := bind_ok typed
    unfold IpcType.ptrDecl at made
    split_ifs at made
    cases made
    have element := ih old_typed
    exact element varies

namespace Argument
variable {arg : Argument}

theorem augment_kind_eq {augmented : Argument} (ok : arg.augmentKind = .ok augmented) :
    augmented = arg.withVariable := by
  unfold augmentKind at ok
  split_ifs at ok
  exact (Except.ok.inj ok).symm

theorem detect_found_iff (untouched : arg.akbSendKPD = false) :
    arg.detectKPD.Found ↔
      if arg.argType.isKernProcData then
        arg.akbSendBody → arg.argType.itInLine = false → arg.isCounted → arg.comparedCount.isSome
      else arg.akbSendRcv → arg.akbSendBody → arg.akbVariable →
        arg.argCount.isSome ∧ arg.argType.itElement.isSome := by
  rw [found_iff]
  cases kernel : arg.argType.isKernProcData with
  | false => simp [detectKPD, isSized, isCompared, kernel, untouched]
  | true =>
    have apart : (if arg.argType.itPortType then KPDType.oolPorts else .ool) ≠ .port := by
      split_ifs <;> simp
    simp [detectKPD, isSized, isCompared, isCounted, countsSubs, comparedCount, kernel, untouched,
      apart]

theorem new_count_body :
    arg.newCount.akbSendKPD = false ∧
      arg.newCount.argType = if arg.countsSubs then
        subCountType arg.argType.itKPD_Number arg.argType.itVarArray else {} := by
  unfold newCount countOf
  split_ifs <;> exact ⟨rfl, rfl⟩

theorem new_count_found {argCount argSubCount : Option Nat}
    (counted : arg.newCount.argType.itVarArray → argCount.isSome) :
    (detectKPD { arg.newCount.withVariable with argCount, argSubCount }).Found := by
  obtain ⟨untouched, type⟩ := arg.new_count_body
  rw [detect_found_iff (by exact untouched)]
  grind [withVariable, IpcType.isKernProcData, IpcType.isOptionalNative,
    IpcType.isVariableSizedUntyped, subCountType]

theorem check_counts {checked : List Argument} (accepted : arg.check = .ok checked)
    (uncounted : arg.argCount = none ∧ arg.argSubCount = none) :
    ∃ argCount argSubCount counts,
      checked = detectKPD { arg.withVariable with argCount, argSubCount } :: counts ∧
        (∀ count ∈ counts, count.Found) ∧ argCount.isSome = arg.argType.itVarArray ∧
          argSubCount.isSome = arg.countsSubs := by
  obtain ⟨augmented, augment, accepted⟩ := bind_ok accepted
  cases augment_kind_eq augment
  have type := arg.withVariable.new_count_body.2
  split_ifs at accepted with counted
  · refine ⟨arg.argCount, arg.argSubCount, [], (Except.ok.inj accepted).symm, by simp, ?_⟩
    grind [isCounted, countsSubs, withVariable]
  · obtain ⟨count, augment, accepted⟩ := bind_ok accepted
    cases augment_kind_eq augment
    split_ifs at accepted with single
    · refine ⟨_, _, _, (Except.ok.inj accepted).symm, ?_, ?_⟩
      · rw [forall_mem_singleton]
        exact new_count_found (by grind [withVariable])
      · grind [isCounted, countsSubs, withVariable, subCountType]
    · obtain ⟨last, augment, accepted⟩ := bind_ok accepted
      cases augment_kind_eq augment
      have plain : arg.withVariable.newCount.withVariable.countsSubs = false := by
        grind [countsSubs, withVariable, subCountType, IpcType.isMultipleKPD]
      have last := arg.withVariable.newCount.withVariable.new_count_body.2
      refine ⟨_, _, _, (Except.ok.inj accepted).symm, ?_, ?_⟩
      · rw [forall_mem_cons, forall_mem_singleton]
        exact ⟨new_count_found (by simp [plain]), new_count_found (by simp [last, plain])⟩
      · grind [isCounted, countsSubs, withVariable, subCountType, addCount]

end Argument

open Argument in
theorem check_found_iff (arg : Declared) {checked : List Argument}
    (accepted : arg.argument.check = .ok checked) :
    (∀ result ∈ checked, result.Found) ↔ arg.isLost = false := by
  have element := var_array_element arg.decl arg.typed
  obtain ⟨argCount, argSubCount, counts, rfl, found, counted, subCounted⟩ :=
    check_counts accepted ⟨rfl, rfl⟩
  rw [forall_mem_cons, and_iff_left found, detect_found_iff rfl]
  simp only [withVariable, isCounted, Declared.argument, countsSubs, comparedCount] at *
  grind [Declared.isLost, IpcType.isVariableSizedUntyped, IpcType.isKernProcData,
    IpcType.isMultipleKPD]

theorem counts_found_iff (args : List Declared) (checked : List Argument)
    (accepted : rtCheckRoutineArgs args = .ok checked) :
    (∀ arg ∈ checked, arg.Found) ↔ ∀ arg ∈ args, arg.isLost = false := by
  induction args generalizing checked with
  | nil =>
    cases accepted
    simp
  | cons arg args ih =>
    obtain ⟨first, checkedFirst, accepted⟩ := bind_ok accepted
    obtain ⟨rest, checkedRest, ⟨⟩⟩ := bind_ok accepted
    rw [forall_mem_append, forall_mem_cons, check_found_iff arg checkedFirst, ih rest checkedRest]

def Declared.request (decl : TypeSpec) {argType : IpcType} (typed : decl.type = .ok argType) :
    Declared :=
  ⟨"data", decl, argType, typed, true, false, true, true, true⟩

theorem var_array_counts_found :
    ∃ checked, rtCheckRoutineArgs [.request (.varArray 4 (.basic false false)) rfl] = .ok checked ∧
      ∀ arg ∈ checked, arg.Found := by
  refine ⟨_, rfl, (counts_found_iff [.request (.varArray 4 (.basic false false)) rfl] _ rfl).2 ?_⟩
  rw [forall_mem_singleton]
  rfl

/-- `array[*:4] of ^int` and a `PointerToIfNot`. -/
theorem counts_lost :
    ∃ checked descriptors optional,
      rtCheckRoutineArgs [.request (.varArray 4 (.ptr (.basic false false))) rfl,
        .request (.native true true) rfl] = .ok checked ∧
      descriptors ∈ checked ∧ descriptors.isCompared ∧ descriptors.comparedCount = none ∧
      optional ∈ checked ∧ optional.isSized ∧ optional.argCount = none := by
  exact ⟨_, _, _, rfl, .head _, rfl, rfl, .tail _ (.tail _ (.head _)), rfl, rfl⟩

end DeveloperTools.Mig.Counts
