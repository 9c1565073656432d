import DeveloperTools.Lib.Upsert
import Mathlib.Tactic.Tauto

/-!
The records of a library (`API`) and the linker symbols they stand for (`API2SymbolConverter`).
The maps of records are lists in the order of insertion. Locations, accesses, flags and the
records without symbols are left out.
-/

namespace DeveloperTools.Tapi

open List

abbrev Text := List Char

inductive SymbolKind
  | globalSymbol | objectiveCClass | objectiveCClassEHType | objectiveCInstanceVariable
  deriving DecidableEq

abbrev Symbol := SymbolKind × Text

def parseSymbol (symbolName : Text) : Symbol :=
  if ".objc_class_name_".toList.isPrefixOf symbolName then
    (.objectiveCClass, symbolName.drop 17)
  else if "_OBJC_CLASS_$_".toList.isPrefixOf symbolName then
    (.objectiveCClass, symbolName.drop 14)
  else if "_OBJC_METACLASS_$_".toList.isPrefixOf symbolName then
    (.objectiveCClass, symbolName.drop 18)
  else if "_OBJC_EHTYPE_$_".toList.isPrefixOf symbolName then
    (.objectiveCClassEHType, symbolName.drop 15)
  else if "_OBJC_IVAR_$_".toList.isPrefixOf symbolName then
    (.objectiveCInstanceVariable, symbolName.drop 13)
  else (.globalSymbol, symbolName)

inductive Linkage
  | unknown | internal | external | reexported | exported
  deriving DecidableEq

def Linkage.rank : Linkage → Nat
  | .unknown => 0
  | .internal => 1
  | .external => 2
  | .reexported => 3
  | .exported => 4

structure APIRecord where
  name : Text
  linkage : Linkage
  isObsolete : Bool := false
  isUnavailable : Bool := false

def APIRecord.isExternal (record : APIRecord) : Bool := record.linkage = .external

def APIRecord.isExported (record : APIRecord) : Bool :=
  record.linkage.rank ≥ Linkage.reexported.rank

def updateAPILinkage (linkage : Linkage) (record : APIRecord) : APIRecord :=
  if record.linkage.rank ≥ linkage.rank then record else { record with linkage := linkage }

inductive AccessControl
  | none | «private» | «protected» | «public» | package
  deriving DecidableEq

structure ObjCInstanceVariableRecord extends APIRecord where
  accessControl : AccessControl

def createName (superClass ivarName : Text) : Text := superClass ++ '.' :: ivarName

structure ObjCCategoryRecord where
  interface : Text
  name : Text
  ivars : List ObjCInstanceVariableRecord := []

def ObjCCategoryRecord.key (record : ObjCCategoryRecord) : Text × Text :=
  (record.interface, record.name)

/-- A class. Its categories are given by their interfaces and names. -/
structure ObjCInterfaceRecord extends APIRecord where
  ivars : List ObjCInstanceVariableRecord := []
  categories : List (Text × Text) := []
  hasExceptionAttribute : Bool := false

structure API where
  globals : List APIRecord := []
  interfaces : List ObjCInterfaceRecord := []
  categories : List ObjCCategoryRecord := []

def splitAtDot (name : Text) : Text × Text :=
  (name.takeWhile (· ≠ '.'), (name.dropWhile (· ≠ '.')).drop 1)

def addGlobal (name : Text) (linkage : Linkage) (api : API) : API :=
  { api with
    globals := upsert APIRecord.name { name, linkage } (updateAPILinkage linkage) api.globals }

def addObjCInterface (name : Text) (linkage : Linkage)
    (change : ObjCInterfaceRecord → ObjCInterfaceRecord) (api : API) : API :=
  { api with
    interfaces := upsert (fun record => record.name) { name, linkage } change api.interfaces }

def addObjCCategory (interface name : Text) (change : ObjCCategoryRecord → ObjCCategoryRecord)
    (api : API) : API :=
  { api with
    categories := upsert ObjCCategoryRecord.key { interface, name } change api.categories }

/-- The symbols of a class can have different linkages; the largest counts. -/
def widen (linkage : Linkage) (record : ObjCInterfaceRecord) : ObjCInterfaceRecord :=
  if linkage.rank ≥ Linkage.reexported.rank then
    { record with toAPIRecord := updateAPILinkage linkage record.toAPIRecord }
  else record

def addGlobalFromBinary (api : API) (symbol : Text × Linkage) : API :=
  let linkage := symbol.2
  match parseSymbol symbol.1 with
  | (.globalSymbol, name) => addGlobal name linkage api
  | (.objectiveCClass, name) => addObjCInterface name linkage (widen linkage) api
  | (.objectiveCClassEHType, name) =>
    addObjCInterface name linkage
      (fun record => widen linkage { record with hasExceptionAttribute := true }) api
  | (.objectiveCInstanceVariable, name) =>
    let superClass := (splitAtDot name).1
    let ivar : ObjCInstanceVariableRecord :=
      { name := (splitAtDot name).2, linkage, accessControl := .none }
    let push record := { record with ivars := record.ivars ++ [ivar] }
    if ∃ record ∈ api.interfaces, record.name = superClass then
      addObjCInterface superClass linkage
        (fun record => { record with ivars := record.ivars ++ [ivar] }) api
    else if ∃ record ∈ api.categories, record.key = (superClass, superClass) then
      addObjCCategory superClass superClass push api
    -- a category without a name, which is linked to no class as there is none
    else addObjCCategory superClass [] push api

def visitGlobal (recordUndefs : Bool) (record : APIRecord) : List Symbol :=
  if record.isExported then [parseSymbol record.name]
  else if recordUndefs && record.isExternal then [(.globalSymbol, record.name)]
  else []

def addIvars (owner : Text) (ivars : List ObjCInstanceVariableRecord) : List Symbol :=
  (ivars.filter fun ivar => ivar.isExported && ivar.accessControl ≠ .private &&
      ivar.accessControl ≠ .package).map fun ivar =>
    (.objectiveCInstanceVariable, createName owner ivar.name)

def visitObjCInterface (api : API) (record : ObjCInterfaceRecord) : List Symbol :=
  (if record.isExported then
      (.objectiveCClass, record.name) ::
        if record.hasExceptionAttribute then [(.objectiveCClassEHType, record.name)] else []
    else []) ++
  addIvars record.name record.ivars ++
  record.categories.flatMap fun key =>
    (api.categories.filter fun category => category.key = key).flatMap fun category =>
      addIvars record.name category.ivars

def visitObjCCategory (record : ObjCCategoryRecord) : List Symbol :=
  addIvars record.name record.ivars

/-- The symbols that are added to the set, in the order of the visit. -/
def convert (recordUndefs : Bool) (api : API) : List Symbol :=
  api.globals.flatMap (visitGlobal recordUndefs) ++
    api.interfaces.flatMap (visitObjCInterface api) ++
    api.categories.flatMap visitObjCCategory

/-- A class symbol or an exception symbol of the class is among the names. -/
def declares (names : List Text) (superClass : Text) : Prop :=
  ∃ name ∈ names, parseSymbol name = (.objectiveCClass, superClass) ∨
    parseSymbol name = (.objectiveCClassEHType, superClass)

instance (names : List Text) (superClass : Text) : Decidable (declares names superClass) :=
  inferInstanceAs (Decidable (∃ name ∈ names, _))

/-- The symbols that one name comes back as behind others. The name of an instance variable is
put together from the name of its container. -/
def rebuilt (front : List Text) (name : Text) : List Symbol :=
  match parseSymbol name with
  | (.objectiveCClassEHType, name) =>
    [(.objectiveCClass, name), (.objectiveCClassEHType, name)]
  | (.objectiveCInstanceVariable, name) =>
    let superClass := (splitAtDot name).1
    [(.objectiveCInstanceVariable,
      createName (if declares front superClass then superClass else []) (splitAtDot name).2)]
  | (kind, name) => [(kind, name)]

def rebuiltAll : List Text → List Text → List Symbol
  | _, [] => []
  | front, name :: rest => rebuilt front name ++ rebuiltAll (front ++ [name]) rest

structure Binary (front : List Text) (api : API) : Prop where
  classes : ∀ superClass,
    (∃ record ∈ api.interfaces, record.name = superClass) ↔ declares front superClass
  globals : ∀ record ∈ api.globals, record.isExported = true
  interfaces : ∀ record ∈ api.interfaces, record.isExported = true ∧ record.categories = []
  categories : ∀ record ∈ api.categories, record.name = []

structure Adds (front : List Text) (name : Text) (before after : API) (extra : List Symbol) :
    Prop where
  binary : Binary (front ++ [name]) after
  symbols : ∀ recordUndefs symbol, symbol ∈ convert recordUndefs after ↔
    symbol ∈ convert recordUndefs before ∨ symbol ∈ extra

variable {symbol : Symbol} {recordUndefs : Bool}

section Step

variable {front : List Text} {api : API} {linkage : Linkage} {name symbolName : Text}

theorem exported_update {record : APIRecord} (isExported : record.isExported = true) :
    (updateAPILinkage linkage record).isExported = true := by
  unfold updateAPILinkage
  split
  · exact isExported
  · simp only [APIRecord.isExported, decide_eq_true_eq] at isExported ⊢
    omega

theorem update_name (record : APIRecord) : (updateAPILinkage linkage record).name = record.name := by
  unfold updateAPILinkage
  split <;> rfl

theorem addIvars_concat {owner : Text} {ivars : List ObjCInstanceVariableRecord}
    (exported : linkage.rank ≥ Linkage.reexported.rank) :
    addIvars owner (ivars ++ [{ name, linkage, accessControl := .none }]) =
      addIvars owner ivars ++ [(.objectiveCInstanceVariable, createName owner name)] := by
  simp [addIvars, APIRecord.isExported, exported]

variable {superClass : Text}

theorem declares_concat :
    declares (front ++ [symbolName]) superClass ↔ declares front superClass ∨
      (parseSymbol symbolName = (.objectiveCClass, superClass) ∨
        parseSymbol symbolName = (.objectiveCClassEHType, superClass)) := by
  simp only [declares, mem_append, mem_singleton, or_and_right, exists_or, exists_eq_left]

theorem visit_class {record : ObjCInterfaceRecord} (isExported : record.isExported = true)
    (none : record.categories = []) : visitObjCInterface {} record =
      (.objectiveCClass, record.name) ::
        ((if record.hasExceptionAttribute then [(.objectiveCClassEHType, record.name)] else []) ++
          addIvars record.name record.ivars) := by
  simp [visitObjCInterface, isExported, none]

theorem widen_keeps (exported : linkage.rank ≥ Linkage.reexported.rank)
    {record : ObjCInterfaceRecord} (isExported : record.isExported = true)
    (none : record.categories = []) :
    (widen linkage record).name = record.name ∧ (widen linkage record).isExported = true ∧
      (widen linkage record).categories = [] ∧
      visitObjCInterface {} (widen linkage record) = visitObjCInterface {} record := by
  have kept : (widen linkage record).isExported = true := by
    rw [widen, if_pos exported]
    exact exported_update isExported
  have isNone : (widen linkage record).categories = [] := by
    rw [widen, if_pos exported]
    exact none
  have name : (widen linkage record).name = record.name := by
    rw [widen, if_pos exported]
    exact update_name _
  refine ⟨name, kept, isNone, ?_⟩
  rw [visit_class kept isNone, visit_class isExported none, name, widen, if_pos exported]

section

variable (binary : Binary front api)
include binary

theorem Binary.mem_convert :
    symbol ∈ convert recordUndefs api ↔
      symbol ∈ api.globals.flatMap (visitGlobal recordUndefs) ∨
        symbol ∈ api.interfaces.flatMap (visitObjCInterface {}) ∨
        symbol ∈ api.categories.flatMap visitObjCCategory := by
  have alone : api.interfaces.flatMap (visitObjCInterface api) =
      api.interfaces.flatMap (visitObjCInterface {}) := by
    apply flatMap_congr
    intro record isIn
    simp [visitObjCInterface, (binary.interfaces record isIn).2]
  rw [convert, alone, mem_append, mem_append, or_assoc]

section

variable (exported : linkage.rank ≥ Linkage.reexported.rank)
include exported

theorem Binary.addObjCInterface {extra : List Symbol}
    {change : ObjCInterfaceRecord → ObjCInterfaceRecord}
    (isClass : ∀ superClass, declares (front ++ [symbolName]) superClass ↔
      declares front superClass ∨ superClass = name)
    (keeps : ∀ record, record.isExported = true ∧ record.categories = [] →
      (change record).name = record.name ∧ (change record).isExported = true ∧
        (change record).categories = [])
    (grows : ∀ record, record.isExported = true → record.categories = [] → record.name = name →
      ∀ symbol, symbol ∈ visitObjCInterface {} (change record) ↔
        symbol ∈ visitObjCInterface {} record ∨ symbol ∈ extra)
    (isExtra : (∃ record ∈ api.interfaces, record.name = name) ∨ (.objectiveCClass, name) ∈ extra) :
    Adds front symbolName api (Tapi.addObjCInterface name linkage change api) extra := by
  have isExported : ({ name, linkage } : APIRecord).isExported = true := decide_eq_true exported
  have after : Binary (front ++ [symbolName]) (Tapi.addObjCInterface name linkage change api) := by
    refine ⟨fun superClass => ?_, binary.globals, ?_, binary.categories⟩
    · have names : superClass ∈ (Tapi.addObjCInterface name linkage change api).interfaces.flatMap
            (fun record => [record.name]) ↔
          superClass ∈ api.interfaces.flatMap (fun record => [record.name]) ∨
            superClass ∈ [name] := by
        apply mem_flatMap_upsert
        · intro record isIn isName
          rw [(keeps record (binary.interfaces record isIn)).1, isName, or_self]
        · intro _
          rw [(keeps _ ⟨isExported, rfl⟩).1]
      rw [isClass, ← binary.classes]
      simpa [mem_flatMap, eq_comm] using names
    · exact forall_mem_upsert binary.interfaces (by exact ⟨isExported, rfl⟩)
        fun record _ holds => (keeps record holds).2
  refine ⟨after, fun recordUndefs symbol => ?_⟩
  rw [after.mem_convert, binary.mem_convert, Tapi.addObjCInterface, mem_flatMap_upsert]
  · tauto
  · intro record isIn isName
    obtain ⟨isExported, none⟩ := binary.interfaces record isIn
    exact grows record isExported none isName symbol
  intro absent
  rw [grows _ isExported rfl rfl symbol, visitObjCInterface, if_pos isExported]
  refine ⟨fun holds => holds.elim (fun isNew => ?_) id, .inr⟩
  rw [mem_singleton.mp isNew]
  exact isExtra.resolve_left fun ⟨record, isIn, isName⟩ => absent record isIn isName

theorem Binary.addObjCCategory
    (noClass : ∀ superClass, declares (front ++ [symbolName]) superClass ↔
      declares front superClass) : Adds front symbolName api
      (Tapi.addObjCCategory superClass [] (fun record =>
        { record with ivars := record.ivars ++ [{ name, linkage, accessControl := .none }] }) api)
      [(.objectiveCInstanceVariable, createName [] name)] := by
  have after : Binary (front ++ [symbolName]) (Tapi.addObjCCategory superClass [] (fun record =>
      { record with ivars := record.ivars ++ [{ name, linkage, accessControl := .none }] }) api) := by
    refine ⟨fun superClass => (binary.classes superClass).trans (noClass superClass).symm,
      binary.globals, binary.interfaces, ?_⟩
    dsimp only [Tapi.addObjCCategory]
    exact forall_mem_upsert binary.categories rfl fun _ _ isName => isName
  refine ⟨after, fun recordUndefs symbol => ?_⟩
  rw [after.mem_convert, binary.mem_convert, Tapi.addObjCCategory, mem_flatMap_upsert]
  · tauto
  · intro record isIn _
    rw [visitObjCCategory, addIvars_concat exported, mem_append, visitObjCCategory,
      binary.categories record isIn]
  · intro _
    rw [visitObjCCategory, addIvars_concat exported]
    rfl

theorem Binary.addGlobal (isGlobal : parseSymbol name = (.globalSymbol, name)) :
    Adds front name api (Tapi.addGlobal name linkage api) [(.globalSymbol, name)] := by
  have isExported : ({ name, linkage } : APIRecord).isExported = true := decide_eq_true exported
  have after : Binary (front ++ [name]) (Tapi.addGlobal name linkage api) := by
    refine ⟨fun superClass => ?_, forall_mem_upsert binary.globals isExported
      fun _ _ holds => exported_update holds, binary.interfaces, binary.categories⟩
    simp [declares_concat, isGlobal, ← binary.classes, Tapi.addGlobal]
  have visited (recordUndefs : Bool) (record : APIRecord) (isExported : record.isExported = true)
      (isName : record.name = name) :
      visitGlobal recordUndefs record = [(.globalSymbol, name)] := by
    rw [visitGlobal, if_pos isExported, isName, isGlobal]
  refine ⟨after, fun recordUndefs symbol => ?_⟩
  rw [after.mem_convert, binary.mem_convert, Tapi.addGlobal, mem_flatMap_upsert]
  · tauto
  · intro record isIn isName
    have isExported := binary.globals record isIn
    rw [visited _ _ isExported isName, visited _ _ (exported_update isExported)
      ((update_name record).trans isName), or_self]
  · intro _
    rw [visited _ _ (exported_update isExported) (update_name _)]

end

theorem Binary.step (name : Text) (exported : linkage.rank ≥ Linkage.reexported.rank) :
    Adds front name api (addGlobalFromBinary api (name, linkage)) (rebuilt front name) := by
  unfold addGlobalFromBinary rebuilt
  split
  next parsed isGlobal =>
    obtain rfl : parsed = name := by
      unfold parseSymbol at isGlobal
      repeat' split at isGlobal
      all_goals cases isGlobal
      rfl
    rw [isGlobal]
    exact binary.addGlobal exported isGlobal
  next parsed isClass =>
    rw [isClass]
    refine binary.addObjCInterface exported (fun superClass => ?_) (fun record holds => ?_)
      (fun record isExported none isName symbol => ?_) (.inr (mem_singleton.mpr rfl))
    · simp [declares_concat, isClass, eq_comm]
    · have kept := widen_keeps exported holds.1 holds.2
      exact ⟨kept.1, kept.2.1, kept.2.2.1⟩
    · rw [(widen_keeps exported isExported none).2.2.2, visit_class isExported none, isName]
      simp only [mem_cons, not_mem_nil]
      tauto
  next parsed isType =>
    rw [isType]
    refine binary.addObjCInterface exported (fun superClass => ?_) (fun record holds => ?_)
      (fun record isExported none isName symbol => ?_) (.inr mem_cons_self)
    · simp [declares_concat, isType, eq_comm]
    · have kept := @widen_keeps linkage exported { record with hasExceptionAttribute := true }
        holds.1 holds.2
      exact ⟨kept.1, kept.2.1, kept.2.2.1⟩
    rw [(@widen_keeps linkage exported { record with hasExceptionAttribute := true } isExported
      none).2.2.2, visit_class isExported none,
      @visit_class { record with hasExceptionAttribute := true } isExported none, isName]
    simp only [if_true, mem_cons, mem_append, not_mem_nil]
    split <;> simp only [mem_cons, not_mem_nil] <;> tauto
  next parsed isIvar =>
    have noClass (superClass : Text) : declares (front ++ [name]) superClass ↔
        declares front superClass := by
      simp [declares_concat, isIvar]
    rw [isIvar]
    dsimp only
    by_cases has : ∃ record ∈ api.interfaces, record.name = (splitAtDot parsed).1
    · have declared := (binary.classes _).mp has
      rw [if_pos has, if_pos declared]
      refine binary.addObjCInterface exported (fun superClass => ?_) (fun record holds => ?_)
        (fun record isExported none isName symbol => ?_) (.inl has)
      · rw [noClass, iff_self_or]
        rintro rfl
        exact declared
      · exact ⟨rfl, holds.1, holds.2⟩
      · rw [visit_class isExported none, visit_class (by exact isExported) (by exact none),
          addIvars_concat exported, isName]
        simp only [mem_cons, mem_append, or_assoc]
    · rw [if_neg has, if_neg fun declared => has ((binary.classes _).mpr declared)]
      split
      next named =>
        obtain ⟨record, isIn, same⟩ := named
        have isName := binary.categories record isIn
        rw [(Prod.mk.inj same).2] at isName
        rw [isName]
        exact binary.addObjCCategory exported noClass
      · exact binary.addObjCCategory exported noClass

end

end Step

variable {symbols : List (Text × Linkage)}

theorem Binary.run :
    ∀ {front : List Text} {api : API}, Binary front api →
      (∀ listed ∈ symbols, listed.2.rank ≥ Linkage.reexported.rank) →
      (symbol ∈ convert recordUndefs (symbols.foldl addGlobalFromBinary api) ↔
        symbol ∈ convert recordUndefs api ∨ symbol ∈ rebuiltAll front (symbols.map Prod.fst)) := by
  induction symbols with
  | nil => simp [rebuiltAll]
  | cons listed rest ih =>
    intro front api binary exported
    obtain ⟨next, added⟩ := binary.step listed.1 (exported listed mem_cons_self)
    rw [foldl_cons, ih next fun other isIn => exported other (.tail _ isIn), added,
      map_cons, rebuiltAll, mem_append, or_assoc]

theorem mem_rebuiltAll (other : symbol.1 ≠ .objectiveCInstanceVariable) {front names : List Text} :
    symbol ∈ rebuiltAll front names ↔ ∃ name ∈ names, parseSymbol name = symbol ∨
      symbol.1 = .objectiveCClass ∧ parseSymbol name = (.objectiveCClassEHType, symbol.2) := by
  obtain ⟨kind, symbolName⟩ := symbol
  induction names generalizing front with
  | nil => simp [rebuiltAll]
  | cons name rest ih =>
    rw [rebuiltAll, mem_append, ih, exists_mem_cons_iff]
    apply or_congr_left
    unfold rebuilt
    obtain ⟨found, parsed⟩ := parseSymbol name
    cases found <;> cases kind <;> first | exact absurd rfl other | simp [eq_comm]

/-- Every instance variable has a dot in its name and comes behind a symbol of its class. -/
def ClassesFirst : List Text → List Text → Prop
  | _, [] => True
  | front, name :: rest =>
    (∀ ivar, parseSymbol name = (.objectiveCInstanceVariable, ivar) →
      '.' ∈ ivar ∧ declares front (splitAtDot ivar).1) ∧ ClassesFirst (front ++ [name]) rest

theorem createName_splitAtDot {ivar : Text} (dotted : '.' ∈ ivar) :
    createName (splitAtDot ivar).1 (splitAtDot ivar).2 = ivar := by
  unfold createName splitAtDot
  induction ivar with
  | nil => cases dotted
  | cons first rest ih =>
    by_cases isDot : first = '.'
    · simp [isDot]
    · have inRest : '.' ∈ rest := (mem_cons.mp dotted).resolve_left (Ne.symm isDot)
      simpa [isDot] using ih inRest

/-- The instance variables then come back under their names. -/
theorem ivars_rebuilt {front names : List Text} (first : ClassesFirst front names) (ivar : Text) :
    (.objectiveCInstanceVariable, ivar) ∈ rebuiltAll front names ↔
      (.objectiveCInstanceVariable, ivar) ∈ names.map parseSymbol := by
  induction names generalizing front with
  | nil => simp [rebuiltAll]
  | cons name rest ih =>
    obtain ⟨here, later⟩ := first
    rw [rebuiltAll, mem_append, ih later, map_cons, mem_cons]
    apply or_congr_left
    unfold rebuilt
    split
    next other isType => simp [isType]
    next other isIvar =>
      obtain ⟨dotted, behind⟩ := here other isIvar
      simp only [if_pos behind, createName_splitAtDot dotted, isIvar, mem_singleton]
    next kind other _ _ parsed => rw [parsed, mem_singleton]

/-- Exported symbols, and with each exception symbol the one of its class. -/
structure Listed (symbols : List (Text × Linkage)) : Prop where
  exported : ∀ symbol ∈ symbols, symbol.2 = .reexported ∨ symbol.2 = .exported
  classes : ∀ symbol ∈ symbols, ∀ name,
    parseSymbol symbol.1 = (.objectiveCClassEHType, name) →
      ∃ other ∈ symbols, parseSymbol other.1 = (.objectiveCClass, name)

/-- The symbols come back as they are listed if and only if the instance variables do. -/
theorem symbols_survive_iff (recordUndefs : Bool) (symbols : List (Text × Linkage))
    (listed : Listed symbols) :
    (∀ symbol, symbol ∈ convert recordUndefs (symbols.foldl addGlobalFromBinary {}) ↔
        symbol ∈ symbols.map fun listed => parseSymbol listed.1) ↔
      ∀ name, (.objectiveCInstanceVariable, name) ∈ rebuiltAll [] (symbols.map Prod.fst) ↔
        (.objectiveCInstanceVariable, name) ∈ symbols.map fun listed => parseSymbol listed.1 := by
  have start : Binary [] {} := ⟨by simp [declares], nofun, nofun, nofun⟩
  have exported (symbol : Text × Linkage) (isIn : symbol ∈ symbols) :
      symbol.2.rank ≥ Linkage.reexported.rank := by
    rcases listed.exported symbol isIn with same | same
    · exact Nat.le_of_eq (congrArg Linkage.rank same).symm
    · rw [same]
      decide
  have converted (symbol : Symbol) :
      symbol ∈ convert recordUndefs (symbols.foldl addGlobalFromBinary {}) ↔
        symbol ∈ rebuiltAll [] (symbols.map Prod.fst) := by
    rw [start.run exported]
    simp [convert]
  simp only [converted]
  refine ⟨fun survive name => survive _, fun ivars ⟨kind, name⟩ => ?_⟩
  by_cases other : kind = .objectiveCInstanceVariable
  · rw [other]
    exact ivars name
  rw [mem_rebuiltAll other]
  simp only [List.mem_map, exists_exists_and_eq_and]
  constructor
  · rintro ⟨listing, isIn, same | ⟨isClass, isType⟩⟩
    · exact ⟨listing, isIn, same⟩
    · obtain ⟨found, isFound, same⟩ := listed.classes listing isIn _ isType
      exact ⟨found, isFound, same.trans (congrArg (·, name) isClass.symm)⟩
  · exact fun ⟨listing, isIn, same⟩ => ⟨listing, isIn, .inl same⟩

theorem listed_of_none (exported : ∀ symbol ∈ symbols, symbol.2 = .exported)
    (none : ∀ symbol ∈ symbols, (parseSymbol symbol.1).1 ≠ .objectiveCClassEHType) :
    Listed symbols where
  exported symbol isIn := .inr (exported symbol isIn)
  classes symbol isIn _ isType := absurd (congrArg Prod.fst isType) (none symbol isIn)

def classThenIvar : List (Text × Linkage) :=
  [("_OBJC_CLASS_$_A".toList, .exported), ("_OBJC_IVAR_$_A.x".toList, .exported)]

theorem class_then_ivar_survives : Listed classThenIvar ∧
      ∀ symbol, symbol ∈ convert false (classThenIvar.foldl addGlobalFromBinary {}) ↔
        symbol ∈ classThenIvar.map fun listed => parseSymbol listed.1 := by
  have listed : Listed classThenIvar := listed_of_none (by decide) (by decide)
  have first : ClassesFirst [] (classThenIvar.map Prod.fst) := by
    refine ⟨nofun, fun ivar isIvar => ?_, trivial⟩
    cases isIvar
    decide
  refine ⟨listed, (symbols_survive_iff false _ listed).mpr fun name => ?_⟩
  rw [ivars_rebuilt first, List.map_map]
  rfl

/-- The class of the instance variable comes behind it. -/
theorem ivar_then_class_renamed : Listed classThenIvar.reverse ∧
      (.objectiveCInstanceVariable, ".x".toList) ∈
        convert false (classThenIvar.reverse.foldl addGlobalFromBinary {}) ∧
      (.objectiveCInstanceVariable, ".x".toList) ∉
        classThenIvar.reverse.map fun listed => parseSymbol listed.1 :=
  ⟨listed_of_none (by decide) (by decide), by decide, by decide⟩

end DeveloperTools.Tapi
