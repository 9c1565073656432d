import DeveloperTools.Tapi.SymbolConverter

/-!
The symbols that `SymbolVerifier` collects from the records of headers, and those that
`API2SymbolConverter` makes of the same records.
-/

namespace DeveloperTools.Tapi

open List

structure VerifierContext where
  /-- Whether a record passes the comparison with the dylib, if there is one (`canVerify`). -/
  compare : Option (APIRecord → Symbol → Bool)
  /-- `ctx.target != Target()` -/
  hasTarget : Bool
  shouldIgnoreReexport : Symbol → Bool

def verifyImpl (ctx : VerifierContext) (record : APIRecord) (symbol : Symbol) : List Symbol :=
  match ctx.compare with
  | none =>
    if ctx.hasTarget && record.isExported && !record.isObsolete && !record.isUnavailable &&
        !ctx.shouldIgnoreReexport symbol then [symbol] else []
  | some passes => if passes record symbol then [symbol] else []

def verifyGlobal (ctx : VerifierContext) (record : APIRecord) : List Symbol :=
  verifyImpl ctx record (parseSymbol record.name)

def ObjCInterfaceRecord.kind (record : ObjCInterfaceRecord) : SymbolKind :=
  if record.hasExceptionAttribute then .objectiveCClassEHType else .objectiveCClass

def verifyInterface (ctx : VerifierContext) (record : ObjCInterfaceRecord) : List Symbol :=
  verifyImpl ctx record.toAPIRecord (record.kind, record.name)

def verifyIvar (ctx : VerifierContext) (superClass : Text) (record : ObjCInstanceVariableRecord) :
    List Symbol :=
  if record.accessControl = .private ∨ record.accessControl = .package then []
  else verifyImpl ctx record.toAPIRecord
    (.objectiveCInstanceVariable, createName superClass record.name)

def verifyAll (ctx : VerifierContext) (api : API) : List Symbol :=
  api.globals.flatMap (verifyGlobal ctx) ++ (api.interfaces.flatMap (verifyInterface ctx) ++
    (api.interfaces.flatMap (fun record => record.ivars.flatMap (verifyIvar ctx record.name)) ++
      api.categories.flatMap fun record => record.ivars.flatMap (verifyIvar ctx record.interface)))

section Symbols

variable (api : API)

def globalSymbols : List Symbol := api.globals.map fun record => parseSymbol record.name

def classIvars : List Symbol := api.interfaces.flatMap fun record => addIvars record.name record.ivars

/-- The instance variables of categories, under their classes. -/
def ownedIvars : List Symbol :=
  api.categories.flatMap fun record => addIvars record.interface record.ivars

def linkedIvars : List Symbol :=
  api.interfaces.flatMap fun record => record.categories.flatMap fun key =>
    (api.categories.filter fun category => category.key = key).flatMap fun category =>
      addIvars record.name category.ivars

def records : List APIRecord :=
  api.globals ++ (api.interfaces.map (·.toAPIRecord) ++
    ((api.interfaces.flatMap (·.ivars) ++ api.categories.flatMap (·.ivars)).map (·.toAPIRecord)))

def verifiedClasses : List Symbol := api.interfaces.map fun record => (record.kind, record.name)

def convertedClasses : List Symbol :=
  api.interfaces.flatMap fun record => (.objectiveCClass, record.name) ::
    if record.hasExceptionAttribute then [(.objectiveCClassEHType, record.name)] else []

def declared : List Symbol :=
  globalSymbols api ++ (verifiedClasses api ++ (classIvars api ++ ownedIvars api))

end Symbols

/-- Records of headers: exported, available and not re-exported, with no dylib to compare with.
The categories of a class are its own. -/
structure FromHeaders (ctx : VerifierContext) (api : API) : Prop where
  noDylib : ctx.compare = none
  hasTarget : ctx.hasTarget = true
  available : ∀ record ∈ records api,
    record.isExported = true ∧ record.isObsolete = false ∧ record.isUnavailable = false
  notReexported : ∀ symbol ∈ declared api, ctx.shouldIgnoreReexport symbol = false
  linked : ∀ record ∈ api.interfaces, ∀ key ∈ record.categories, key.1 = record.name

/-- When the two agree. The verifier misses the class symbol of a class with an exception symbol;
the converter names the instance variables of a category after the category. -/
structure Agrees (api : API) : Prop where
  classes : ∀ record ∈ api.interfaces, record.hasExceptionAttribute = true →
    (.objectiveCClass, record.name) ∈ globalSymbols api ++ verifiedClasses api
  named : ∀ symbol ∈ api.categories.flatMap visitObjCCategory,
    symbol ∈ globalSymbols api ++ (classIvars api ++ ownedIvars api)
  owned : ∀ symbol ∈ ownedIvars api, symbol ∈ globalSymbols api ++
    (classIvars api ++ (linkedIvars api ++ api.categories.flatMap visitObjCCategory))

section Agreement

variable {ctx : VerifierContext} {api : API} {owner : Text} {symbol : Symbol}
  {ivars : List ObjCInstanceVariableRecord}

theorem FromHeaders.verify (headers : FromHeaders ctx api) {record : APIRecord}
    (isRecord : record ∈ records api) (isDeclared : symbol ∈ declared api) :
    verifyImpl ctx record symbol = [symbol] := by
  obtain ⟨exported, current, usable⟩ := headers.available record isRecord
  simp [verifyImpl, headers.noDylib, headers.hasTarget, exported, current, usable,
    headers.notReexported symbol isDeclared]

section

variable (headers : FromHeaders ctx api)
include headers

theorem FromHeaders.verify_ivars (areRecords : ∀ ivar ∈ ivars, ivar.toAPIRecord ∈ records api)
    (areDeclared : ∀ symbol ∈ addIvars owner ivars, symbol ∈ declared api) :
    ivars.flatMap (verifyIvar ctx owner) = addIvars owner ivars := by
  induction ivars with
  | nil => rfl
  | cons ivar rest ih =>
    have isRecord := areRecords ivar mem_cons_self
    have first : addIvars owner (ivar :: rest) =
        (if ivar.accessControl = .private ∨ ivar.accessControl = .package then []
          else [(.objectiveCInstanceVariable, createName owner ivar.name)]) ++
        addIvars owner rest := by
      cases access : ivar.accessControl <;>
        simp [addIvars, (headers.available _ isRecord).1, access]
    rw [first] at areDeclared ⊢
    rw [flatMap_cons, ih (fun other isIn => areRecords other (.tail _ isIn))
      fun symbol isIn => areDeclared symbol (mem_append_right _ isIn), verifyIvar]
    split
    · rfl
    next visible =>
      rw [headers.verify isRecord (areDeclared _ (by simp [visible]))]

theorem FromHeaders.verifyAll_eq : verifyAll ctx api = declared api := by
  unfold verifyAll declared globalSymbols verifiedClasses classIvars ownedIvars
  rw [map_eq_flatMap, map_eq_flatMap]
  congr 1
  · refine flatMap_congr fun record isIn => headers.verify (by simp [records, isIn]) ?_
    exact mem_append_left _ (mem_map_of_mem isIn)
  congr 1
  · refine flatMap_congr fun record isIn => headers.verify ?_ ?_
    · exact mem_append_right _ (mem_append_left _ (mem_map_of_mem isIn))
    · exact mem_append_right _ (mem_append_left _ (mem_map_of_mem isIn))
  congr 1 <;> refine flatMap_congr fun record isIn => headers.verify_ivars ?_ ?_
  · intro ivar isIvar
    simp only [records, map_append, mem_append, mem_map, mem_flatMap]
    exact .inr (.inr (.inl ⟨ivar, ⟨record, isIn, isIvar⟩, rfl⟩))
  · intro symbol isSymbol
    simp only [declared, mem_append]
    exact .inr (.inr (.inl (mem_flatMap.mpr ⟨record, isIn, isSymbol⟩)))
  · intro ivar isIvar
    simp only [records, map_append, mem_append, mem_map, mem_flatMap]
    exact .inr (.inr (.inr ⟨ivar, ⟨record, isIn, isIvar⟩, rfl⟩))
  · intro symbol isSymbol
    simp only [declared, mem_append]
    exact .inr (.inr (.inr (mem_flatMap.mpr ⟨record, isIn, isSymbol⟩)))

theorem FromHeaders.mem_convert :
    symbol ∈ convert false api ↔ symbol ∈ globalSymbols api ∨ symbol ∈ convertedClasses api ∨
      symbol ∈ classIvars api ∨ symbol ∈ linkedIvars api ∨
      symbol ∈ api.categories.flatMap visitObjCCategory := by
  have globals : api.globals.flatMap (visitGlobal false) = globalSymbols api := by
    rw [globalSymbols, map_eq_flatMap]
    refine flatMap_congr fun record isIn => if_pos (headers.available record ?_).1
    exact mem_append_left _ isIn
  have interfaces : symbol ∈ api.interfaces.flatMap (visitObjCInterface api) ↔
      symbol ∈ convertedClasses api ∨ symbol ∈ classIvars api ∨ symbol ∈ linkedIvars api := by
    rw [convertedClasses, classIvars, linkedIvars, mem_flatMap, mem_flatMap,
      mem_flatMap, mem_flatMap]
    simp only [← exists_or, ← and_or_left]
    refine exists_congr fun record => and_congr_right fun isIn => ?_
    have exported := (headers.available record.toAPIRecord (mem_append_right _
      (mem_append_left _ (mem_map_of_mem isIn)))).1
    rw [visitObjCInterface, if_pos exported, mem_append, mem_append, or_assoc]
  rw [convert, globals, mem_append, mem_append, interfaces]
  simp only [or_assoc]

theorem FromHeaders.linked_owned
    (isLinked : symbol ∈ linkedIvars api) : symbol ∈ ownedIvars api := by
  simp only [linkedIvars, mem_flatMap, mem_filter, decide_eq_true_eq] at isLinked
  obtain ⟨record, isIn, key, isKey, category, ⟨isCategory, rfl⟩, isSymbol⟩ := isLinked
  rw [← headers.linked record isIn _ isKey] at isSymbol
  exact mem_flatMap.mpr ⟨category, isCategory, isSymbol⟩

end

theorem verified_made (isClass : symbol ∈ verifiedClasses api) : symbol ∈ convertedClasses api := by
  obtain ⟨record, isIn, rfl⟩ := List.mem_map.mp isClass
  refine mem_flatMap.mpr ⟨record, isIn, ?_⟩
  cases isException : record.hasExceptionAttribute <;> simp [ObjCInterfaceRecord.kind, isException]

theorem Agrees.made_verified (agrees : Agrees api) (isClass : symbol ∈ convertedClasses api) :
    symbol ∈ globalSymbols api ∨ symbol ∈ verifiedClasses api := by
  obtain ⟨record, isIn, isClass⟩ := mem_flatMap.mp isClass
  have verified : (record.kind, record.name) ∈ verifiedClasses api :=
    List.mem_map.mpr ⟨record, isIn, rfl⟩
  cases isException : record.hasExceptionAttribute with
  | false =>
    simp only [isException, Bool.false_eq_true, if_false, mem_singleton] at isClass
    rw [ObjCInterfaceRecord.kind, isException] at verified
    exact .inr (isClass ▸ verified)
  | true =>
    simp only [isException, if_true, mem_cons, not_mem_nil, or_false] at isClass
    rw [ObjCInterfaceRecord.kind, isException] at verified
    rcases isClass with rfl | rfl
    · exact mem_append.mp (agrees.classes record isIn isException)
    · exact .inr verified

theorem class_kind (isClass : symbol ∈ convertedClasses api) :
    symbol.1 ≠ .objectiveCInstanceVariable := by
  obtain ⟨record, _, isClass⟩ := mem_flatMap.mp isClass
  split at isClass <;> simp only [mem_cons, not_mem_nil, or_false] at isClass
  · rcases isClass with rfl | rfl <;> exact nofun
  · rw [isClass]
    exact nofun

theorem ivar_kind {Record : Type} {records : List Record} {owner : Record → Text}
    {ivars : Record → List ObjCInstanceVariableRecord}
    (isIvar : symbol ∈ records.flatMap fun record => addIvars (owner record) (ivars record)) :
    symbol.1 = .objectiveCInstanceVariable := by
  obtain ⟨record, _, isIvar⟩ := mem_flatMap.mp isIvar
  obtain ⟨ivar, _, rfl⟩ := List.mem_map.mp isIvar
  rfl

/-- Without a dylib the verifier collects the symbols that the converter makes, exactly when the
classes and the categories agree. -/
theorem header_exports_iff (ctx : VerifierContext) (api : API) (headers : FromHeaders ctx api) :
    (∀ symbol, symbol ∈ verifyAll ctx api ↔ symbol ∈ convert false api) ↔ Agrees api := by
  simp only [headers.verifyAll_eq, headers.mem_convert, declared, mem_append]
  constructor
  · intro same
    refine ⟨fun record isIn _ => ?_, fun symbol isNamed => ?_, fun symbol isOwned => ?_⟩ <;>
      simp only [mem_append]
    · have made : (.objectiveCClass, record.name) ∈ convertedClasses api :=
        mem_flatMap.mpr ⟨record, isIn, mem_cons_self⟩
      rcases (same _).mpr (.inr (.inl made)) with isGlobal | isClass | isIvar | isIvar
      · exact .inl isGlobal
      · exact .inr isClass
      all_goals exact absurd (ivar_kind isIvar) nofun
    · rcases (same symbol).mpr (.inr (.inr (.inr (.inr isNamed)))) with isGlobal | isClass | isIvar
      · exact .inl isGlobal
      · exact absurd (ivar_kind isNamed) (class_kind (verified_made isClass))
      · exact .inr isIvar
    · rcases (same symbol).mp (.inr (.inr (.inr isOwned))) with isGlobal | isClass | isIvar
      · exact .inl isGlobal
      · exact absurd (ivar_kind isOwned) (class_kind isClass)
      · exact .inr isIvar
  · intro agrees symbol
    have named := agrees.named symbol
    have owned := agrees.owned symbol
    simp only [mem_append] at named owned
    constructor
    · rintro (isGlobal | isClass | isIvar | isOwned)
      · exact .inl isGlobal
      · exact .inr (.inl (verified_made isClass))
      · exact .inr (.inr (.inl isIvar))
      · exact (owned isOwned).imp_right .inr
    · rintro (isGlobal | isClass | isIvar | isLinked | isNamed)
      · exact .inl isGlobal
      · exact (agrees.made_verified isClass).imp_right .inl
      · exact .inr (.inr (.inl isIvar))
      · exact .inr (.inr (.inr (headers.linked_owned isLinked)))
      · exact (named isNamed).imp_right .inr

end Agreement

def noDylib : VerifierContext := ⟨none, true, fun _ => false⟩

def plainHeader : API where
  globals := [{ name := "_f".toList, linkage := .exported }]
  interfaces := [{ name := "A".toList, linkage := .exported, ivars :=
    [{ name := "x".toList, linkage := .exported, accessControl := .public },
      { name := "y".toList, linkage := .exported, accessControl := .private }] }]
  categories := [{ interface := "A".toList, name := "A".toList, ivars :=
    [{ name := "z".toList, linkage := .exported, accessControl := .protected }] }]

theorem plain_header_agrees : FromHeaders noDylib plainHeader ∧
      ∀ symbol, symbol ∈ verifyAll noDylib plainHeader ↔ symbol ∈ convert false plainHeader := by
  have headers : FromHeaders noDylib plainHeader := ⟨rfl, rfl, by decide, fun _ _ => rfl, by decide⟩
  exact ⟨headers, (header_exports_iff _ _ headers).mpr ⟨by decide, by decide, by decide⟩⟩

def exceptionHeader : API where
  interfaces := [{ name := "A".toList, linkage := .exported, hasExceptionAttribute := true }]

theorem exception_class_missed : FromHeaders noDylib exceptionHeader ∧
      (.objectiveCClass, "A".toList) ∈ convert false exceptionHeader ∧
      (.objectiveCClass, "A".toList) ∉ verifyAll noDylib exceptionHeader :=
  ⟨⟨rfl, rfl, by decide, fun _ _ => rfl, by decide⟩, by decide, by decide⟩

end DeveloperTools.Tapi
