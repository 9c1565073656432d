import Mathlib.Data.BitVec
import DeveloperTools.Lib.CString

/-!
`needsBind` decides whether a pointer is bound and whether its addend goes into
the pointer. Addends that do not are kept in the list of bind targets, which
`ChainedInfoAtom::encode` writes as the imports table. `none` stands for an
exception or a failed assertion: the link fails.
-/

namespace DeveloperTools.Ld64.ChainedFixups

/-- `DYLD_CHAINED_PTR_*`. -/
inductive PointerFormat where
  | arm64e
  | arm64eKernel
  | arm64eUserland
  | arm64eUserland24
  | arm64eFirmware
  | ptr64
  | ptr64Offset
  | ptr32
  | ptr32Cache
  | ptr32Firmware
deriving DecidableEq, Repr

def chainedFixupBindAddendFitsInline (accumulator : BitVec 64) : PointerFormat → Option Bool
  | .arm64e | .arm64eKernel | .arm64eUserland | .arm64eUserland24 | .arm64eFirmware =>
    some (accumulator.toNat < 0x40000 || 0xFFFFFFFFFFFC0000 ≤ accumulator.toNat)
  | .ptr64 | .ptr64Offset => some (accumulator.toNat ≤ 255)
  | .ptr32 => some (accumulator.toNat ≤ 63)
  | .ptr32Cache => none
  | .ptr32Firmware => some (accumulator = 0)

inductive Definition where
  | regular
  | tentative
  | absolute
  | proxy
deriving DecidableEq, Repr

inductive Scope where
  | translationUnit
  | linkageUnit
  | global
deriving DecidableEq, Repr

inductive Combine where
  | never
  | byName
  | byNameAndContent
  | byNameAndReferences
deriving DecidableEq, Repr

/-- What is read of the file of an atom. `forcedWeakLinked` is what the cast to
`ld::dylib::File` finds, and `ordinal` the entry of `_dylibToOrdinal`. -/
structure FileInfo where
  forcedWeakLinked : Bool
  isDylib : Bool
  ordinal : Option Int
deriving DecidableEq, Repr

/-- What is read of an atom. `followOns` are the targets of its directly bound
follow-on fixups that start a cluster. -/
structure AtomInfo (Atom : Type) where
  name : CString
  definition : Definition
  scope : Scope
  combine : Combine
  isThumb : Bool
  finalAddress : BitVec 64
  isAlias : Bool
  followOns : List Atom
  weakImported : Bool
  file : Option FileInfo

structure Writer (Atom : Type) where
  atoms : Atom → AtomInfo Atom
  chainedPointerFormat : PointerFormat
  dyldOrKernelLoadsOutput : Bool
  isDynamicExecutable : Bool
  isKextBundle : Bool
  twoLevelNameSpace : Bool
  interposable : CString → Bool
  forceCoalesce : CString → Bool
  undefinedDynamicLookup : Bool
  sharedRegionEligible : Bool
  allowedUndefined : CString → Bool
  machHeaderVmAddr : BitVec 64
  /-- The size of `_dylibToOrdinal`. -/
  maxLibOrdinal : Nat
  maxRebase : BitVec 64

def dylibSelf : Int := 0
def dylibFlatLookup : Int := -2
def dylibWeakLookup : Int := -3

inductive Reference where
  | rebase
  | bind
  | weakBind
deriving DecidableEq, Repr

section Binding

variable {Atom : Type} (writer : Writer Atom)

/-- If the target is an import alias, the base of the alias is used. -/
def aliasBase (target : Atom) : Atom :=
  let info := writer.atoms target
  if info.isAlias ∧ info.definition = .proxy then info.followOns.getLast?.getD target else target

def reference (info : AtomInfo Atom) : Reference :=
  match info.definition with
  | .proxy =>
    -- a weak def symbol from a dylib
    if info.combine = .byName then .weakBind else .bind
  | .regular | .tentative =>
    if info.scope ≠ .global then .rebase
    else if info.combine = .byName ∧ info.definition = .regular ∧ writer.dyldOrKernelLoadsOutput then
      .weakBind
    else if writer.isDynamicExecutable then .rebase
    else if ¬ writer.twoLevelNameSpace ∨ writer.interposable info.name then .bind
    else if writer.forceCoalesce info.name then .weakBind
    else .rebase
  | .absolute => .rebase

/-- The thumb bit should not be in the addend. -/
def clearThumb (info : AtomInfo Atom) (value : BitVec 64) : BitVec 64 :=
  if info.isThumb then value &&& ~~~1#64 else value

def bindAddend (info : AtomInfo Atom) (accumulator : BitVec 64) : BitVec 64 :=
  match reference writer info with
  | .rebase => accumulator
  | .bind =>
    if info.definition = .proxy then accumulator
    else clearThumb info accumulator - info.finalAddress
  | .weakBind => clearThumb info (accumulator - info.finalAddress)

/-- What `needsBind` returns and leaves in its reference parameters. -/
structure Need (Atom : Type) where
  isBind : Bool
  target : Atom
  accumulator : BitVec 64
  inlineAddend : BitVec 64

def needsBind (toTarget : Atom) (authPtr : Bool) (accumulator : BitVec 64) : Option (Need Atom) :=
  let target := aliasBase writer toTarget
  let info := writer.atoms target
  if reference writer info = .rebase then some ⟨false, target, accumulator, 0⟩
  else
    let addend := bindAddend writer info accumulator
    if authPtr then some ⟨true, target, addend, 0⟩
    else
      (chainedFixupBindAddendFitsInline addend writer.chainedPointerFormat).map fun fits =>
        if fits then ⟨true, target, 0, addend⟩ else ⟨true, target, addend, 0⟩

def compressedOrdinalForAtom (info : AtomInfo Atom) : Option Int :=
  if ¬ writer.twoLevelNameSpace then some dylibFlatLookup
  else if info.definition = .regular ∨ info.definition = .tentative then some dylibSelf
  else
    match info.file.filter FileInfo.isDylib with
    | some dylib => dylib.ordinal
    | none =>
      if writer.undefinedDynamicLookup then
        if writer.sharedRegionEligible ∧ ¬ writer.isKextBundle then none
        else some dylibFlatLookup
      else if writer.allowedUndefined info.name then some dylibFlatLookup
      else none

variable {writer} in
theorem compressed_ordinal_cases {info : AtomInfo Atom} {ordinal : Int}
    (returned : compressedOrdinalForAtom writer info = some ordinal) :
    -3 ≤ ordinal ∧ ordinal ≤ 0 ∨
      ∃ dylib, info.file = some dylib ∧ dylib.isDylib = true ∧ dylib.ordinal = some ordinal := by
  have special {value : Int} (range : -3 ≤ value ∧ value ≤ 0) (same : some value = some ordinal) :
      -3 ≤ ordinal ∧ ordinal ≤ 0 := Option.some.inj same ▸ range
  unfold compressedOrdinalForAtom at returned
  split at returned
  · exact Or.inl (special (by decide) returned)
  split at returned
  · exact Or.inl (special (by decide) returned)
  split at returned
  next dylib found =>
    obtain ⟨isFile, isDylib⟩ := Option.filter_eq_some_iff.mp found
    exact Or.inr ⟨dylib, isFile, isDylib, returned⟩
  · split_ifs at returned
    all_goals exact Or.inl (special (by decide) returned)

def libOrdinal (info : AtomInfo Atom) : Option Int :=
  if reference writer info = .weakBind then some dylibWeakLookup
  else compressedOrdinalForAtom writer info

def weakImport (info : AtomInfo Atom) : Bool :=
  info.weakImported || info.file.any FileInfo.forcedWeakLinked

end Binding

section Targets

variable {Atom : Type}

/-- The ordinals are `uint32_t`. -/
structure ChainedFixupBinds (Atom : Type) where
  bindOrdinalsWithNoAddend : Atom → Option Nat := fun _ => none
  bindsTargets : List (Atom × BitVec 64) := []
  hasLargeAddends : Bool := false
  hasHugeAddends : Bool := false

variable [DecidableEq Atom]

def ChainedFixupBinds.ensureTarget (binds : ChainedFixupBinds Atom) (atom : Atom) (authPtr : Bool)
    (addend : BitVec 64) : ChainedFixupBinds Atom :=
  if addend = 0 then
    if (binds.bindOrdinalsWithNoAddend atom).isSome then binds
    else
      { binds with
        bindOrdinalsWithNoAddend := Function.update binds.bindOrdinalsWithNoAddend atom
          (some (binds.bindsTargets.length % 2 ^ 32))
        bindsTargets := binds.bindsTargets ++ [(atom, 0)] }
  else if (atom, addend) ∈ binds.bindsTargets then binds
  else
    let huge : Bool := 0xFFFFFFFF < addend.toNat
    -- auth-pointer binds have no bit for an addend
    let large : Bool := if authPtr then addend ≠ 0 else 255 < addend.toNat
    { binds with
      bindsTargets := binds.bindsTargets ++ [(atom, addend)]
      hasHugeAddends := binds.hasHugeAddends || huge
      hasLargeAddends := binds.hasLargeAddends || (!huge && large) }

def ChainedFixupBinds.ordinal (binds : ChainedFixupBinds Atom) (atom : Atom) (addend : BitVec 64) :
    Option Nat :=
  if addend = 0 then binds.bindOrdinalsWithNoAddend atom
  else (binds.bindsTargets.findIdx? (· = (atom, addend))).map (· % 2 ^ 32)

/-- Whether the strings of the imports take 8 MB; the sum is a `uint32_t`. -/
def ChainedFixupBinds.hasHugeSymbolStrings {Atom : Type} (writer : Writer Atom)
    (binds : ChainedFixupBinds Atom) : Bool :=
  if binds.bindsTargets.length < 9000 then false
  else
    0x00800000 ≤
      (binds.bindsTargets.map fun entry => (writer.atoms entry.1).name.chars.length + 1).sum % 2 ^ 32

end Targets

abbrev Bytes := List UInt8

structure DyldChainedImport where
  libOrdinal : BitVec 8
  weakImport : Bool
  nameOffset : BitVec 23
deriving DecidableEq, Repr

/-- `dyld_chained_import_addend`, whose addend is an `int32_t`. -/
structure DyldChainedImportAddend where
  libOrdinal : BitVec 8
  weakImport : Bool
  nameOffset : BitVec 23
  addend : BitVec 32
deriving DecidableEq, Repr

structure DyldChainedImportAddend64 where
  libOrdinal : BitVec 16
  weakImport : Bool
  nameOffset : BitVec 32
  addend : BitVec 64
deriving DecidableEq, Repr

def makeImport (libOrdinal : Int) (weakImport : Bool) (nameOffset : Nat) (_addend : BitVec 64) :
    Option DyldChainedImport :=
  if (BitVec.ofNat 23 nameOffset).toNat = nameOffset then
    some ⟨BitVec.ofInt 8 libOrdinal, weakImport, BitVec.ofNat 23 nameOffset⟩
  else none

def makeImportAddend (libOrdinal : Int) (weakImport : Bool) (nameOffset : Nat)
    (addend : BitVec 64) : Option DyldChainedImportAddend :=
  if (addend.setWidth 32).signExtend 64 = addend ∧
      (BitVec.ofNat 23 nameOffset).toNat = nameOffset then
    some ⟨BitVec.ofInt 8 libOrdinal, weakImport, BitVec.ofNat 23 nameOffset, addend.setWidth 32⟩
  else none

def makeImportAddend64 (libOrdinal : Int) (weakImport : Bool) (nameOffset : Nat)
    (addend : BitVec 64) : Option DyldChainedImportAddend64 :=
  some ⟨BitVec.ofInt 16 libOrdinal, weakImport, BitVec.ofNat 32 nameOffset, addend⟩

inductive Imports where
  | chainedImport (imports : List DyldChainedImport)
  | chainedImportAddend (imports : List DyldChainedImportAddend)
  | chainedImportAddend64 (imports : List DyldChainedImportAddend64)
deriving DecidableEq, Repr

/-- What `ChainedInfoAtom::encode` writes behind the starts table. -/
structure ChainedInfo where
  imports : Imports
  stringPool : Bytes
deriving DecidableEq, Repr

section Encoding

variable {Atom : Type} (writer : Writer Atom)

/-- The callback of `forEachBind`, for the record that `make` makes. -/
def importEntries {Record : Type} (make : Int → Bool → Nat → BitVec 64 → Option Record) :
    List (Atom × BitVec 64) → Bytes → Option (List Record × Bytes)
  | [], stringPool => some ([], stringPool)
  | (importAtom, addend) :: rest, stringPool => do
    let need ← needsBind writer importAtom false addend
    guard need.isBind
    let info := writer.atoms need.target
    let ordinal ← libOrdinal writer info
    let record ← make ordinal (weakImport info) (stringPool.length % 2 ^ 32) addend
    let (records, pool) ← importEntries make rest (stringPool ++ info.name.chars ++ [0])
    some (record :: records, pool)

/-- `ChainedInfoAtom::encode`, from where it builds imports and symbol table. -/
def encode (binds : ChainedFixupBinds Atom) : Option ChainedInfo :=
  if binds.hasHugeSymbolStrings writer ∨ 240 < writer.maxLibOrdinal ∨ binds.hasHugeAddends then
    (importEntries writer makeImportAddend64 binds.bindsTargets [0]).map fun made =>
      ⟨.chainedImportAddend64 made.1, made.2⟩
  else if binds.hasLargeAddends then
    (importEntries writer makeImportAddend binds.bindsTargets [0]).map fun made =>
      ⟨.chainedImportAddend made.1, made.2⟩
  else
    (importEntries writer makeImport binds.bindsTargets [0]).map fun made =>
      ⟨.chainedImport made.1, made.2⟩

end Encoding

structure ImportView where
  libOrdinal : Int
  weakImport : Bool
  name : Bytes
  addend : BitVec 64
deriving DecidableEq, Repr

/-- 0xF1 or greater is considered negative, and 0xFFF1 in the wide format. -/
def readLibOrdinal {width : Nat} (ordinal : BitVec width) : Int :=
  if 2 ^ width - 16 < ordinal.toNat then ordinal.toInt else ordinal.toNat

def ChainedInfo.readName (info : ChainedInfo) (offset : Nat) : Option Bytes :=
  (readString (info.stringPool.drop offset)).map Prod.fst

def ChainedInfo.readImport (info : ChainedInfo) (ordinal : Nat) : Option ImportView :=
  match info.imports with
  | .chainedImport imports => do
    let record ← imports[ordinal]?
    let name ← info.readName record.nameOffset.toNat
    some ⟨readLibOrdinal record.libOrdinal, record.weakImport, name, 0⟩
  | .chainedImportAddend imports => do
    let record ← imports[ordinal]?
    let name ← info.readName record.nameOffset.toNat
    some ⟨readLibOrdinal record.libOrdinal, record.weakImport, name, record.addend.signExtend 64⟩
  | .chainedImportAddend64 imports => do
    let record ← imports[ordinal]?
    let name ← info.readName record.nameOffset.toNat
    some ⟨readLibOrdinal record.libOrdinal, record.weakImport, name, record.addend⟩

structure AuthData where
  discriminator : BitVec 16
  hasAddressDiversity : Bool
  key : BitVec 2
deriving DecidableEq, Repr

/-- A chained pointer before it is linked to the next one: the fields of the
bind and rebase structs that are not constant. -/
inductive ChainedPointer where
  | bind64 (ordinal : BitVec 24) (addend : BitVec 8)
  | bindArm64e (ordinal : BitVec 16) (addend : BitVec 19)
  | bindArm64e24 (ordinal : BitVec 24) (addend : BitVec 19)
  | authBind (ordinal : BitVec 16) (auth : AuthData)
  | authBind24 (ordinal : BitVec 24) (auth : AuthData)
  | bind32 (ordinal : BitVec 20) (addend : BitVec 6)
  | rebase64 (target : BitVec 36) (high8 : BitVec 8)
  | rebaseArm64e (target : BitVec 43) (high8 : BitVec 8)
  | authRebase (target : BitVec 32) (auth : AuthData)
  | rebase32 (target : BitVec 26)
  | firmwareRebase32 (target : BitVec 26)
deriving DecidableEq, Repr

/-- A bit field whose content is asserted to be the value. -/
def storeField (width value : Nat) : Option (BitVec width) :=
  if (BitVec.ofNat width value).toNat = value then some (BitVec.ofNat width value) else none

/-- A rebase target and its high 8 bits, asserted to be the whole value. -/
def storeRebase (width : Nat) (value : BitVec 64) : Option (BitVec width × BitVec 8) :=
  let high8 := (value >>> 56).setWidth 8
  let target := value.setWidth width
  if high8.setWidth 64 <<< 56 + target.setWidth 64 = value then some (target, high8) else none

section Pointers

variable {Atom : Type} [DecidableEq Atom] (writer : Writer Atom) (binds : ChainedFixupBinds Atom)

/-- `needsBind` with all its parameters, where an ordinal is looked up. -/
def needsOrdinal (toTarget : Atom) (authPtr : Bool) (accumulator : BitVec 64) :
    Option (Need Atom × Nat) := do
  let need ← needsBind writer toTarget authPtr accumulator
  let bindOrdinal ← if need.isBind then binds.ordinal need.target need.accumulator else some 0
  some (need, bindOrdinal)

def setFixup64 (accumulator : BitVec 64) (toTarget : Atom) : Option ChainedPointer := do
  let (need, bindOrdinal) ← needsOrdinal writer binds toTarget false accumulator
  match writer.chainedPointerFormat with
  | .ptr64 =>
    if need.isBind then
      (storeField 24 bindOrdinal).map fun ordinal =>
        .bind64 ordinal (need.inlineAddend.setWidth 8)
    else
      (storeRebase 36 need.accumulator).map fun (target, high8) => .rebase64 target high8
  | .ptr64Offset =>
    if need.isBind then
      (storeField 24 bindOrdinal).map fun ordinal =>
        .bind64 ordinal (need.inlineAddend.setWidth 8)
    else
      (storeRebase 36 (need.accumulator - writer.machHeaderVmAddr)).map fun (target, high8) =>
        .rebase64 target high8
  | .arm64e | .arm64eFirmware =>
    if need.isBind then
      (storeField 16 bindOrdinal).map fun ordinal =>
        .bindArm64e ordinal (need.inlineAddend.setWidth 19)
    else
      (storeRebase 43 need.accumulator).map fun (target, high8) => .rebaseArm64e target high8
  | .arm64eKernel | .arm64eUserland =>
    if need.isBind then
      (storeField 16 bindOrdinal).map fun ordinal =>
        .bindArm64e ordinal (need.inlineAddend.setWidth 19)
    else
      (storeRebase 43 (need.accumulator - writer.machHeaderVmAddr)).map fun (target, high8) =>
        .rebaseArm64e target high8
  | .arm64eUserland24 =>
    if need.isBind then
      (storeField 24 bindOrdinal).map fun ordinal =>
        .bindArm64e24 ordinal (need.inlineAddend.setWidth 19)
    else
      (storeRebase 43 (need.accumulator - writer.machHeaderVmAddr)).map fun (target, high8) =>
        .rebaseArm64e target high8
  | .ptr32 | .ptr32Cache | .ptr32Firmware => none

def setFixup64e (accumulator : BitVec 64) (authData : AuthData) (toTarget : Atom) :
    Option ChainedPointer := do
  let (need, bindOrdinal) ← needsOrdinal writer binds toTarget true accumulator
  match writer.chainedPointerFormat with
  | .arm64e | .arm64eKernel | .arm64eUserland | .arm64eFirmware =>
    if need.isBind then
      (storeField 16 bindOrdinal).map fun ordinal => .authBind ordinal authData
    else
      (storeField 32 (need.accumulator - writer.machHeaderVmAddr).toNat).map fun target =>
        .authRebase target authData
  | .arm64eUserland24 =>
    if need.isBind then
      (storeField 24 bindOrdinal).map fun ordinal => .authBind24 ordinal authData
    else
      (storeField 32 (need.accumulator - writer.machHeaderVmAddr).toNat).map fun target =>
        .authRebase target authData
  | .ptr64 | .ptr64Offset | .ptr32 | .ptr32Cache | .ptr32Firmware => none

def setFixup32 (accumulator : BitVec 64) (toTarget : Atom) : Option ChainedPointer := do
  let (need, bindOrdinal) ← needsOrdinal writer binds toTarget false accumulator
  match writer.chainedPointerFormat with
  | .ptr32 =>
    if need.isBind then
      (storeField 20 bindOrdinal).map fun ordinal =>
        .bind32 ordinal (need.inlineAddend.setWidth 6)
    else do
      let target ← storeField 26 need.accumulator.toNat
      guard (need.accumulator < writer.maxRebase)
      some (.rebase32 target)
  | .ptr32Firmware => do
    -- written as a rebase, whatever the target is
    let target ← storeField 26 need.accumulator.toNat
    guard (need.accumulator < writer.maxRebase)
    some (.firmwareRebase32 target)
  | _ => none

end Pointers

inductive Store where
  | littleEndian32
  | littleEndian64
  | auth64 (data : AuthData)
deriving DecidableEq, Repr

def Store.authPtr : Store → Bool
  | .auth64 _ => true
  | _ => false

structure PointerFixup (Atom : Type) where
  store : Store
  target : Atom
  addend : BitVec 64

section Linking

variable {Atom : Type} [DecidableEq Atom] (writer : Writer Atom)

def PointerFixup.accumulator {Atom : Type} (writer : Writer Atom) (fixup : PointerFixup Atom) :
    BitVec 64 :=
  let info := writer.atoms fixup.target
  (if info.isThumb then info.finalAddress ||| 1#64 else info.finalAddress) + fixup.addend

/-- What `buildChainedFixupInfo` does for each pointer. -/
def noteTarget (binds : ChainedFixupBinds Atom) (fixup : PointerFixup Atom) :
    Option (ChainedFixupBinds Atom) :=
  (needsBind writer fixup.target fixup.store.authPtr (fixup.accumulator writer)).map fun need =>
    if need.isBind then binds.ensureTarget need.target fixup.store.authPtr need.accumulator
    else binds

def buildTargets (fixups : List (PointerFixup Atom)) : Option (ChainedFixupBinds Atom) :=
  fixups.foldlM (noteTarget writer) {}

/-- What `applyFixUps` does for each pointer. -/
def setFixup (binds : ChainedFixupBinds Atom) (fixup : PointerFixup Atom) : Option ChainedPointer :=
  match fixup.store with
  | .littleEndian32 => setFixup32 writer binds (fixup.accumulator writer) fixup.target
  | .littleEndian64 => setFixup64 writer binds (fixup.accumulator writer) fixup.target
  | .auth64 data => setFixup64e writer binds (fixup.accumulator writer) data fixup.target

def link (fixups : List (PointerFixup Atom)) : Option (ChainedInfo × List ChainedPointer) := do
  let binds ← buildTargets writer fixups
  let info ← encode writer binds
  let pointers ← fixups.mapM (setFixup writer binds)
  some (info, pointers)

end Linking

end DeveloperTools.Ld64.ChainedFixups
