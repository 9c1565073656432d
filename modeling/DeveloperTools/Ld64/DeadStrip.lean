import DeveloperTools.Lib.Marking
import DeveloperTools.Ld64.FixupKinds

/-!
Dead stripping (`Resolver::deadStripOptimize`): the roots are marked, `markLive` follows the
fixups of the kinds it lists, and what is neither live nor kept for another reason is removed
from `_atoms`.

Atoms are referred to by an arbitrary finite type. What the pass only reads of an atom is in
`Atom`; the live flags, the fixups, which are bound to slots on the way, and the symbol table
are the state. An assertion that fails ends the run, and so does a read past the end of the
slot table.
-/

namespace DeveloperTools.Ld64.DeadStrip

open Marking

inductive Scope
  | translationUnit | linkageUnit | «global»
  deriving DecidableEq

inductive Combine
  | never | byName | byNameAndContent | byNameAndReferences
  deriving DecidableEq

inductive OutputKind
  | dynamicExecutable | staticExecutable | dynamicLibrary | dynamicBundle | objectFile | dyld
  | preload | kextBundle
  deriving DecidableEq

structure Atom where
  name : String
  safeFilePath : String
  scope : Scope
  combine : Combine
  definitionProxy : Bool
  typeLTOtemporary : Bool
  dontDeadStrip : Bool
  dontDeadStripIfReferencesLive : Bool
  coalescedAway : Bool
  -- whether the section's type has a table to coalesce in
  coalescesByContent : Bool
  coalescesByReferences : Bool

inductive Binding (Ref : Type)
  | none
  | byNameUnbound (name : String)
  | directlyBound (target : Ref)
  | byContentBound (target : Ref)
  | indirectlyBound (slot : Nat)

structure Fixup (Ref : Type) where
  kind : Kind
  binding : Binding Ref

/-- The options and the atoms, which the pass only reads. -/
structure Link (Ref : Type) where
  atom : Ref → Atom
  -- the keys of the tables for coalescing
  sameContent : Ref → Ref → Bool
  sameReferences : Ref → Ref → Bool
  -- what a search of the archives binds a name to
  archived : String → Option Ref
  outputKind : OutputKind
  entryName : Option String
  initFunctionName : Option String
  initialUndefines : List String
  classicBindingHelper : Option Ref
  compressedFastBinderProxy : Option Ref
  lazyBindingHelper : Option Ref
  objcMsgSendProxy : Option Ref
  deadCodeStrip : Bool
  hasWildCardExportRestrictList : Bool
  allGlobalsAreDeadStripRoots : Bool
  shouldExport : String → Bool
  haveLLVMObjs : Bool

structure State (Ref : Type) where
  atoms : List Ref
  live : Ref → Bool
  fixups : Ref → List (Fixup Ref)
  indirectBindingTable : List (Option Ref)
  byNameTable : List (String × Nat)
  contentTable : List (Ref × Nat)
  referencesTable : List (Ref × Nat)
  -- the atoms at which a chain of `WhyLiveBackChain` starts
  rooted : List Ref

inductive Stop
  | assertion | undefined | entryUndefined | initInDylib | depth
  deriving DecidableEq

variable {Ref : Type} [DecidableEq Ref]

/-- The kinds `markLive` lists. -/
def followed : Kind → Bool
  | .none | .noneFollowOn | .noneGroupSubordinate | .noneGroupSubordinateFDE
  | .noneGroupSubordinateLSDA | .noneGroupSubordinatePersonality
  | .setTargetAddress | .subtractTargetAddress
  | .storeTargetAddressLittleEndian32 | .storeTargetAddressLittleEndian64
  | .storeTargetAddressLittleEndianAuth64
  | .storeTargetAddressBigEndian32 | .storeTargetAddressBigEndian64
  | .storeTargetAddressX86PCRel32 | .storeTargetAddressX86BranchPCRel32
  | .storeTargetAddressX86PCRel32GOTLoad | .storeTargetAddressX86PCRel32GOTLoadNowLEA
  | .storeTargetAddressX86PCRel32TLVLoad | .storeTargetAddressX86PCRel32TLVLoadNowLEA
  | .storeTargetAddressX86Abs32TLVLoad | .storeTargetAddressX86Abs32TLVLoadNowLEA
  | .storeTargetAddressARMBranch24 | .storeTargetAddressThumbBranch22
  | .storeTargetAddressARM64Branch26 | .storeTargetAddressARM64Page21
  | .storeTargetAddressARM64GOTLoadPage21 | .storeTargetAddressARM64GOTLeaPage21
  | .storeTargetAddressARM64TLVPLoadPage21 | .storeTargetAddressARM64TLVPLoadNowLeaPage21 =>
    true
  | _ => false

section SymbolTable

variable (link : Link Ref)

/-- The slot of a name; one that has no slot yet is given an empty one. -/
def findSlotForName (name : String) (state : State Ref) : Nat × State Ref :=
  match state.byNameTable.lookup name with
  | some slot => (slot, state)
  | none =>
    (state.indirectBindingTable.length,
      { state with
        indirectBindingTable := state.indirectBindingTable ++ [none]
        byNameTable := (name, state.indirectBindingTable.length) :: state.byNameTable })

def findSlotForContent (atom : Ref) (state : State Ref) : Except Stop (Nat × State Ref) :=
  if !(link.atom atom).coalescesByContent then .error .assertion
  else match state.contentTable.find? fun entry => link.sameContent entry.1 atom with
  | some entry => .ok (entry.2, state)
  | none =>
    .ok (state.indirectBindingTable.length,
      { state with
        indirectBindingTable := state.indirectBindingTable ++ [some atom]
        contentTable := (atom, state.indirectBindingTable.length) :: state.contentTable })

def findSlotForReferences (atom : Ref) (state : State Ref) : Except Stop (Nat × State Ref) :=
  if !(link.atom atom).coalescesByReferences then .error .assertion
  else match state.referencesTable.find? fun entry => link.sameReferences entry.1 atom with
  | some entry => .ok (entry.2, state)
  | none =>
    .ok (state.indirectBindingTable.length,
      { state with
        indirectBindingTable := state.indirectBindingTable ++ [some atom]
        referencesTable := (atom, state.indirectBindingTable.length) :: state.referencesTable })

end SymbolTable

def setLive (atom : Ref) (state : State Ref) : State Ref :=
  { state with live := Function.update state.live atom true }

/-- `fit->binding = bindingsIndirectlyBound; fit->u.bindingIndex = slot`. -/
def rebind (atom : Ref) (index slot : Nat) (state : State Ref) : State Ref :=
  { state with
    fixups := Function.update state.fixups atom
      ((state.fixups atom).modify index fun fixup =>
        { fixup with binding := .indirectlyBound slot }) }

section Marking

variable (link : Link Ref)

def visitSlot (visit : Ref → State Ref → Except Stop (State Ref)) (slot : Nat)
    (state : State Ref) : Except Stop (State Ref) :=
  match state.indirectBindingTable[slot]? with
  | none => .error .undefined
  | some none => .ok state
  | some (some target) => visit target state

/-- The body of the loop over the fixups in `markLive`; `visit` is the recursive call. -/
def visitFixup (visit : Ref → State Ref → Except Stop (State Ref)) (atom : Ref)
    (state : State Ref) (index : Nat) : Except Stop (State Ref) :=
  match (state.fixups atom)[index]? with
  | none => .ok state
  | some fixup =>
    if !followed fixup.kind then .ok state
    else match fixup.binding with
    | .none => .error .assertion
    | .directlyBound target => visit target state
    | .indirectlyBound slot => visitSlot visit slot state
    | .byNameUnbound name =>
      let (slot, state) := findSlotForName name state
      visitSlot visit slot (rebind atom index slot state)
    | .byContentBound target =>
      match (link.atom target).combine with
      | .never | .byName => .error .assertion
      | .byNameAndContent =>
        match findSlotForContent link target state with
        | .error stop => .error stop
        | .ok (slot, state) => visitSlot visit slot (rebind atom index slot state)
      | .byNameAndReferences =>
        match findSlotForReferences link target state with
        | .error stop => .error stop
        | .ok (slot, state) => visitSlot visit slot (rebind atom index slot state)

def markLive : Nat → Ref → State Ref → Except Stop (State Ref)
  | 0, _, _ => .error .depth
  | depth + 1, atom, state =>
    if state.live atom then .ok state
    else (List.range (state.fixups atom).length).foldlM
      (visitFixup link (markLive depth) atom) (setLive atom state)

end Marking

def targetIn (table : List (Option Ref)) (fixup : Fixup Ref) : Option Ref :=
  match fixup.binding with
  | .directlyBound target => some target
  | .indirectlyBound slot => (table[slot]?).join
  | _ => none

def State.target (state : State Ref) (fixup : Fixup Ref) : Option Ref :=
  targetIn state.indirectBindingTable fixup

def isCompilerSupportLib (path : String) : Bool :=
  let libName := (path.toList.reverse.takeWhile (· != '/')).reverse
  path.toList.contains '/' &&
    ("libclang_rt".toList.isPrefixOf libName || "libcompiler-rt".toList.isPrefixOf libName)

section Pass

variable (link : Link Ref)

def atomIsDeadStripRoot (force : Bool) (atom : Ref) : Bool :=
  let a := link.atom atom
  if force && a.typeLTOtemporary && a.name == "import-atom" then false
  else if a.dontDeadStrip then true
  else if a.scope == .global &&
      (link.hasWildCardExportRestrictList || link.allGlobalsAreDeadStripRoots) &&
      link.shouldExport a.name then true
  else link.haveLLVMObjs && !force && !a.typeLTOtemporary && isCompilerSupportLib a.safeFilePath

/-- The atom of a name's slot, after a search of the archives when the slot is empty. -/
def searchedAtom (name : String) (state : State Ref) : Except Stop (Option Ref × State Ref) :=
  let (slot, state) := findSlotForName name state
  match state.indirectBindingTable[slot]? with
  | none => .error .undefined
  | some (some atom) => .ok (some atom, state)
  | some none =>
    match link.archived name with
    | none => .ok (none, state)
    | some atom =>
      .ok (some atom, { state with
        atoms := state.atoms ++ [atom]
        indirectBindingTable := state.indirectBindingTable.set slot (some atom) })

def entrySymbol : Option String :=
  match link.outputKind with
  | .dynamicExecutable | .staticExecutable | .dyld | .preload => link.entryName
  | .dynamicLibrary => link.initFunctionName
  | .objectFile | .dynamicBundle | .kextBundle => none

def entryPoint (state : State Ref) : Except Stop (Option Ref × State Ref) :=
  match entrySymbol link with
  | none => .ok (none, state)
  | some name =>
    match searchedAtom link name state with
    | .error stop => .error stop
    | .ok (none, _) => .error .entryUndefined
    | .ok (some atom, state) =>
      if (link.atom atom).definitionProxy && link.outputKind == .dynamicLibrary then
        .error .initInDylib
      else .ok (some atom, state)

variable [Fintype Ref]

/-- `markLive` with a new chain that starts at the atom. -/
def markRoot (state : State Ref) (atom : Ref) : Except Stop (State Ref) :=
  markLive link (Fintype.card Ref + 1) atom { state with rooted := atom :: state.rooted }

def markOptional (state : State Ref) : Option Ref → Except Stop (State Ref)
  | none => .ok state
  | some atom => markRoot link state atom

def markUndefined (state : State Ref) (name : String) : Except Stop (State Ref) :=
  match searchedAtom link name state with
  | .error stop => .error stop
  | .ok (atom, state) => markOptional link state atom

def markEntry (state : State Ref) : Except Stop (State Ref) :=
  match entryPoint link state with
  | .error stop => .error stop
  | .ok (atom, state) => markOptional link state atom

/-- `forEachDeadStripRoot` with the callback of `deadStripOptimize`. -/
def forEachDeadStripRoot (force : Bool) (state : State Ref) : Except Stop (State Ref) := do
  let state ← markEntry link state
  let state ← link.initialUndefines.foldlM (markUndefined link) state
  let state ← [link.classicBindingHelper, link.compressedFastBinderProxy, link.lazyBindingHelper,
    link.objcMsgSendProxy].foldlM (markOptional link) state
  (state.atoms.filter fun atom =>
    !(link.atom atom).coalescedAway && atomIsDeadStripRoot link force atom).foldlM
      (markRoot link) state

/-- The vector `dontDeadStripIfReferencesLive` that is filled on the way. -/
def liveIfRefLiveAtoms (force : Bool) (state : State Ref) : List Ref :=
  state.atoms.filter fun atom =>
    !(link.atom atom).coalescedAway && !atomIsDeadStripRoot link force atom &&
      (link.atom atom).dontDeadStripIfReferencesLive

omit [Fintype Ref] [DecidableEq Ref] in
def atomHasLiveRef (state : State Ref) (atom : Ref) : Bool :=
  (state.fixups atom).any fun fixup =>
    match state.target fixup with
    | some target => state.live target
    | none => false

def markIfRefLive (state : State Ref) (atom : Ref) : Except Stop (State Ref) :=
  if state.live atom then .ok state
  else if atomHasLiveRef state atom then markRoot link state atom
  else .ok state

def notLive (state : State Ref) (atom : Ref) : Bool :=
  !(state.live atom || (link.atom atom).dontDeadStrip)

def notLiveLTO (state : State Ref) (atom : Ref) : Bool :=
  if state.live atom || (link.atom atom).dontDeadStrip then false
  else match (link.atom atom).combine with
    | .byNameAndContent | .byNameAndReferences => false
    | _ => true

def deadSlot (state : State Ref) (slot : Nat) : Bool :=
  match (state.indirectBindingTable[slot]?).join with
  | some atom => notLive link state atom
  | none => false

/-- `SymbolTable::removeDeadAtoms`, as far as slots and names go. -/
def removeDeadAtoms (state : State Ref) : State Ref :=
  { state with
    indirectBindingTable := state.indirectBindingTable.mapIdx fun slot atom =>
      if deadSlot link state slot && (state.byNameTable.map Prod.snd).contains slot then none
      else atom
    byNameTable := state.byNameTable.filter fun entry => !deadSlot link state entry.2 }

def removeNotLive (force : Bool) (state : State Ref) : State Ref :=
  if link.haveLLVMObjs && !force then
    removeDeadAtoms link
      { state with atoms := state.atoms.filter fun atom => !notLiveLTO link state atom }
  else { state with atoms := state.atoms.filter fun atom => !notLive link state atom }

/-- The live flags when the walk begins: a second run clears those of `_atoms`. -/
def startLive (force : Bool) (state : State Ref) (atom : Ref) : Bool :=
  if force && state.atoms.contains atom then false else state.live atom

def deadStripOptimize (force : Bool) (state : State Ref) : Except Stop (State Ref) :=
  if !link.deadCodeStrip then .ok state
  else do
    let state ← forEachDeadStripRoot link force
      { state with live := startLive force state, rooted := [] }
    let state ← (liveIfRefLiveAtoms link force state).foldlM (markIfRefLive link) state
    return removeNotLive link force state

end Pass

end DeveloperTools.Ld64.DeadStrip
