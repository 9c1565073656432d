import DeveloperTools.Ld64.ChainedFixups
import DeveloperTools.Ld64.FixupKinds

/-!
Two machines walk the fixups of every atom: `buildChainedFixupInfo` lists the places that the
chains have to pass through, and `applyFixUps` stores a pointer in chained form or a plain word.
Here is what each of them does about places, not the values that are stored: neither branches on
its accumulator. The lists agree when every cluster of fixups is one that both take in the same
way.
-/

namespace DeveloperTools.Ld64.FixupCoverage

open ChainedFixups

/-- `ld::Fixup::setsTarget`, for an output that is not an object file. -/
def setsTarget : Kind → Bool
  | .setTargetAddress | .lazyTarget
  | .storeTargetAddressLittleEndian32 | .storeTargetAddressLittleEndian64
  | .storeTargetAddressLittleEndianAuth64
  | .storeTargetAddressBigEndian32 | .storeTargetAddressBigEndian64
  | .storeTargetAddressX86PCRel32 | .storeTargetAddressX86BranchPCRel32
  | .storeTargetAddressX86PCRel32GOTLoad | .storeTargetAddressX86PCRel32GOTLoadNowLEA
  | .storeTargetAddressX86PCRel32TLVLoad | .storeTargetAddressX86PCRel32TLVLoadNowLEA
  | .storeTargetAddressX86Abs32TLVLoad
  | .storeTargetAddressARMBranch24 | .storeTargetAddressThumbBranch22
  | .storeTargetAddressARMLoad12
  | .storeTargetAddressARM64Branch26 | .storeTargetAddressARM64Page21
  | .storeTargetAddressARM64PageOff12 | .storeTargetAddressARM64PageOff12ConvertAddToLoad
  | .storeTargetAddressARM64GOTLoadPage21 | .storeTargetAddressARM64GOTLoadPageOff12
  | .storeTargetAddressARM64GOTLeaPage21 | .storeTargetAddressARM64GOTLeaPageOff12
  | .storeTargetAddressARM64TLVPLoadPage21 | .storeTargetAddressARM64TLVPLoadPageOff12
  | .storeTargetAddressARM64TLVPLoadNowLeaPage21
  | .storeTargetAddressARM64TLVPLoadNowLeaPageOff12 => true
  | _ => false

/-- What is read of a fixup besides its place. The target is what the binding stands for; a
fixup that asks for it and has none ends the link. -/
structure Step (Atom : Type) where
  kind : Kind
  target : Option Atom
  contentAddendOnly : Bool
  bound : (setsTarget kind || kind.takesAddress) = true → target.isSome = true

structure Fixup (Atom : Type) extends Step Atom where
  offsetInAtom : Nat
  firstInCluster : Bool
  lastInCluster : Bool

inductive SectionType where
  | code
  | unwindInfo
  | dtraceDOF
  | tlvDefs
  | other
deriving DecidableEq, Repr

def isModifier : Kind → Bool
  | .setTargetAddress | .subtractTargetAddress | .addAddend | .subtractAddend
  | .setTargetImageOffset | .setTargetSectionOffset | .setTargetTLVTemplateOffset
  | .setLazyOffset | .setAuthData => true
  | _ => false

/-- The fixups of one place: modifiers, and a last fixup that may be of any kind. -/
structure Cluster (Atom : Type) where
  offsetInAtom : Nat
  front : List (Step Atom)
  last : Step Atom
  modifiers : ∀ step ∈ front, isModifier step.kind = true

def clusterFixups {Atom : Type} (offsetInAtom : Nat) (firstInCluster : Bool) (last : Step Atom) :
    List (Step Atom) → List (Fixup Atom)
  | [] => [⟨last, offsetInAtom, firstInCluster, true⟩]
  | step :: rest =>
    ⟨step, offsetInAtom, firstInCluster, false⟩ :: clusterFixups offsetInAtom false last rest

def Cluster.fixups {Atom : Type} (cluster : Cluster Atom) : List (Fixup Atom) :=
  clusterFixups cluster.offsetInAtom true cluster.last cluster.front

structure PlacedAtom (Atom : Type) where
  finalAddress : Nat
  isCFI : Bool
  sectionType : SectionType
  clusters : List (Cluster Atom)

def PlacedAtom.fixups {Atom : Type} (atom : PlacedAtom Atom) : List (Fixup Atom) :=
  atom.clusters.flatMap Cluster.fixups

structure FinalSection (Atom : Type) where
  segmentName : String
  address : Nat
  atoms : List (PlacedAtom Atom)

structure OutputFile (Atom : Type) extends Writer Atom where
  makeChainedFixups : Bool
  outputSlidable : Bool
  cantUseChainedFixups : Bool
  dyldLoadsOutput : Bool
  supportsAuthenticatedPointers : Bool
  isKernel : Bool
  isX8664 : Bool
  segmentAlignment : Nat

section Machines

variable {Atom : Type} (output : OutputFile Atom)

def hasChainedFixups : Bool :=
  output.makeChainedFixups && output.outputSlidable &&
    (!output.dyldOrKernelLoadsOutput || !output.cantUseChainedFixups)

/-- What `needsBind` returns; the accumulator has no say in it. -/
def isBound (target : Atom) : Bool :=
  reference output.toWriter (output.atoms (aliasBase output.toWriter target)) ≠ .rebase

def pageSize : Nat :=
  if output.isKernel || output.isKextBundle || output.isX8664 then 0x1000
  else output.segmentAlignment

structure BuildState (Atom : Type) where
  target : Option Atom
  hadSubtract : Bool
  isBind : Bool
  isAuthPtr : Bool

def BuildState.reset : BuildState Atom := ⟨none, false, false, false⟩

/-- The kinds that make a value relative, for both machines. -/
def makesRelative (kind : Kind) : Bool :=
  kind = .subtractTargetAddress || kind = .setTargetImageOffset

def marksPointer (fit : Step Atom) : Bool :=
  match fit.kind with
  | .storeLittleEndian32 | .storeLittleEndian64
  | .storeTargetAddressLittleEndian32 | .storeTargetAddressLittleEndian64
  | .storeTargetAddressLittleEndianAuth64 => true
  -- ld -r mode: the original relocation is written out again
  | .storeLittleEndianAuth64 => !fit.contentAddendOnly
  | _ => false

def buildStep (state : BuildState Atom) (fit : Step Atom) : BuildState Atom where
  target := if setsTarget fit.kind then fit.target else state.target
  hadSubtract := state.hadSubtract || makesRelative fit.kind
  isBind := state.isBind || marksPointer fit
  isAuthPtr := state.isAuthPtr || fit.kind = .setAuthData

/-- A place: `pageIndex` and the product with the page size are 32 bits wide, the offset in the
page is 16 bits wide. -/
structure Recorded (Atom : Type) where
  startAddr : Nat
  fixUpAddr : Nat
  pageIndex : Nat
  pageOffset : Nat
  target : Atom
  isAuthPtr : Bool
deriving DecidableEq, Repr

def recordAt (startAddr fixUpAddr : Nat) (target : Atom) (isAuthPtr : Bool) : Recorded Atom :=
  let pageIndex := (fixUpAddr - startAddr) / pageSize output % 2 ^ 32
  { startAddr := startAddr
    fixUpAddr := fixUpAddr
    pageIndex := pageIndex
    pageOffset := (fixUpAddr - (startAddr + pageIndex * pageSize output % 2 ^ 32)) % 2 ^ 16
    target := target
    isAuthPtr := isAuthPtr }

def recordCluster (startAddr finalAddress : Nat) (state : BuildState Atom) (offsetInAtom : Nat) :
    List (Recorded Atom) :=
  match state.target with
  | none => []
  | some target =>
    -- this is an absolute pointer which means it needs to be in fixup chain
    if state.isBind ∧ ¬ state.hadSubtract then
      [recordAt output startAddr (finalAddress + offsetInAtom) target state.isAuthPtr]
    else []

def buildFixups (startAddr finalAddress : Nat) :
    BuildState Atom → List (Fixup Atom) → List (Recorded Atom)
  | _, [] => []
  | state, fit :: rest =>
    let state := buildStep (if fit.firstInCluster then .reset else state) fit.toStep
    let here :=
      if fit.lastInCluster then recordCluster output startAddr finalAddress state fit.offsetInAtom
      else []
    here ++ buildFixups startAddr finalAddress state rest

/-- The segment of a section: the one at hand, or a new one that starts with the section. -/
def segmentOf (curSeg : Option (String × Nat)) (sect : FinalSection Atom) : String × Nat :=
  match curSeg with
  | some (name, startAddr) =>
    if sect.segmentName = name then (name, startAddr) else (sect.segmentName, sect.address)
  | none => (sect.segmentName, sect.address)

def inSegments : Option (String × Nat) → List (FinalSection Atom) → List (Nat × PlacedAtom Atom)
  | _, [] => []
  | curSeg, sect :: rest =>
    sect.atoms.map (Prod.mk (segmentOf curSeg sect).2) ++
      inSegments (some (segmentOf curSeg sect)) rest

def pointerAlignment : PointerFormat → Nat
  | .arm64e | .arm64eUserland | .arm64eUserland24 => 8
  | _ => 4

def pointerSize : PointerFormat → Nat
  | .ptr32 | .ptr32Firmware | .ptr32Cache => 4
  | _ => 8

def isUnaligned (place : Recorded Atom) : Bool :=
  let pageEnd := place.fixUpAddr / pageSize output * pageSize output + pageSize output
  place.fixUpAddr % pointerAlignment output.chainedPointerFormat ≠ 0 ||
    (output.dyldLoadsOutput && place.fixUpAddr + pointerSize output.chainedPointerFormat > pageEnd)

/-- `buildChainedFixupInfo`; `none` is the exception for unaligned pointers. -/
def buildChainedFixupInfo (sections : List (FinalSection Atom)) : Option (List (Recorded Atom)) :=
  let places := (inSegments none sections).flatMap fun placed =>
    buildFixups output placed.1 placed.2.finalAddress .reset placed.2.fixups
  if places.any (isUnaligned output) then none
  else some (places.filter fun place => isBound output place.target || output.outputSlidable)

structure ApplyState (Atom : Type) where
  toTarget : Option Atom := none
  isRelative : Bool := false

/-- The kinds for which `applyFixUps` sets `toTarget`. -/
def setsToTarget (kind : Kind) : Bool := kind.takesAddress && kind ≠ .subtractTargetAddress

def applyStep (state : ApplyState Atom) (fit : Step Atom) : ApplyState Atom where
  toTarget := if setsToTarget fit.kind then fit.target else state.toTarget
  isRelative := state.isRelative || makesRelative fit.kind

def isProxy (target : Atom) : Bool := (output.atoms target).definition = .proxy

/-- Without slide, a pointer to something in the image is a plain word. -/
def neverSlides (toTarget : Option Atom) : Bool :=
  !output.outputSlidable && toTarget.any fun target => !isProxy output target

/-- Whether `setFixup32`, `setFixup64` or `setFixup64e` is called for the fixup. -/
def storesChained (atom : PlacedAtom Atom) (state : ApplyState Atom) (fit : Step Atom) : Bool :=
  match fit.kind with
  | .storeLittleEndian32 =>
    hasChainedFixups output && !fit.contentAddendOnly && !atom.isCFI &&
      atom.sectionType ≠ .unwindInfo && atom.sectionType ≠ .code &&
      atom.sectionType ≠ .dtraceDOF && !state.isRelative
  | .storeLittleEndian64 =>
    hasChainedFixups output && !fit.contentAddendOnly && !state.isRelative
  | .storeTargetAddressLittleEndian32 =>
    !neverSlides output state.toTarget && hasChainedFixups output && !fit.contentAddendOnly
  | .storeTargetAddressLittleEndian64 =>
    -- the pointer of a thread local thunk is signed, any other is not: both are chained
    !fit.contentAddendOnly && !neverSlides output state.toTarget && hasChainedFixups output
  | .storeTargetAddressLittleEndianAuth64 | .storeLittleEndianAuth64 =>
    !fit.contentAddendOnly && hasChainedFixups output
  | _ => false

structure Stored (Atom : Type) where
  address : Nat
  toTarget : Option Atom

def applyFixups (atom : PlacedAtom Atom) : ApplyState Atom → List (Fixup Atom) → List (Stored Atom)
  | _, [] => []
  | state, fit :: rest =>
    let state := applyStep
      (if fit.firstInCluster then { state with isRelative := false } else state) fit.toStep
    let here :=
      if storesChained output atom state fit.toStep then
        [{ address := atom.finalAddress + fit.offsetInAtom, toTarget := state.toTarget }]
      else []
    here ++ applyFixups atom state rest

def applyFixUps (sections : List (FinalSection Atom)) : List (Stored Atom) :=
  sections.flatMap fun sect => sect.atoms.flatMap fun atom => applyFixups output atom {} atom.fixups

end Machines

section Statement

variable {Atom : Type} (output : OutputFile Atom)

/-- Where a reader of the page starts finds the place, and how it is fixed up there. -/
def Recorded.location (place : Recorded Atom) : Nat × Option Bool :=
  (place.startAddr + place.pageIndex * pageSize output + place.pageOffset,
    some (isBound output place.target))

/-- A store through a null target has no kind. -/
def Stored.location (store : Stored Atom) : Nat × Option Bool :=
  (store.address, store.toTarget.map (isBound output))

/-- The chains pass through exactly the places with chained pointers. -/
def Covers (places : List (Recorded Atom)) (stores : List (Stored Atom)) : Prop :=
  ∀ location, location ∈ places.map (Recorded.location output) ↔
    location ∈ stores.map (Stored.location output)

structure Located (Atom : Type) where
  startAddr : Nat
  atom : PlacedAtom Atom
  cluster : Cluster Atom

def Located.address (located : Located Atom) : Nat :=
  located.atom.finalAddress + located.cluster.offsetInAtom

def located (sections : List (FinalSection Atom)) : List (Located Atom) :=
  (inSegments none sections).flatMap fun placed =>
    placed.2.clusters.map fun cluster => ⟨placed.1, placed.2, cluster⟩

/-- The table of page starts can tell the place: 32 bits are enough for the number of its page,
and 16 bits for its offset there. -/
def Located.Told (place : Located Atom) : Prop :=
  (place.address - place.startAddr) / pageSize output < 2 ^ 32 ∧
    (place.address - place.startAddr) % pageSize output < 2 ^ 16

def isTargetStore : Kind → Bool
  | .storeTargetAddressLittleEndian32 | .storeTargetAddressLittleEndian64
  | .storeTargetAddressLittleEndianAuth64 => true
  | _ => false

def isPointerStore : Kind → Bool
  | .storeLittleEndian32 | .storeLittleEndian64 | .storeLittleEndianAuth64 => true
  | kind => isTargetStore kind

/-- Segments start with their first place, and no two pointers are for one place. -/
structure Placed (sections : List (FinalSection Atom)) : Prop where
  positive : 0 < pageSize output
  inside : ∀ place ∈ located sections, place.startAddr ≤ place.address
  apart : (((located sections).filter fun place => isPointerStore place.cluster.last.kind).map
    Located.address).Nodup

def Cluster.isRelative (cluster : Cluster Atom) : Bool :=
  cluster.front.any fun step => makesRelative step.kind

def Cluster.hasTarget (cluster : Cluster Atom) : Bool :=
  cluster.front.any fun step => step.kind = .setTargetAddress

/-- An absolute pointer to a target. -/
def Cluster.isAbsolute (cluster : Cluster Atom) : Bool :=
  (cluster.hasTarget || isTargetStore cluster.last.kind) && marksPointer cluster.last &&
    !cluster.isRelative

/-- The atoms in which a 32-bit pointer is stored as a plain word. -/
def PlacedAtom.keepsPlain (atom : PlacedAtom Atom) : Bool :=
  atom.isCFI || atom.sectionType = .unwindInfo || atom.sectionType = .code ||
    atom.sectionType = .dtraceDOF

/-- Both machines take the cluster for a chained pointer, or both do not. -/
def Agrees (atom : PlacedAtom Atom) (cluster : Cluster Atom) : Prop :=
  let addendOnly := cluster.last.contentAddendOnly
  match cluster.last.kind with
  | .storeLittleEndian32 =>
    cluster.isRelative = true ∨ cluster.hasTarget = !(addendOnly || atom.keepsPlain)
  | .storeLittleEndian64 => cluster.isRelative = true ∨ cluster.hasTarget = !addendOnly
  | .storeLittleEndianAuth64 =>
    addendOnly = true ∨ (cluster.hasTarget = true ∧ cluster.isRelative = false)
  | .storeTargetAddressLittleEndian32 | .storeTargetAddressLittleEndian64
  | .storeTargetAddressLittleEndianAuth64 => addendOnly = cluster.isRelative
  | _ => True

variable (sections : List (FinalSection Atom))

def AllAgree : Prop := ∀ place ∈ located sections, Agrees place.atom place.cluster

def AllTold : Prop :=
  ∀ place ∈ located sections, place.cluster.isAbsolute = true → place.Told output

end Statement

end DeveloperTools.Ld64.FixupCoverage
