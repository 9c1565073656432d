import DeveloperTools.Ld64.FixupCoverage
import DeveloperTools.Lib.Walk
import Mathlib.Logic.Function.Basic

/-!
Chained fixups of firmware, which neither dyld nor the kernel loads: the chains do not end at
pages, and a section lists where they start. An early pass, `countChains`, reserves the room for
the list from the addresses of that time; `writeAtoms` makes the chains and the list from the
positions in the file. The link fails when the list is longer than the room.
-/

namespace DeveloperTools.Ld64.FirmwareChains

open ChainedFixups FixupCoverage

structure FirmwareAtom (Atom : Type) extends PlacedAtom Atom where
  /-- `sAtomToAddress`. -/
  earlyAddress : Nat

structure FirmwareSection (Atom : Type) where
  isHidden : Bool
  atoms : List (FirmwareAtom Atom)

/-- The sections of one name, with what `ChainedFixupSegInfo` has of them. -/
structure FirmwareSegment (Atom : Type) where
  name : String
  startAddr : Nat
  endAddr : Nat
  fileOffset : Nat
  sections : List (FirmwareSection Atom)

/-- `ld::Fixup::isPcRelStore(false)`. -/
def isPcRelStore : Kind → Bool
  | .storeX86BranchPCRel8 | .storeX86BranchPCRel32 | .storeX86PCRel8 | .storeX86PCRel16
  | .storeX86PCRel32 | .storeX86PCRel32_1 | .storeX86PCRel32_2 | .storeX86PCRel32_4
  | .storeX86PCRel32GOTLoad | .storeX86PCRel32GOTLoadNowLEA | .storeX86PCRel32GOT
  | .storeX86PCRel32TLVLoad | .storeX86PCRel32TLVLoadNowLEA
  | .storeARMBranch24 | .storeThumbBranch22 | .storeARMLoad12
  | .storeTargetAddressX86PCRel32 | .storeTargetAddressX86PCRel32GOTLoad
  | .storeTargetAddressX86PCRel32GOTLoadNowLEA | .storeTargetAddressX86PCRel32TLVLoad
  | .storeTargetAddressX86PCRel32TLVLoadNowLEA
  | .storeTargetAddressARMBranch24 | .storeTargetAddressThumbBranch22
  | .storeTargetAddressARMLoad12
  | .storeARM64Page21 | .storeARM64PageOff12
  | .storeARM64GOTLoadPage21 | .storeARM64GOTLoadPageOff12
  | .storeARM64GOTLeaPage21 | .storeARM64GOTLeaPageOff12
  | .storeARM64TLVPLoadPage21 | .storeARM64TLVPLoadPageOff12
  | .storeARM64TLVPLoadNowLeaPage21 | .storeARM64TLVPLoadNowLeaPageOff12
  | .storeARM64PCRelToGOT
  | .storeTargetAddressARM64Page21 | .storeTargetAddressARM64PageOff12
  | .storeTargetAddressARM64PageOff12ConvertAddToLoad
  | .storeTargetAddressARM64GOTLoadPage21 | .storeTargetAddressARM64GOTLoadPageOff12
  | .storeTargetAddressARM64GOTLeaPage21 | .storeTargetAddressARM64GOTLeaPageOff12
  | .storeTargetAddressARM64TLVPLoadPage21 | .storeTargetAddressARM64TLVPLoadPageOff12
  | .storeTargetAddressARM64TLVPLoadNowLeaPage21
  | .storeTargetAddressARM64TLVPLoadNowLeaPageOff12
  | .storeTargetAddressX86BranchPCRel32 | .storeTargetAddressARM64Branch26
  | .storeARM64Branch26 => true
  | _ => false

def countsAsPointer : Kind → Bool
  | .storeLittleEndian32 | .storeLittleEndian64
  | .storeTargetAddressLittleEndian32 | .storeTargetAddressLittleEndian64 => true
  | _ => false

structure CountState where
  seenTarget : Bool := false
  seenSubtractTarget : Bool := false
  isPointerStore : Bool := false

section Reservation

variable {Atom : Type}

def countStep (state : CountState) (fit : Step Atom) : CountState where
  seenTarget := state.seenTarget || setsTarget fit.kind
  seenSubtractTarget :=
    state.seenSubtractTarget || (fit.kind = .subtractTargetAddress || isPcRelStore fit.kind)
  isPointerStore := state.isPointerStore || countsAsPointer fit.kind

def CountState.counts (state : CountState) : Bool :=
  state.seenTarget && !state.seenSubtractTarget && state.isPointerStore

/-- `atomFixupOffsets`, before they are sorted. -/
def countOffsets : CountState → List (Fixup Atom) → List Nat
  | _, [] => []
  | state, fit :: rest =>
    let state := countStep (if fit.firstInCluster then {} else state) fit.toStep
    let here := if fit.lastInCluster && state.counts then [fit.offsetInAtom] else []
    here ++ countOffsets state rest

structure ChainCount where
  count : Nat := 0
  prevFixupAddress : Nat := 0
  prevFixupSegName : Option String := none

def countFixup (segmentName : String) (state : ChainCount) (address : Nat) : ChainCount :=
  let delta := (address + 2 ^ 64 - state.prevFixupAddress) % 2 ^ 64
  { count := if state.prevFixupAddress = 0 ∨ 255 < delta then state.count + 1 else state.count
    prevFixupAddress := address
    prevFixupSegName := some segmentName }

def countAtom (segmentName : String) (state : ChainCount) (atom : FirmwareAtom Atom) : ChainCount :=
  ((countOffsets {} atom.fixups).mergeSort fun left right => left ≤ right).foldl
    (fun state offset => countFixup segmentName state (atom.earlyAddress + offset)) state

def enterSection (segmentName : String) (state : ChainCount) : ChainCount :=
  if state.prevFixupSegName.any (· ≠ segmentName) then { state with prevFixupAddress := 0 }
  else state

def countSection (segmentName : String) (state : ChainCount) (sect : FirmwareSection Atom) :
    ChainCount :=
  if sect.isHidden then state
  else sect.atoms.foldl (countAtom segmentName) (enterSection segmentName state)

def countSegment (state : ChainCount) (segment : FirmwareSegment Atom) : ChainCount :=
  segment.sections.foldl (countSection segment.name) state

def countChains (segments : List (FirmwareSegment Atom)) : Nat :=
  (segments.foldl countSegment {}).count

end Reservation

/-- The next field of a format: distances below the limit are stored, in strides of four. -/
structure NextField where
  limit : Nat
  bits : Nat

/-- `none`: unknown pointer format for chain starts. -/
def nextField : PointerFormat → Option NextField
  | .arm64eKernel => some ⟨0x1FFF, 11⟩
  | .ptr64Offset => some ⟨0x3FFF, 12⟩
  | .ptr32Firmware => some ⟨255, 6⟩
  | _ => none

/-- The image start is a pointer into the file and an address; both are set when the first
`__TEXT` comes. A start is `none` when it was taken from the null pointer. -/
structure ChainWriter where
  imageStart : Option (Nat × Nat) := none
  startOffsets : List (Option Nat) := []
  prevLoc : Option Nat := none
  lastSegInfo : Option Nat := none
  next : Nat → Nat := fun _ => 0

section Writing

variable {Atom : Type} (output : OutputFile Atom) (useVMOffsets : Bool) (field : NextField)

def segmentPlaces (segment : FirmwareSegment Atom) : List (Recorded Atom) :=
  (segment.sections.flatMap fun sect => sect.atoms.flatMap fun atom =>
    buildFixups output segment.startAddr atom.finalAddress .reset atom.fixups).filter
    fun place => isBound output place.target || output.outputSlidable

def pageOrder (places : List (Recorded Atom)) : List (Recorded Atom) :=
  places.mergeSort fun left right =>
    left.pageIndex * 2 ^ 16 + left.pageOffset ≤ right.pageIndex * 2 ^ 16 + right.pageOffset

def startOffset (writer : ChainWriter) (segment : FirmwareSegment Atom) (loc : Nat) : Option Nat :=
  if useVMOffsets then
    let imageStartAddress := (writer.imageStart.map Prod.snd).getD 0
    some ((segment.startAddr + (loc - segment.fileOffset) + 2 ^ 64 - imageStartAddress) % 2 ^ 32)
  else
    writer.imageStart.map fun imageStart => (loc + 2 ^ 64 - imageStart.1) % 2 ^ 32

def startChain (writer : ChainWriter) (segment : FirmwareSegment Atom) (loc : Nat) : ChainWriter :=
  { writer with
    startOffsets := writer.startOffsets ++ [startOffset useVMOffsets writer segment loc]
    prevLoc := some loc }

def writeLoc (index : Nat) (segment : FirmwareSegment Atom) (writer : ChainWriter) (loc : Nat) :
    ChainWriter :=
  if useVMOffsets ∧ writer.lastSegInfo ≠ some index then
    -- for preload always start new chain in each segment
    { startChain useVMOffsets writer segment loc with lastSegInfo := some index }
  else
    match writer.prevLoc with
    | none => startChain useVMOffsets writer segment loc
    | some prevLoc =>
      let delta := (loc + 2 ^ 64 - prevLoc) % 2 ^ 64
      if delta < field.limit then
        { writer with
          next := Function.update writer.next prevLoc (delta / 4 % 2 ^ field.bits)
          prevLoc := some loc }
      else
        -- need to start new chain
        startChain useVMOffsets
          { writer with next := Function.update writer.next prevLoc 0 } segment loc

def writePlace (index : Nat) (segment : FirmwareSegment Atom) (writer : ChainWriter)
    (place : Recorded Atom) : ChainWriter :=
  writeLoc useVMOffsets field index segment writer
    (segment.fileOffset + place.pageIndex * pageSize output + place.pageOffset)

def enterSegment (writer : ChainWriter) (segment : FirmwareSegment Atom) : ChainWriter :=
  if writer.imageStart = none ∧ segment.name = "__TEXT" then
    { writer with imageStart := some (segment.fileOffset, segment.startAddr) }
  else writer

def writeSegment (writer : ChainWriter) (entry : FirmwareSegment Atom × Nat) : ChainWriter :=
  (pageOrder (segmentPlaces output entry.1)).foldl
    (writePlace output useVMOffsets field entry.2 entry.1) (enterSegment writer entry.1)

/-- `none`: pre-computed __chain_starts section too small. -/
def writeChains (segments : List (FirmwareSegment Atom)) : Option ChainWriter :=
  let writer := segments.zipIdx.foldl (writeSegment output useVMOffsets field) {}
  if countChains segments < writer.startOffsets.length then none else some writer

end Writing

section Reading

variable {Atom : Type}

def nextLoc (next : Nat → Nat) (loc : Nat) : Option Nat :=
  if next loc = 0 then none else some (loc + 4 * next loc)

def locOfAddress (segments : List (FirmwareSegment Atom)) (address : Nat) : Option Nat :=
  (segments.find? fun segment =>
      segment.startAddr ≤ address ∧ address < segment.endAddr).map fun segment =>
    segment.fileOffset + (address - segment.startAddr)

/-- The place of a start: an offset from the start of `__TEXT`, in the file or in memory. -/
def locOfStart (useVMOffsets : Bool) (segments : List (FirmwareSegment Atom))
    (start : Option Nat) : Option Nat := do
  let start ← start
  let text ← segments.find? fun segment => segment.name = "__TEXT"
  if useVMOffsets then locOfAddress segments (text.startAddr + start)
  else some (text.fileOffset + start)

def fixupLocs (output : OutputFile Atom) (segments : List (FirmwareSegment Atom)) : List Nat :=
  segments.flatMap fun segment =>
    (segmentPlaces output segment).map fun place =>
      segment.fileOffset + (place.fixUpAddr - segment.startAddr)

/-- Over all starts, every fixup is visited once. -/
def VisitsAll (output : OutputFile Atom) (useVMOffsets : Bool)
    (segments : List (FirmwareSegment Atom)) (writer : ChainWriter) : Prop :=
  ∃ visited : List (List Nat),
    List.Forall₂ (fun start visits => ∃ loc, locOfStart useVMOffsets segments start = some loc ∧
      Walk.walk (nextLoc writer.next) (fixupLocs output segments).length loc = some visits)
      writer.startOffsets visited ∧
    visited.flatten.Perm (fixupLocs output segments) ∧ (fixupLocs output segments).Nodup

end Reading

end DeveloperTools.Ld64.FirmwareChains
