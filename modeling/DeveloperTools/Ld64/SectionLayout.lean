import DeveloperTools.Lib.FailingFold
import Mathlib.Tactic

/-!
Addresses and file offsets of the sections: `InternalState::assignFileOffsets`.

Three passes give addresses: to the sections of segments at fixed addresses, to those of
segments ordered after one of these, and to the rest. Every sum is checked, and a run in which
64 bit arithmetic would wrap around ends with `Failure.wrapped`.
-/

namespace DeveloperTools.Ld64.SectionLayout

inductive SectionType where
  | pageZero
  | machHeader
  | firstSection
  | lastSection
  | zeroFill
  | tlvZeroFill
  | stack
  | tentativeDefs
  | absoluteSymbols
  | linkEdit
  | importProxies
  | other
deriving DecidableEq, Repr

/-- `1 << alignment` is an `int`. -/
structure FinalSection where
  segmentName : String
  type : SectionType
  size : Nat
  alignment : Fin 31
  hidden : Bool
deriving Repr

inductive OutputKind where
  | dynamicExecutable
  | staticExecutable
  | dynamicLibrary
  | dynamicBundle
  | objectFile
  | dyld
  | preload
  | kextBundle
deriving DecidableEq, Repr

structure Options where
  outputKind : OutputKind
  baseAddress : Nat
  maxAddress : Nat
  -- a power of two
  segmentAlignmentPower : Fin 64
  customSegmentAddresses : List (String × Nat)
  customSegmentSizes : List (String × Nat)
  stackSize : Nat
  stackAddr : Nat
  segmentOrder : List String
  optimizeZeroFill : Bool

inductive Failure where
  | addressRangeExceeded
  | overlapsFixedSection
  -- a section is ordered after a fixed segment and has none before it
  | noLastSection
  | assertion
  | wrapped
deriving DecidableEq, Repr

structure Placement where
  address : Nat
  alignmentPaddingBytes : Nat
  fileOffset : Nat
deriving DecidableEq, Repr

/-- The sections of the output are those below `count`. -/
structure Sections where
  count : Nat
  sect : Nat → FinalSection

abbrev Layout := Nat → Placement

section Options

variable (options : Options)

def Options.segmentAlignment : Nat := 2 ^ options.segmentAlignmentPower.val

def Options.segPageSize (segName : String) : Nat :=
  match options.customSegmentSizes.find? (·.1 == segName) with
  | some (_, size) => size
  | none => options.segmentAlignment

/-- A custom stack is modelled as segment with custom address. -/
def Options.hasCustomSegmentAddress (segName : String) : Bool :=
  options.customSegmentAddresses.any (·.1 == segName) ||
    (options.stackSize != 0 && segName == "__UNIXSTACK")

def Options.customSegmentAddress (segName : String) : Nat :=
  match options.customSegmentAddresses.find? (·.1 == segName) with
  | some (_, address) => address
  | none =>
    if options.stackSize ≠ 0 ∧ segName = "__UNIXSTACK" then
      options.stackAddr - options.stackSize
    else 0

def orderAfterFixed (hasCustomSegmentAddress : String → Bool) (segName : String) (nowPinned : Bool) :
    List String → Bool
  | [] => false
  | name :: rest =>
    if name = segName then nowPinned
    else orderAfterFixed hasCustomSegmentAddress segName
      (nowPinned || hasCustomSegmentAddress name) rest

def Options.segmentOrderAfterFixedAddressSegment (segName : String) : Bool :=
  orderAfterFixed options.hasCustomSegmentAddress segName false options.segmentOrder

def Options.hiddenSectionsOccupyAddressSpace : Bool :=
  options.outputKind ≠ .objectFile ∧ options.outputKind ≠ .preload

def Options.segmentsArePageAligned : Bool := options.outputKind ≠ .objectFile

def Options.hasZeroForFileOffset (sect : FinalSection) : Bool :=
  match sect.type with
  | .zeroFill | .tlvZeroFill => options.optimizeZeroFill
  | .pageZero | .stack | .tentativeDefs => true
  | _ => false

end Options

/-- `ULLONG_MAX`, the address of a section that has none yet. -/
def noAddress : Nat := 2 ^ 64 - 1

def add64 (left right : Nat) : Except Failure Nat :=
  if left + right < 2 ^ 64 then .ok (left + right) else .error .wrapped

/-- `(addr+alignment-1) & (-alignment)` -/
def alignTo (addr alignment : Nat) : Except Failure Nat := do
  let top ← add64 addr (alignment - 1)
  return top &&& (2 ^ 64 - alignment)

section Passes

variable (options : Options) (sections : Sections)

/-- The address of a section from the end of the one before, with the padding. -/
def alignSection (sect : FinalSection) (unalignedAddress fileOffset : Nat) :
    Except Failure Placement := do
  let address ← alignTo unalignedAddress (2 ^ sect.alignment.val)
  return ⟨address, address - unalignedAddress, fileOffset⟩

def addressAfter (sect : FinalSection) (address : Nat) : Except Failure Nat :=
  if !sect.hidden || options.hiddenSectionsOccupyAddressSpace then add64 address sect.size
  else .ok address

def checkRange (sect : FinalSection) (address : Nat) : Except Failure Unit := do
  let finish ← add64 address sect.size
  if finish > options.maxAddress ∧ options.outputKind ≠ .objectFile ∧
      options.outputKind ≠ .staticExecutable then
    .error .addressRangeExceeded
  else .ok ()

structure FixedPass where
  layout : Layout
  address : Nat
  lastSegName : String
  floatingAddressStart : Nat
  haveFixedSegments : Bool

/-- First pass: sections in segments with fixed start addresses. -/
def fixedStep (state : FixedPass) (i : Nat) : Except Failure FixedPass :=
  let sect := sections.sect i
  if !options.hasCustomSegmentAddress sect.segmentName then .ok state
  else do
    let restarts := options.segmentsArePageAligned && state.lastSegName != sect.segmentName
    let start := if restarts then options.customSegmentAddress sect.segmentName else state.address
    let placed ← alignSection sect start (state.layout i).fileOffset
    checkRange options sect placed.address
    let address ← addressAfter options sect placed.address
    return {
      layout := Function.update state.layout i placed
      address := address
      lastSegName := if restarts then sect.segmentName else state.lastSegName
      -- if TEXT segment address is fixed, then flow other segments after it
      floatingAddressStart :=
        if sect.segmentName = "__TEXT" then address else state.floatingAddressStart
      haveFixedSegments := true }

def fixedPass : Except Failure FixedPass :=
  (List.range sections.count).foldlM (fixedStep options sections) {
    -- mark all sections as not having an address yet
    layout := fun _ => ⟨noAddress, 0, 0⟩
    address := 0
    lastSegName := ""
    floatingAddressStart := options.baseAddress
    haveFixedSegments := false }

/-- The size of the last segment is rounded up when a segment begins. -/
def afterFixedStart (lastSegName segName : String) (finish : Nat) : Except Failure Nat :=
  if lastSegName ≠ segName ∧ options.segmentsArePageAligned then
    alignTo finish (options.segPageSize lastSegName)
  else .ok finish

/-- Second pass: sections in segments that are ordered after a segment with a fixed address. -/
def afterFixedStep (layout : Layout) (i : Nat) : Except Failure Layout :=
  let sect := sections.sect i
  if (layout i).address = noAddress ∧
      options.segmentOrderAfterFixedAddressSegment sect.segmentName then
    match i with
    | 0 => .error .noLastSection
    | last + 1 => do
      let lastSect := sections.sect last
      let finish ← add64 (layout last).address lastSect.size
      let start ← afterFixedStart options lastSect.segmentName sect.segmentName finish
      let placed ← alignSection sect start (layout i).fileOffset
      discard (addressAfter options sect placed.address)
      return Function.update layout i placed
  else .ok layout

def afterFixedPass (fixed : FixedPass) : Except Failure Layout :=
  if fixed.haveFixedSegments && !options.segmentOrder.isEmpty then
    (List.range sections.count).foldlM (afterFixedStep options sections) fixed.layout
  else .ok fixed.layout

/-- Sanity check it does not overlap a fixed address segment. -/
def overlapsFixed (layout : Layout) (i other : Nat) : Except Failure Bool :=
  let sect := sections.sect i
  let otherSect := sections.sect other
  if !options.hasCustomSegmentAddress otherSect.segmentName then .ok false
  else if otherSect.size = 0 then .ok false
  else if sect.size = 0 then .ok false
  else if (layout i).address > (layout other).address then do
    let finish ← add64 (layout other).address otherSect.size
    return finish > (layout i).address
  else do
    let finish ← add64 (layout i).address sect.size
    return finish > (layout other).address

structure FlowPass where
  layout : Layout
  address : Nat
  lastSegName : String
  overlapping : Bool
  prevSect : Option Nat

/-- If first section is more aligned than segment, move segment start up to match. -/
def moveFirstSection (layout : Layout) (prevSect : Option Nat) (i : Nat) : Except Failure Layout :=
  match prevSect with
  | none => .ok layout
  | some prev =>
    if (sections.sect prev).type = .firstSection ∧
        (sections.sect prev).segmentName = (sections.sect i).segmentName then
      if (sections.sect prev).size ≠ 0 then .error .assertion
      else if (layout prev).address ≠ (layout i).address then
        .ok (Function.update layout prev {
          address := (layout i).address
          alignmentPaddingBytes := (layout prev).alignmentPaddingBytes +
            ((layout i).address - (layout prev).address)
          fileOffset := (layout prev).fileOffset })
      else .ok layout
    else .ok layout

/-- Where a section starts before it is aligned: at the end of the one before, rounded up when
a segment begins. -/
def flowStart (lastSegName segName : String) (address : Nat) : Except Failure Nat :=
  if options.segmentsArePageAligned ∧ lastSegName ≠ segName then do
    let rounded ←
      if lastSegName ≠ "" then alignTo address (options.segPageSize lastSegName)
      else .ok address
    alignTo rounded options.segmentAlignment
  else .ok address

/-- Last pass: the remaining sections. -/
def flowStep (state : FlowPass) (i : Nat) : Except Failure FlowPass :=
  let sect := sections.sect i
  if (state.layout i).address ≠ noAddress then .ok state
  else if options.outputKind = .preload ∧ sect.type = .machHeader then
    .ok { state with
      layout := Function.update state.layout i { state.layout i with alignmentPaddingBytes := 0 } }
  else do
    let start ← flowStart options state.lastSegName sect.segmentName state.address
    let placed ← alignSection sect start (state.layout i).fileOffset
    let layout ← moveFirstSection sections (Function.update state.layout i placed) state.prevSect i
    checkRange options sect placed.address
    let overlaps ← (List.range sections.count).mapM (overlapsFixed options sections layout i)
    let address ← addressAfter options sect placed.address
    return {
      layout := layout
      address := address
      lastSegName := if options.segmentsArePageAligned then sect.segmentName else state.lastSegName
      overlapping := state.overlapping || overlaps.any id
      prevSect := some i }

def flowPass (layout : Layout) (floatingAddressStart : Nat) : Except Failure FlowPass :=
  (List.range sections.count).foldlM (flowStep options sections) {
    layout := layout
    address := floatingAddressStart
    lastSegName := ""
    overlapping := false
    prevSect := none }

def assignAddresses : Except Failure Layout := do
  let fixed ← fixedPass options sections
  let layout ← afterFixedPass options sections fixed
  let flow ← flowPass options sections layout fixed.floatingAddressStart
  if flow.overlapping then .error .overlapsFixedSection else .ok flow.layout

structure FilePass where
  layout : Layout
  fileOffset : Nat
  lastSegName : String

/-- Page align file offset at start of each segment. -/
def fileStart (lastSegName segName : String) (fileOffset : Nat) : Except Failure Nat :=
  if options.segmentsArePageAligned ∧ lastSegName ≠ "" ∧ lastSegName ≠ segName then
    alignTo fileOffset (options.segPageSize lastSegName)
  else .ok fileOffset

def fileStep (state : FilePass) (i : Nat) : Except Failure FilePass :=
  let sect := sections.sect i
  let padding := (state.layout i).alignmentPaddingBytes
  if options.hasZeroForFileOffset sect then do
    -- align file offset with address layout
    let fileOffset ← add64 state.fileOffset padding
    return { state with
      layout := Function.update state.layout i { state.layout i with fileOffset := 0 }
      fileOffset := fileOffset }
  else do
    let start ← fileStart options state.lastSegName sect.segmentName state.fileOffset
    let fileOffset ← add64 start padding
    let finish ← add64 fileOffset sect.size
    return {
      layout := Function.update state.layout i { state.layout i with fileOffset := fileOffset }
      fileOffset := finish
      lastSegName := sect.segmentName }

def filePass (layout : Layout) : Except Failure FilePass :=
  (List.range sections.count).foldlM (fileStep options sections) {
    layout := layout
    fileOffset := 0
    lastSegName := "" }

/-- The layout, and the total file size. -/
def assignFileOffsets : Except Failure (Layout × Nat) := do
  let layout ← assignAddresses options sections
  let file ← filePass options sections layout
  return (file.layout, file.fileOffset)

end Passes

end DeveloperTools.Ld64.SectionLayout
