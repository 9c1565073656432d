import Mathlib.Algebra.Group.Nat.Defs
import DeveloperTools.Lib.Walk

/-!
The branch island pass: where `makeIslandsForSection` puts regions of islands
into a text section, which islands it makes for the branches that are too long,
and how it splices them into the list of atoms. A fixup cluster is the group of
fixups that set a target, add an addend and store the result; the pass changes
the binding of the fixup that has the target and leaves the rest alone.
-/

namespace DeveloperTools.Ld64.BranchIslands

inductive Architecture where
  | arm
  | arm64
  | arm64_32
deriving DecidableEq, Repr

structure Options where
  architecture : Architecture
  archSupportsThumb2 : Bool
  outputSlidable : Bool
  preload : Bool

abbrev Atom := Nat

/-- An atom, or an island by the order in which the islands are made. -/
inductive Ref where
  | atom (atom : Atom)
  | island (index : Nat)
deriving DecidableEq, Repr

inductive FixupKind where
  | armBranch24
  | thumbBranch22
  | arm64Branch26
  | other
deriving DecidableEq, Repr

inductive Binding (Target : Type) where
  | byContentBound (target : Target)
  | directlyBound (target : Target)
  | indirectlyBound (bindingIndex : Nat)
deriving DecidableEq, Repr

structure Cluster (Target : Type) where
  offsetInAtom : Nat
  kind : FixupKind
  binding : Binding Target
  addend : BitVec 64
deriving DecidableEq, Repr

structure TextAtom where
  atom : Atom
  size : Nat
  powerOf2 : Nat
  modulus : Nat
  followOn : Bool
  clusters : List (Cluster Atom)

/-- What the pass asks about atoms: addresses and section indexes as in
`buildAddressMap`, section offsets of those not in the text section at hand. -/
structure Linkage where
  indirectBindingTable : Nat → Atom
  isThumb : Atom → Bool
  isStub : Atom → Bool
  sectionOffset : Atom → Nat
  address : Atom → Nat
  sectionIndex : Atom → Nat

/-- A text section: each atom once, all with the same section index, and branches
of the architecture only. -/
structure TextSection (opts : Options) where
  atoms : List TextAtom
  linkage : Linkage
  index : Nat
  distinct : (atoms.map TextAtom.atom).Nodup
  indexed : ∀ text ∈ atoms, linkage.sectionIndex text.atom = index
  branches : ∀ text ∈ atoms, ∀ cluster ∈ text.clusters, cluster.kind ≠ .other →
    (cluster.kind = .arm64Branch26 ↔ opts.architecture ≠ .arm)

def Binding.resolve {Target : Type} (table : Nat → Target) : Binding Target → Target
  | .byContentBound target => target
  | .directlyBound target => target
  | .indirectlyBound index => table index

def Binding.toRef : Binding Atom → Binding Ref
  | .byContentBound target => .byContentBound (.atom target)
  | .directlyBound target => .directlyBound (.atom target)
  | .indirectlyBound index => .indirectlyBound index

def Cluster.toRef (cluster : Cluster Atom) : Cluster Ref :=
  ⟨cluster.offsetInAtom, cluster.kind, cluster.binding.toRef, cluster.addend⟩

def textSizeWhenMightNeedBranchIslands (opts : Options) (seenThumbBranch : Bool) : Nat :=
  match opts.architecture with
  | .arm =>
    if !seenThumbBranch then 32000000
    else if opts.archSupportsThumb2 then 16000000
    else 4000000
  | .arm64 | .arm64_32 => 128000000

def maxDistanceBetweenIslands (opts : Options) (seenThumbBranch : Bool) : Nat :=
  match opts.architecture with
  | .arm =>
    if !seenThumbBranch then 30 * 1024 * 1024
    else if opts.archSupportsThumb2 then 14 * 1024 * 1024
    else 3500000
  | .arm64 | .arm64_32 => 124 * 1024 * 1024

structure Placed where
  text : TextAtom
  offset : Nat

def Placed.finish (placed : Placed) : Nat := placed.offset + placed.text.size

def alignAtom (text : TextAtom) (offset : Nat) : Nat :=
  let atomAlignP2 := 2 ^ text.powerOf2
  let currentModulus := offset % atomAlignP2
  if currentModulus ≠ text.modulus then
    if text.modulus > currentModulus then offset + (text.modulus - currentModulus)
    else offset + (text.modulus + atomAlignP2 - currentModulus)
  else offset

def assignOffsets : List TextAtom → Nat → List Placed
  | [], _ => []
  | text :: rest, offset =>
    ⟨text, alignAtom text offset⟩ :: assignOffsets rest (alignAtom text offset + text.size)

/-- The atoms after which islands go, the end of the last of them, and the last
place after it where islands could go. `none` when the pass gives up. -/
def insertionPoints (kBetweenRegions : Nat) : List Placed → Nat → Option Placed →
    Option (List Placed × Nat × Option Placed)
  | [], previousIslandEndAddr, insertionPoint => some ([], previousIslandEndAddr, insertionPoint)
  | placed :: rest, previousIslandEndAddr, insertionPoint =>
    if placed.finish > previousIslandEndAddr + kBetweenRegions then
      match insertionPoint with
      | none => none
      | some point =>
        (insertionPoints kBetweenRegions rest point.finish
          (if placed.text.followOn then none else some placed)).map
            fun (points, found) => (point :: points, found)
    else
      insertionPoints kBetweenRegions rest previousIslandEndAddr
        (if placed.text.followOn then insertionPoint else some placed)

structure Layout where
  placed : List Placed
  totalTextSize : Nat
  kBetweenRegions : Nat
  points : List Placed

inductive Plan where
  | notNeeded
  | noInsertionPoint
  | regions (layout : Layout)

section Section

variable {opts : Options} (text : TextSection opts)

def targetOf (cluster : Cluster Atom) : Atom :=
  cluster.binding.resolve text.linkage.indirectBindingTable

def hasThumbBranches : Bool :=
  text.atoms.any fun atom => atom.clusters.any fun cluster => cluster.kind = .thumbBranch22

def crossSectionBranch (atom target : Atom) : Bool :=
  opts.preload && text.linkage.sectionIndex atom != text.linkage.sectionIndex target

def haveCrossSectionBranches : Bool :=
  text.atoms.any fun atom => atom.clusters.any fun cluster =>
    (cluster.kind = .armBranch24 || cluster.kind = .thumbBranch22) &&
      !text.linkage.isStub (targetOf text cluster) &&
      crossSectionBranch text atom.atom (targetOf text cluster)

/-- One more region after the last atom when that is close to the limit. -/
def withLastPoint (kBetweenRegions : Nat) (points : List Placed) (previousIslandEndAddr : Nat) :
    Option Placed → List Placed
  | none => points
  | some point =>
    if point.finish > previousIslandEndAddr + (kBetweenRegions - 0x100000) then points ++ [point]
    else points

/-- The regions; there is one at the end of the section when only branches to other
sections ask for islands. -/
def regionPoints (placed : List Placed) (kBetweenRegions : Nat) : Option (List Placed) :=
  (insertionPoints kBetweenRegions placed 0 none).map fun (points, last, insertionPoint) =>
    let points := withLastPoint kBetweenRegions points last insertionPoint
    if haveCrossSectionBranches text && points.isEmpty then placed.getLast?.toList else points

def sectionLayout (stubsSize : Nat) : Layout :=
  let placed := assignOffsets text.atoms 0
  ⟨placed, (placed.getLast?.map Placed.finish).getD 0 + stubsSize,
    maxDistanceBetweenIslands opts (hasThumbBranches text), []⟩

def plan (stubsSize : Nat) : Plan :=
  let layout := sectionLayout text stubsSize
  if layout.totalTextSize < textSizeWhenMightNeedBranchIslands opts (hasThumbBranches text) ∧
      ¬ haveCrossSectionBranches text then
    .notNeeded
  else
    match regionPoints text layout.placed layout.kBetweenRegions with
    | none => .noInsertionPoint
    | some points => .regions { layout with points := points }

end Section

structure TargetAndOffset where
  atom : Atom
  offset : BitVec 32
deriving DecidableEq, Repr

inductive IslandKind where
  | arm64
  | armToArm
  | thumb1ToThumb
  | noPicThumb1ToThumb
  | thumb2ToThumb
  | thumb2ToThumbAbsolute
deriving DecidableEq, Repr

structure Island where
  kind : IslandKind
  region : Nat
  nextTarget : Ref
  finalTarget : TargetAndOffset
deriving DecidableEq, Repr

def islandKind (opts : Options) (kind : FixupKind) (thumbTarget crossSection : Bool) : IslandKind :=
  match kind with
  | .arm64Branch26 => .arm64
  | _ =>
    if crossSection && opts.archSupportsThumb2 then .thumb2ToThumbAbsolute
    else if thumbTarget then
      if opts.archSupportsThumb2 then .thumb2ToThumb
      else if opts.outputSlidable then .thumb1ToThumb
      else .noPicThumb1ToThumb
    else .armToArm

/-- The island of a region for a target, or a new one that goes on to `next`. A
region's map and its list are both read off the islands in the order they were
made. -/
def islandIn (kind : IslandKind) (finalTarget : TargetAndOffset) (made : List Island) (next : Ref)
    (region : Nat) : List Island × Ref :=
  match made.findIdx? fun island => island.region = region ∧ island.finalTarget = finalTarget with
  | some index => (made, .island index)
  | none => (made ++ [⟨kind, region, next, finalTarget⟩], .island made.length)

def islandChain (kind : IslandKind) (finalTarget : TargetAndOffset) :
    List Nat → List Island → Ref → List Island × Ref
  | [], made, next => (made, next)
  | region :: rest, made, next =>
    let (made', next') := islandIn kind finalTarget made next region
    islandChain kind finalTarget rest made' next'

section Branches

variable {opts : Options} (text : TextSection opts) (layout : Layout)

def sectionOffsetOf (atom : Atom) : Nat :=
  ((layout.placed.find? fun placed => placed.text.atom = atom).map Placed.offset).getD
    (text.linkage.sectionOffset atom)

def positionOf (atom : Atom) : Nat :=
  if opts.preload then text.linkage.address atom else sectionOffsetOf text layout atom

def srcAddr (placed : Placed) (cluster : Cluster Atom) : Int :=
  (if opts.preload then text.linkage.address placed.text.atom else placed.offset) +
    cluster.offsetInAtom

/-- Stubs are taken to be at the end of the text. -/
def dstAddr (target : Atom) (addend : Int) : Int :=
  if text.linkage.isStub target then layout.totalTextSize
  else positionOf text layout target + addend

def regionAddress (region : Nat) : Int :=
  ((layout.points[region]?).map fun point => (point.finish : Int)).getD 0

/-- The regions a branch gets islands in, in the order the islands are looked up,
from the target to the source; `none` for a branch that stays as it is. -/
def islandRegions (placed : Placed) (cluster : Cluster Atom) : Option (List Nat) :=
  let target := targetOf text cluster
  let src := srcAddr text placed cluster
  let dst := dstAddr text layout target cluster.addend.toInt
  let regions := List.range layout.points.length
  if crossSectionBranch text placed.text.atom target ∧
      (dst - src > layout.kBetweenRegions ∨ dst - src < -layout.kBetweenRegions) then
    some [0]
  else if dst - src > layout.kBetweenRegions then
    some (regions.filter fun region =>
      src < regionAddress layout region ∧ regionAddress layout region ≤ dst).reverse
  else if dst - src < -layout.kBetweenRegions then
    some (regions.filter fun region =>
      dst < regionAddress layout region ∧ regionAddress layout region ≤ src)
  else none

/-- A branch after its islands are made. There is no answer when an island is to go
into the first region and there is no region. -/
def redirect (placed : Placed) (made : List Island) (cluster : Cluster Atom) :
    Option (List Island × Cluster Ref) :=
  if cluster.kind = .other then some (made, cluster.toRef)
  else match islandRegions text layout placed cluster with
    | none => some (made, cluster.toRef)
    | some regions =>
      if regions = [0] ∧ layout.points = [] then none
      else
        let target := targetOf text cluster
        let kind := islandKind opts cluster.kind (text.linkage.isThumb target)
          (crossSectionBranch text placed.text.atom target)
        let (made', next) := islandChain kind ⟨target, cluster.addend.setWidth 32⟩ regions made
          (.atom target)
        some (made', { cluster.toRef with binding := .directlyBound next })

def redirectAll (placed : Placed) : List (Cluster Atom) → List Island →
    Option (List Island × List (Cluster Ref))
  | [], made => some (made, [])
  | cluster :: rest, made => do
    let (made', cluster') ← redirect text layout placed made cluster
    let (made'', rest') ← redirectAll placed rest made'
    some (made'', cluster' :: rest')

def makeIslands : List Placed → List Island → Option (List Island × List (List (Cluster Ref)))
  | [], made => some (made, [])
  | placed :: rest, made => do
    let (made', clusters) ← redirectAll text layout placed placed.text.clusters made
    let (made'', rest') ← makeIslands rest made'
    some (made'', clusters :: rest')

end Branches

def regionsIslands (made : List Island) (region : Nat) : List Ref :=
  ((List.range made.length).filter fun index =>
    (made[index]?).map Island.region = some region).map Ref.island

def insertIslands (made : List Island) : List Placed → List Placed → Nat → List Ref
  | [], _, _ => []
  | placed :: rest, [], regionIndex =>
    .atom placed.text.atom :: insertIslands made rest [] regionIndex
  | placed :: rest, point :: points, regionIndex =>
    if placed.text.atom = point.text.atom then
      .atom placed.text.atom ::
        (regionsIslands made regionIndex ++ insertIslands made rest points (regionIndex + 1))
    else .atom placed.text.atom :: insertIslands made rest (point :: points) regionIndex

/-- The section after the pass: the fixups of its own atoms, the islands, and the
new list of atoms. -/
structure Result where
  fixups : List (List (Cluster Ref))
  islands : List Island
  order : List Ref
deriving DecidableEq, Repr

inductive Outcome where
  | failed
  | undefined
  | done (result : Result)
deriving DecidableEq, Repr

def makeIslandsForSection {opts : Options} (text : TextSection opts) (stubsSize : Nat) : Outcome :=
  match plan text stubsSize with
  | .notNeeded =>
    .done ⟨text.atoms.map fun atom => atom.clusters.map Cluster.toRef, [],
      text.atoms.map fun atom => .atom atom.atom⟩
  | .noInsertionPoint => .failed
  | .regions layout =>
    match makeIslands text layout layout.placed [] with
    | none => .undefined
    | some (made, fixups) =>
      .done ⟨fixups, made,
        if made.length > 0 then insertIslands made layout.placed layout.points 0
        else text.atoms.map fun atom => .atom atom.atom⟩

end DeveloperTools.Ld64.BranchIslands
