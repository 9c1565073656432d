import DeveloperTools.Ld64.Arm64Decoding

/-!
A hint names the instructions that form an address and use it. The first pass over
an atom's hints replaces them by shorter forms where the distances allow: a literal
load, an ADR, or one load or store with the offset merged in. A hint whose checks
fail is ignored with a warning; a failed assertion stops the linker.
-/

namespace DeveloperTools.Ld64.OptimizationHints

open Aarch64 Arm64Instructions

inductive StoreKind where
  | page21 (kind : PageKind)
  | pageOff12 (kind : PageOffKind)
  | other
deriving DecidableEq, Repr

/-- A fixup at an instruction: one store kind, or a cluster that sets a target, adds an
addend and ends with the store. -/
structure Fixup where
  clustered : Bool
  store : StoreKind
  target : Nat
  targetSegmentName : String
  targetAddress : BitVec 64
deriving DecidableEq, Repr

structure Atom where
  finalAddress : BitVec 64
  segmentName : String
  content : Nat → BitVec 32
  usedByHints : Nat → Option Fixup

inductive HintKind where
  | adrpLdr
  | adrpAddLdr
  | adrpLdrGotLdr
  | adrpAddStr
  | adrpLdrGotStr
  | adrpAdd
  | adrpLdrGot
deriving DecidableEq, Repr

structure Hint where
  kind : HintKind
  count : BitVec 2
  offsetInAtom : Nat
  delta1 : BitVec 14
  delta2 : BitVec 14
  delta3 : BitVec 14
deriving DecidableEq, Repr

inductive Architecture where
  | arm64
  | arm64_32
deriving DecidableEq, Repr

structure Options where
  architecture : Architecture
  sharedRegionEligible : Bool
  sharedRegionEncodingV2 : Bool
deriving DecidableEq, Repr

def isPageKind (fixup : Option Fixup) (mustBeGOT : Bool) : Bool :=
  match fixup with
  | none => false
  | some fixup =>
    match fixup.store with
    | .page21 .page => !mustBeGOT
    | .page21 _ => true
    | .pageOff12 _ | .other => false

def isPageOffsetKind (fixup : Option Fixup) (mustBeGOT : Bool) : Bool :=
  match fixup with
  | none => false
  | some fixup =>
    match fixup.store with
    | .pageOff12 .pageOff => !mustBeGOT
    -- a cluster never ends with this kind
    | .pageOff12 .convertAddToLoad => !mustBeGOT && !fixup.clustered
    | .pageOff12 _ => true
    | .page21 _ | .other => false

structure InstructionInfo where
  offsetInAtom : Nat
  fixup : Option Fixup
  instructionAddress : BitVec 64
  instruction : BitVec 32
deriving DecidableEq, Repr

def InstructionInfo.targetAddress (info : InstructionInfo) : BitVec 64 :=
  (info.fixup.map Fixup.targetAddress).getD 0#64

def InstructionInfo.target (info : InstructionInfo) : Option Nat := info.fixup.map Fixup.target

def setInfo (atom : Atom) (offsetInAtom : Nat) (delta : BitVec 14) : InstructionInfo :=
  let offset := offsetInAtom + 4 * delta.toNat
  { offsetInAtom := offset
    fixup := atom.usedByHints offset
    instructionAddress := atom.finalAddress + BitVec.ofNat 64 offset
    instruction := atom.content offset }

structure Site where
  architecture : Architecture
  count : BitVec 2
  infoA : InstructionInfo
  infoB : InstructionInfo
  infoC : InstructionInfo
  usableSegment : Bool
deriving DecidableEq, Repr

def usableSegment (options : Options) (atom : Atom) (infoB : InstructionInfo) : Bool :=
  if options.sharedRegionEligible then
    if options.sharedRegionEncodingV2 then false
    else
      match infoB.fixup with
      | none => false
      | some fixup => atom.segmentName = fixup.targetSegmentName
  else true

def siteOf (options : Options) (atom : Atom) (hint : Hint) : Site :=
  let infoB := setInfo atom hint.offsetInAtom hint.delta2
  { architecture := options.architecture
    count := hint.count
    infoA := setInfo atom hint.offsetInAtom hint.delta1
    infoB
    infoC := setInfo atom hint.offsetInAtom hint.delta3
    usableSegment := usableSegment options atom infoB }

inductive Stop where
  | ignored
  | assertion
deriving DecidableEq, Repr

/-- The words to store, by their offset in the atom and in order. -/
abbrev Edits := List (Nat × BitVec 32)

abbrev Result := Except Stop Edits

def lohAssert (condition : Prop) [Decidable condition] (rest : Result) : Result :=
  if condition then rest else .error .ignored

def lohParse {α : Type} (parsed : Option α) (rest : α → Result) : Result :=
  match parsed with
  | some info => rest info
  | none => .error .ignored

def asserted (made : Option (BitVec 32)) (rest : BitVec 32 → Result) : Result :=
  match made with
  | some word => rest word
  | none => .error .assertion

def literalableSize (info : LoadStoreInfo) : Prop := info.size ≠ 1 ∧ info.size ≠ 2

instance (info : LoadStoreInfo) : Decidable (literalableSize info) :=
  inferInstanceAs (Decidable (_ ∧ _))

def fourByteAligned (address : BitVec 64) : Prop := address &&& 0x3#64 = 0#64

instance (address : BitVec 64) : Decidable (fourByteAligned address) :=
  inferInstanceAs (Decidable (_ = _))

/-- The checks on count, fixups and targets, with which every kind starts. -/
def FixupsMatch (site : Site) (count : BitVec 2) (mustBeGOT : Bool) : Prop :=
  site.count = count ∧ isPageKind site.infoA.fixup mustBeGOT ∧
    isPageOffsetKind site.infoB.fixup mustBeGOT ∧
    (count = 2#2 → site.infoC.fixup = none) ∧
    site.infoA.target = site.infoB.target ∧
    site.infoA.targetAddress = site.infoB.targetAddress

instance (site : Site) (count : BitVec 2) (mustBeGOT : Bool) :
    Decidable (FixupsMatch site count mustBeGOT) :=
  inferInstanceAs (Decidable (_ ∧ _))

section Kinds

variable (site : Site)

def Site.targetAt (offset : Nat) : BitVec 64 := site.infoA.targetAddress + BitVec.ofNat 64 offset

def adrpLdr : Result :=
  let infoA := site.infoA
  let infoB := site.infoB
  lohAssert (FixupsMatch site 1#2 false) <|
  lohParse (parseADRP infoA.instruction) fun adrpInfoA =>
  match parseLoadOrStore infoB.instruction with
  | none =>
    -- LDRs transformed to ADD by the TLV pass are silently ignored
    lohAssert (infoB.fixup.any fun fixup =>
      !fixup.clustered && fixup.store = .pageOff12 .tlvpLoadNowLea) (.ok [])
  | some ldrInfoB =>
    lohAssert (ldrInfoB.baseReg = adrpInfoA.destReg ∧
      BitVec.ofNat 64 ldrInfoB.offset = pageOffset infoA.targetAddress) <|
    if literalableSize ldrInfoB ∧ site.usableSegment ∧ fourByteAligned infoA.targetAddress ∧
        withinOneMeg infoB.instructionAddress infoA.targetAddress then
      asserted (makeLDRLiteral ldrInfoB infoA.targetAddress infoB.instructionAddress)
        fun literal =>
          .ok [(infoA.offsetInAtom, makeNOP), (infoB.offsetInAtom, literal)]
    else .ok []

def adrpAdd : Result :=
  let infoA := site.infoA
  let infoB := site.infoB
  lohAssert (FixupsMatch site 1#2 false) <|
  lohParse (parseADRP infoA.instruction) fun adrpInfoA =>
  lohParse (parseADD infoB.instruction) fun addInfoB =>
  lohAssert (adrpInfoA.destReg = addInfoB.srcReg) <|
  if site.usableSegment ∧ withinOneMeg infoA.targetAddress infoA.instructionAddress then
    asserted (makeADR addInfoB.destReg infoA.targetAddress infoA.instructionAddress) fun adr =>
      .ok [(infoA.offsetInAtom, adr), (infoB.offsetInAtom, makeNOP)]
  else .ok []

/-- The transformation T1: a literal load. -/
def makeLiteral (ldrInfoC : LoadStoreInfo) : Result :=
  asserted (makeLDRLiteral ldrInfoC (site.targetAt ldrInfoC.offset)
      site.infoC.instructionAddress) fun literal =>
    .ok [(site.infoA.offsetInAtom, makeNOP), (site.infoB.offsetInAtom, makeNOP),
      (site.infoC.offsetInAtom, literal)]

/-- The transformation T4 with the whole offset moved into the ADR. -/
def moveOffset (ldrInfoC : LoadStoreInfo) : Result :=
  asserted (makeADR ldrInfoC.baseReg (site.targetAt ldrInfoC.offset)
      site.infoA.instructionAddress) fun adr =>
    asserted (makeLoadOrStore { ldrInfoC with offset := 0 }) fun access =>
      .ok [(site.infoA.offsetInAtom, adr), (site.infoB.offsetInAtom, makeNOP),
        (site.infoC.offsetInAtom, access),
        (site.infoC.offsetInAtom, site.infoC.instruction &&& 0xFFC003FF#32)]

/-- The transformation T4 with the offset left in the load or store. -/
def keepOffset (ldrInfoC : LoadStoreInfo) : Result :=
  asserted (makeADR ldrInfoC.baseReg site.infoA.targetAddress
      site.infoA.instructionAddress) fun adr =>
    asserted (makeLoadOrStore ldrInfoC) fun access =>
      .ok [(site.infoA.offsetInAtom, adr), (site.infoB.offsetInAtom, makeNOP),
        (site.infoC.offsetInAtom, access)]

/-- The transformation T2: the load or store takes the place of the ADD. -/
def mergeAdd (merged : LoadStoreInfo) : Result :=
  asserted (makeLoadOrStore merged) fun access =>
    .ok [(site.infoB.offsetInAtom, makeNOP), (site.infoC.offsetInAtom, access)]

def adrpAddLdr : Result :=
  let infoA := site.infoA
  let infoB := site.infoB
  let infoC := site.infoC
  lohAssert (FixupsMatch site 2#2 false) <|
  lohParse (parseADRP infoA.instruction) fun adrpInfoA =>
  lohParse (parseADD infoB.instruction) fun addInfoB =>
  lohAssert (adrpInfoA.destReg = addInfoB.srcReg) <|
  lohParse (parseLoadOrStore infoC.instruction) fun ldrInfoC =>
  lohAssert (addInfoB.destReg = ldrInfoC.baseReg) <|
  if literalableSize ldrInfoC ∧ site.usableSegment ∧
      fourByteAligned (site.targetAt ldrInfoC.offset) ∧
      withinOneMeg infoC.instructionAddress (site.targetAt ldrInfoC.offset) then
    makeLiteral site ldrInfoC
  else if site.usableSegment ∧
      withinOneMeg infoA.instructionAddress (site.targetAt ldrInfoC.offset) then
    moveOffset site ldrInfoC
  else if infoB.targetAddress.toNat % ldrInfoC.size = 0 ∧ ldrInfoC.offset = 0 then
    mergeAdd site { ldrInfoC with
      offset := ldrInfoC.offset + addInfoB.addend, baseReg := adrpInfoA.destReg }
  else .ok []

def adrpAddStr : Result :=
  let infoA := site.infoA
  let infoB := site.infoB
  let infoC := site.infoC
  lohAssert (FixupsMatch site 2#2 false) <|
  lohParse (parseADRP infoA.instruction) fun adrpInfoA =>
  lohParse (parseADD infoB.instruction) fun addInfoB =>
  lohAssert (adrpInfoA.destReg = addInfoB.srcReg) <|
  lohParse (parseLoadOrStore infoC.instruction) fun ldrInfoC =>
  lohAssert (ldrInfoC.isStore) <|
  lohAssert (addInfoB.destReg = ldrInfoC.baseReg) <|
  if site.usableSegment ∧
      withinOneMeg infoA.instructionAddress (site.targetAt ldrInfoC.offset) then
    moveOffset site ldrInfoC
  else if infoB.targetAddress.toNat % ldrInfoC.size = 0 ∧ ldrInfoC.offset = 0 then
    -- the base register stays that of the ADD's result
    mergeAdd site { ldrInfoC with offset := ldrInfoC.offset + addInfoB.addend }
  else .ok []

/-- The transformation T5: a literal load of the GOT slot. -/
def makeGotLiteral (ldrInfoB : LoadStoreInfo) : Result :=
  asserted (makeLDRLiteral ldrInfoB site.infoA.targetAddress
      site.infoB.instructionAddress) fun literal =>
    .ok [(site.infoA.offsetInAtom, makeNOP), (site.infoB.offsetInAtom, literal)]

/-- The GOT load of the two kinds that use the slot's content. -/
def gotLoad (ldrInfoB ldrInfoC : LoadStoreInfo) : Result :=
  lohAssert ((site.architecture = .arm64 ∧ ldrInfoB.size = 8 ∨
    site.architecture = .arm64_32 ∧ ldrInfoB.size = 4) ∧ ¬ ldrInfoB.isFloat ∧
    ldrInfoC.baseReg = ldrInfoB.reg) <|
  if site.usableSegment ∧ fourByteAligned (site.targetAt ldrInfoC.offset) ∧
      withinOneMeg site.infoB.instructionAddress (site.targetAt ldrInfoC.offset) then
    makeGotLiteral site ldrInfoB
  else .ok []

def adrpLdrGotLdr : Result :=
  let infoA := site.infoA
  let infoB := site.infoB
  let infoC := site.infoC
  lohAssert (FixupsMatch site 2#2 true) <|
  lohParse (parseADRP infoA.instruction) fun adrpInfoA =>
  lohParse (parseLoadOrStore infoC.instruction) fun ldrInfoC =>
  match parseLoadOrStore infoB.instruction, parseADD infoB.instruction with
  | some ldrInfoB, _ => gotLoad site ldrInfoB ldrInfoC
  | none, some addInfoB =>
    lohAssert (addInfoB.srcReg = adrpInfoA.destReg ∧ addInfoB.destReg = ldrInfoC.baseReg) <|
    if site.usableSegment ∧ literalableSize ldrInfoC ∧ fourByteAligned infoA.targetAddress ∧
        withinOneMeg infoC.instructionAddress (site.targetAt ldrInfoC.offset) then
      makeLiteral site ldrInfoC
    else if site.usableSegment ∧ withinOneMeg infoA.instructionAddress infoA.targetAddress then
      keepOffset site ldrInfoC
    else if infoA.targetAddress.toNat % ldrInfoC.size = 0 ∧
        addInfoB.addend + ldrInfoC.offset < 4096 then
      mergeAdd site { ldrInfoC with
        baseReg := adrpInfoA.destReg, offset := ldrInfoC.offset + addInfoB.addend }
    else .ok []
  | none, none => .ok []

def adrpLdrGotStr : Result :=
  let infoA := site.infoA
  let infoB := site.infoB
  let infoC := site.infoC
  lohAssert (FixupsMatch site 2#2 true) <|
  lohParse (parseADRP infoA.instruction) fun adrpInfoA =>
  lohParse (parseLoadOrStore infoC.instruction) fun ldrInfoC =>
  lohAssert (ldrInfoC.isStore) <|
  match parseLoadOrStore infoB.instruction, parseADD infoB.instruction with
  | some ldrInfoB, _ => gotLoad site ldrInfoB ldrInfoC
  | none, some addInfoB =>
    lohAssert (addInfoB.srcReg = adrpInfoA.destReg ∧ addInfoB.destReg = ldrInfoC.baseReg) <|
    if site.usableSegment ∧
        withinOneMeg infoA.instructionAddress infoA.targetAddress then
      keepOffset site ldrInfoC
    else if infoA.targetAddress.toNat % ldrInfoC.size = 0 ∧ ldrInfoC.offset = 0 then
      mergeAdd site { ldrInfoC with
        baseReg := adrpInfoA.destReg, offset := ldrInfoC.offset + addInfoB.addend }
    else .ok []
  | none, none => .ok []

def adrpLdrGot : Result :=
  let infoA := site.infoA
  let infoB := site.infoB
  lohAssert (FixupsMatch site 1#2 true) <|
  match parseADRP infoA.instruction with
  | none => .ok []
  | some _ =>
    match parseLoadOrStore infoB.instruction, parseADD infoB.instruction with
    | some ldrInfoB, _ =>
      if site.usableSegment ∧
          withinOneMeg infoB.instructionAddress infoA.targetAddress then
        makeGotLiteral site ldrInfoB
      else .ok []
    | none, some addInfoB =>
      if site.usableSegment ∧
          withinOneMeg infoA.instructionAddress infoA.targetAddress then
        asserted (makeADR addInfoB.destReg infoA.targetAddress infoA.instructionAddress)
          fun adr => .ok [(infoA.offsetInAtom, adr), (infoB.offsetInAtom, makeNOP)]
      else .ok []
    | none, none => .ok []

end Kinds

/-- The body of the loop of pass 1. -/
def applyHint (options : Options) (atom : Atom) (hint : Hint) : Result :=
  let site := siteOf options atom hint
  match hint.kind with
  | .adrpLdr => adrpLdr site
  | .adrpAddLdr => adrpAddLdr site
  | .adrpLdrGotLdr => adrpLdrGotLdr site
  | .adrpAddStr => adrpAddStr site
  | .adrpLdrGotStr => adrpLdrGotStr site
  | .adrpAdd => adrpAdd site
  | .adrpLdrGot => adrpLdrGot site

def edited (content : Nat → BitVec 32) (edits : Edits) : Nat → BitVec 32 :=
  edits.foldl (fun words edit => fun offset => if offset = edit.1 then edit.2 else words offset)
    content

def Site.instructions (site : Site) : List InstructionInfo :=
  if site.count = 1#2 then [site.infoA, site.infoB] else [site.infoA, site.infoB, site.infoC]

/-- The hint's instructions, in order, in some content of the atom. -/
def Site.program (site : Site) (content : Nat → BitVec 32) : List (BitVec 64 × BitVec 32) :=
  site.instructions.map fun info => (info.instructionAddress, content info.offsetInAtom)

inductive Meaning where
  | moves (shape : Transfer) (address : BitVec 64)
  | forms (value : BitVec 64)
deriving DecidableEq, Repr

/-- What a program does where the last original instruction is given: the value it leaves in the
destination of an ADD, the load or store it ends with otherwise. -/
def meaning (last : BitVec 32) (program : List (BitVec 64 × BitVec 32)) (m : Machine) :
    Option Meaning :=
  match decode last with
  | some (.add destination _ _) => (m.run program).map fun after => .forms (after.address destination)
  | _ => (m.lastTransfer program).map fun (shape, address) => .moves shape address

def Site.last (site : Site) : BitVec 32 :=
  if site.count = 1#2 then site.infoB.instruction else site.infoC.instruction

/-- On every machine the stores of a hint leave the meaning of its instructions as it was. -/
def Preserves (site : Site) (content : Nat → BitVec 32) (edits : Edits) : Prop :=
  ∀ m, meaning site.last (site.program (edited content edits)) m =
    meaning site.last (site.program content) m

end DeveloperTools.Ld64.OptimizationHints
