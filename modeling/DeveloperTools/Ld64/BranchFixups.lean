import DeveloperTools.Lib.PcRelative
import DeveloperTools.Ld64.FixupKinds
import DeveloperTools.Ld64.Arm64Instructions

/-!
The branch and PC-relative fixups of `OutputFile::applyFixUps`: what each kind computes, how it
checks the range and how it changes the four bytes at the fixup. `none` is an exception.

The kinds that store the accumulator and those that first take the address of a target
(`kindStoreTargetAddress...`) store alike. GOT and TLV loads that became LEA also change an
opcode and are not among them.
-/

namespace DeveloperTools.Ld64.BranchFixups

open BitFields PcRelative Arm64Instructions

/-- How a fixup is stored; `trailing` bytes follow the displacement in the instruction. -/
inductive Store where
  | x86PCRel8
  | x86PCRel16
  | x86PCRel32 (trailing : Nat)
  | armBranch24
  | thumbBranch22
  | arm64Branch26
  | arm64Page21
deriving DecidableEq, Repr

def storeOf : Kind → Option Store
  | .storeX86PCRel8 | .storeX86BranchPCRel8 => some .x86PCRel8
  | .storeX86PCRel16 => some .x86PCRel16
  | .storeX86BranchPCRel32 | .storeX86PCRel32 | .storeX86PCRel32GOTLoad | .storeX86PCRel32GOT
  | .storeX86PCRel32TLVLoad | .storeTargetAddressX86PCRel32
  | .storeTargetAddressX86BranchPCRel32 | .storeTargetAddressX86PCRel32GOTLoad
  | .storeTargetAddressX86PCRel32TLVLoad => some (.x86PCRel32 0)
  | .storeX86PCRel32_1 => some (.x86PCRel32 1)
  | .storeX86PCRel32_2 => some (.x86PCRel32 2)
  | .storeX86PCRel32_4 => some (.x86PCRel32 4)
  | .storeARMBranch24 | .storeTargetAddressARMBranch24 => some .armBranch24
  | .storeThumbBranch22 | .storeTargetAddressThumbBranch22 => some .thumbBranch22
  | .storeARM64Branch26 | .storeTargetAddressARM64Branch26 => some .arm64Branch26
  | .storeARM64Page21 | .storeARM64GOTLeaPage21 | .storeARM64GOTLoadPage21
  | .storeARM64TLVPLoadPage21 | .storeARM64TLVPLoadNowLeaPage21
  | .storeTargetAddressARM64Page21 | .storeTargetAddressARM64GOTLeaPage21
  | .storeTargetAddressARM64GOTLoadPage21 | .storeTargetAddressARM64TLVPLoadPage21
  | .storeTargetAddressARM64TLVPLoadNowLeaPage21 => some .arm64Page21
  | _ => none

structure Fixup where
  kind : Kind
  store : Store
  isStore : storeOf kind = some store
  contentAddendOnly : Bool
  contentDetlaToAddendOnly : Bool

/-- An atom that is referred to; a branch island has a fixup that names its ultimate target. -/
structure Target where
  address : BitVec 64
  isThumb : Bool
  islandTarget : Option (BitVec 64 × Bool)

/-- What a fixup is applied to, and the variables of the loop when it is reached. -/
structure Site where
  -- `archThumb2Support() >= Thumb2Support::branch24`
  thumb2Branch24 : Bool
  -- `atom->finalAddress() + fit->offsetInAtom`
  address : BitVec 64
  instruction : BitVec 32
  accumulator : BitVec 64
  thumbTarget : Bool
  target : Target

def rangeCheck8 (displacement : BitVec 64) : Bool :=
  displacement.toInt ≤ 127 ∧ -128 ≤ displacement.toInt

def rangeCheck16 (displacement : BitVec 64) : Bool :=
  displacement.toInt ≤ 0x7FFF ∧ -0x7FFF ≤ displacement.toInt

/-- `rangeCheckBranch32` and `rangeCheckRIP32`. -/
def rangeCheck32 (displacement : BitVec 64) : Bool :=
  displacement.toInt ≤ 0x7FFFFFFF ∧ -0x7FFFFFFF ≤ displacement.toInt

def checkArmBranch24Displacement (displacement : BitVec 64) : Bool :=
  displacement.toInt < 33554428 ∧ -33554432 < displacement.toInt

def checkThumbBranch22Displacement (thumb2Branch24 : Bool) (displacement : BitVec 64) : Bool :=
  if thumb2Branch24 then displacement.toInt ≤ 16777214 ∧ -16777216 ≤ displacement.toInt
  else displacement.toInt ≤ 4194302 ∧ -4194304 ≤ displacement.toInt

def rangeCheckARM64Branch26 (displacement : BitVec 64) : Bool :=
  displacement.toInt ≤ 0x07FFFFFF ∧ -0x07FFFFFF ≤ displacement.toInt

def Fixup.x86Delta (fixup : Fixup) (bytes trailing : Nat) (address accumulator : BitVec 64) :
    BitVec 64 :=
  if fixup.contentAddendOnly then
    if fixup.kind.takesAddress then 0 else accumulator - BitVec.ofNat 64 trailing
  else accumulator - (address + BitVec.ofNat 64 (bytes + trailing))

def setLow (bits : Nat) (instruction : BitVec 32) (delta : BitVec 64) : BitVec 32 :=
  instruction &&& ~~~ placed 32 0 (BitVec.allOnes bits) ||| placed 32 0 (delta.setWidth bits)

section Arm

variable (fixup : Fixup) (address accumulator : BitVec 64) (thumbTarget : Bool)
  (instruction : BitVec 32)

def storeARMBranch24 : Option (BitVec 32) :=
  let delta := accumulator - (address + 8#64)
  if !checkArmBranch24Displacement delta then none
  else
    let isBl := instruction &&& 0xFF000000#32 = 0xEB000000#32
    let isBlx := instruction &&& 0xFE000000#32 = 0xFA000000#32
    let isB := ¬ isBlx ∧ instruction &&& 0x0F000000#32 = 0x0A000000#32
    let disp := (delta.sshiftRight 2).setWidth 32 &&& 0x00FFFFFF#32
    if (isBl ∨ isBlx) ∧ thumbTarget then
      let hBit := (delta <<< 23).setWidth 32 &&& 0x01000000#32
      some (0xFA000000#32 ||| hBit ||| disp)
    else if (isBl ∨ isBlx) ∧ !thumbTarget then some (0xEB000000#32 ||| disp)
    else if isB ∧ thumbTarget then
      if fixup.contentDetlaToAddendOnly then some (instruction &&& 0xFF000000#32 ||| disp)
      else none
    else if ¬ isBl ∧ ¬ isBlx ∧ thumbTarget then none
    else some (instruction &&& 0xFF000000#32 ||| disp)

/-- Thumb code is at even addresses; for BLX bit 1 is that of the instruction's own address. -/
def thumbAddress : BitVec 64 :=
  if fixup.contentDetlaToAddendOnly then accumulator
  else if thumbTarget then accumulator &&& ~~~ 1#64
  else (accumulator &&& ~~~ 2#64) ||| (address &&& 2#64)

/-- `while ( delta < (-16777216LL) ) delta += 0x2000000;` -/
def intoReach (delta : Int) : Int :=
  if delta < -16777216 then intoReach (delta + 0x2000000) else delta
termination_by (-delta).toNat

def thumbDelta : BitVec 64 :=
  let delta := thumbAddress fixup address accumulator thumbTarget - (address + 4#64)
  if fixup.contentDetlaToAddendOnly then BitVec.ofInt 64 (intoReach delta.toInt) else delta

/-- The word with the displacement scattered over S, J1, J2, imm10 and imm11. -/
def thumb2Word (opcode : BitVec 32) (delta : BitVec 64) : BitVec 32 :=
  let s := (delta.sshiftRight 24).setWidth 32 &&& 0x1#32
  let i1 := (delta.sshiftRight 23).setWidth 32 &&& 0x1#32
  let i2 := (delta.sshiftRight 22).setWidth 32 &&& 0x1#32
  let imm10 := (delta.sshiftRight 12).setWidth 32 &&& 0x3FF#32
  let imm11 := (delta.sshiftRight 1).setWidth 32 &&& 0x7FF#32
  let j1 := if i1 = s then 1#32 else 0#32
  let j2 := if i2 = s then 1#32 else 0#32
  let nextDisp := j1 <<< 13 ||| j2 <<< 11 ||| imm11
  let firstDisp := s <<< 10 ||| imm10
  opcode ||| nextDisp <<< 16 ||| firstDisp

def thumb1Word (opcode : BitVec 32) (delta : BitVec 64) : BitVec 32 :=
  let firstDisp := (delta.sshiftRight 12).setWidth 32 &&& 0x7FF#32
  let nextDisp := (delta.sshiftRight 1).setWidth 32 &&& 0x7FF#32
  opcode ||| nextDisp <<< 16 ||| firstDisp

def isThumbBl : Prop := instruction &&& 0xD000F800#32 = 0xD000F000#32

def isThumbBlx : Prop := instruction &&& 0xD000F800#32 = 0xC000F000#32

def isThumbB : Prop := instruction &&& 0xD000F800#32 = 0x9000F000#32

instance : Decidable (isThumbBl instruction) := by unfold isThumbBl; infer_instance

instance : Decidable (isThumbBlx instruction) := by unfold isThumbBlx; infer_instance

instance : Decidable (isThumbB instruction) := by unfold isThumbB; infer_instance

def thumb2Opcode : Option (BitVec 32) :=
  if isThumbBl instruction ∨ isThumbBlx instruction then
    some (if thumbTarget then 0xD000F000#32 else 0xC000F000#32)
  else if isThumbB instruction then
    if !thumbTarget && !fixup.contentDetlaToAddendOnly then none else some 0x9000F000#32
  else if !thumbTarget then none
  else some 0x9000F000#32

def thumb1Opcode : Option (BitVec 32) :=
  if isThumbBl instruction ∧ !thumbTarget then some 0xE800F000#32
  else if isThumbBlx instruction ∧ thumbTarget then some 0xF800F000#32
  else if isThumbB instruction then
    if !thumbTarget && !fixup.contentDetlaToAddendOnly then none else some 0x9000F000#32
  else some (instruction &&& 0xF800F800#32)

def storeThumbBranch22 (thumb2Branch24 : Bool) : Option (BitVec 32) :=
  let delta := thumbDelta fixup address accumulator thumbTarget
  if !checkThumbBranch22Displacement thumb2Branch24 delta then none
  else if thumb2Branch24 then
    (thumb2Opcode fixup thumbTarget instruction).map fun opcode => thumb2Word opcode delta
  else (thumb1Opcode fixup thumbTarget instruction).map fun opcode => thumb1Word opcode delta

end Arm

def storeARM64Branch26 (fixup : Fixup) (address accumulator : BitVec 64)
    (instruction : BitVec 32) : Option (BitVec 32) :=
  let delta := if fixup.contentAddendOnly then accumulator else accumulator - address
  if rangeCheckARM64Branch26 delta then
    some (instruction &&& 0xFC000000#32 ||| ((delta.sshiftRight 2).setWidth 32 &&& 0x03FFFFFF#32))
  else none

/-- With the addend alone in the content the page of the instruction itself is stored. -/
def storeARM64Page21 (fixup : Fixup) (address accumulator : BitVec 64)
    (instruction : BitVec 32) : Option (BitVec 32) :=
  storePage21 instruction address (if fixup.contentAddendOnly then address else accumulator)

section Taking

variable (fixup : Fixup) (site : Site)

/-- A branch to an island goes to the island's target if that is in range. -/
def pastIsland (inRange : BitVec 64 → Bool → Bool) : BitVec 64 × Bool :=
  match site.target.islandTarget with
  | some (address, thumb) =>
    if inRange address thumb then (address, thumb)
    else (site.target.address, site.target.isThumb)
  | none => (site.target.address, site.target.isThumb)

def armIslandInRange (address : BitVec 64) (_ : Bool) : Bool :=
  checkArmBranch24Displacement (address - (site.address + 8#64))

def thumbIslandInRange (address : BitVec 64) (thumb : Bool) : Bool :=
  checkThumbBranch22Displacement site.thumb2Branch24
    (thumbAddress fixup site.address address thumb - (site.address + 4#64))

/-- The accumulator of an ARM or Thumb branch to an address. -/
def thumbBit (address : BitVec 64) (thumb : Bool) : BitVec 64 :=
  if fixup.contentDetlaToAddendOnly then 0 else if thumb then address ||| 1 else address

/-- The accumulator and `thumbTarget` when the fixup stores. -/
def taken : BitVec 64 × Bool :=
  if !fixup.kind.takesAddress then (site.accumulator, site.thumbTarget)
  else match fixup.store with
  | .armBranch24 =>
    let (address, thumb) := pastIsland site (armIslandInRange site)
    (thumbBit fixup address thumb, thumb)
  | .thumbBranch22 =>
    match site.target.islandTarget with
    | some (island, thumb) =>
      let island := thumbAddress fixup site.address island thumb
      if checkThumbBranch22Displacement site.thumb2Branch24 (island - (site.address + 4#64)) then
        (thumbBit fixup island thumb, thumb)
      else (thumbBit fixup site.target.address site.target.isThumb, site.target.isThumb)
    | none => (thumbBit fixup site.target.address site.target.isThumb, site.target.isThumb)
  | .arm64Branch26 | .arm64Page21 => (site.target.address, site.thumbTarget)
  | _ =>
    (if fixup.contentDetlaToAddendOnly then 0 else site.target.address, site.thumbTarget)

def applyFixUp : Option (BitVec 32) :=
  let (accumulator, thumbTarget) := taken fixup site
  match fixup.store with
  | .x86PCRel8 =>
    let delta := fixup.x86Delta 1 0 site.address accumulator
    if rangeCheck8 delta then some (setLow 8 site.instruction delta) else none
  | .x86PCRel16 =>
    let delta := fixup.x86Delta 2 0 site.address accumulator
    if rangeCheck16 delta then some (setLow 16 site.instruction delta) else none
  | .x86PCRel32 trailing =>
    let delta := fixup.x86Delta 4 trailing site.address accumulator
    if rangeCheck32 delta then some (setLow 32 site.instruction delta) else none
  | .armBranch24 => storeARMBranch24 fixup site.address accumulator thumbTarget site.instruction
  | .thumbBranch22 =>
    storeThumbBranch22 fixup site.address accumulator thumbTarget site.instruction
      site.thumb2Branch24
  | .arm64Branch26 => storeARM64Branch26 fixup site.address accumulator site.instruction
  | .arm64Page21 => storeARM64Page21 fixup site.address accumulator site.instruction

end Taking

end DeveloperTools.Ld64.BranchFixups
