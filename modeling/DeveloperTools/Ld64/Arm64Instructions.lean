import DeveloperTools.Lib.Aarch64

/-!
Parsing and making of the instructions that optimisation hints rewrite, and the
fixups that store a page or a page offset. `none` is a failed assertion or, in
the fixups, an exception. A register number is five bits by its type, which is
what the assertions on registers ask.
-/

namespace DeveloperTools.Ld64.Arm64Instructions

open BitFields Aarch64

inductive SignExtension where
  | signedNot
  | signed32
  | signed64
deriving DecidableEq, Repr

structure LoadStoreInfo where
  reg : BitVec 5
  baseReg : BitVec 5
  offset : Nat
  size : Nat
  isStore : Bool
  isFloat : Bool
  signEx : SignExtension
deriving DecidableEq, Repr

structure AdrpInfo where
  destReg : BitVec 5
deriving DecidableEq, Repr

structure AddInfo where
  destReg : BitVec 5
  srcReg : BitVec 5
  addend : Nat
deriving DecidableEq, Repr

def makeNOP : BitVec 32 := 0xD503201F#32

/-- The bounds that `withinOneMeg` tests and `makeADR` and `makeLDRLiteral` assert. -/
def withinOneMeg (addr1 addr2 : BitVec 64) : Bool :=
  (addr2 - addr1).toInt < 1024 * 1024 ∧ -(1024 * 1024) < (addr2 - addr1).toInt

def literalOpcode (info : LoadStoreInfo) : Option (BitVec 32) :=
  match info.size with
  | 4 =>
    if info.isFloat then
      if info.signEx = .signedNot then some 0x1C000000#32 else none
    else if info.signEx = .signed64 then some 0x98000000#32
    else some 0x18000000#32
  | 8 =>
    if info.signEx = .signedNot then
      some (if info.isFloat then 0x5C000000#32 else 0x58000000#32)
    else none
  | 16 => if info.signEx = .signedNot then some 0x9C000000#32 else none
  | _ => none

def makeLDRLiteral (info : LoadStoreInfo) (targetAddress instructionAddress : BitVec 64) :
    Option (BitVec 32) :=
  let delta := targetAddress - instructionAddress
  if withinOneMeg instructionAddress targetAddress ∧ targetAddress &&& 0x3#64 = 0#64 ∧
      instructionAddress &&& 0x3#64 = 0#64 ∧ ¬ info.isStore then
    let imm19 := (delta <<< 3 &&& 0x00FFFFE0#64).setWidth 32
    (literalOpcode info).map fun instruction => instruction ||| imm19 ||| info.reg.setWidth 32
  else none

def makeADR (destReg : BitVec 5) (targetAddress instructionAddress : BitVec 64) :
    Option (BitVec 32) :=
  let delta := targetAddress - instructionAddress
  if instructionAddress &&& 0x3#64 = 0#64 ∧ withinOneMeg instructionAddress targetAddress then
    let immhi := ((delta &&& 0x001FFFFC#64) <<< 3).setWidth 32
    let immlo := ((delta &&& 0x00000003#64) <<< 29).setWidth 32
    some (0x10000000#32 ||| immhi ||| immlo ||| destReg.setWidth 32)
  else none

def loadOpc : SignExtension → BitVec 32
  | .signedNot => 1#32
  | .signed32 => 3#32
  | .signed64 => 2#32

/-- The size and opc bits of a load or store, with the assertions of its size. -/
def sizeAndOpc (info : LoadStoreInfo) : Option (BitVec 32 × BitVec 32) :=
  match info.size with
  | 1 => some (0#32, if info.isStore then 0#32 else loadOpc info.signEx)
  | 2 =>
    if info.offset % 2 = 0 then
      some (1#32, if info.isStore then 0#32 else loadOpc info.signEx)
    else none
  | 4 =>
    if info.offset % 4 = 0 then
      if info.isStore then some (2#32, 0#32)
      else if info.signEx = .signed32 then none
      else some (2#32, loadOpc info.signEx)
    else none
  | 8 =>
    if info.offset % 8 = 0 then
      if info.isStore then some (3#32, 0#32)
      else if info.signEx = .signedNot then some (3#32, 1#32)
      else none
    else none
  | 16 =>
    if info.offset % 16 = 0 ∧ info.isFloat then
      some (0#32, if info.isStore then 2#32 else 3#32)
    else none
  | _ => none

def makeLoadOrStore (info : LoadStoreInfo) : Option (BitVec 32) :=
  let instruction := 0x39000000#32 ||| (if info.isFloat then 0x04000000#32 else 0#32) |||
    info.reg.setWidth 32 ||| info.baseReg.setWidth 32 <<< 5
  let imm12Bits := info.offset / info.size
  (sizeAndOpc info).bind fun (sizeBits, opcBits) =>
    if imm12Bits < 4096 then
      some (instruction ||| sizeBits <<< 30 ||| opcBits <<< 22 ||| BitVec.ofNat 32 imm12Bits <<< 10)
    else none

/-- The size, direction and sign extension that `parseLoadOrStore` reads off the size and
opc bits. -/
def loadStoreKind (isFloat : Bool) (bits : BitVec 32) : Option (Nat × Bool × SignExtension) :=
  if bits = 0x00000000#32 then some (1, true, .signedNot)
  else if bits = 0x00400000#32 then some (1, false, .signedNot)
  else if bits = 0x00800000#32 then
    if isFloat then some (16, true, .signedNot) else some (1, false, .signed64)
  else if bits = 0x00C00000#32 then
    if isFloat then some (16, false, .signedNot) else some (1, false, .signed32)
  else if bits = 0x40000000#32 then some (2, true, .signedNot)
  else if bits = 0x40400000#32 then some (2, false, .signedNot)
  else if bits = 0x40800000#32 then some (2, false, .signed64)
  else if bits = 0x40C00000#32 then some (2, false, .signed32)
  else if bits = 0x80000000#32 then some (4, true, .signedNot)
  else if bits = 0x80400000#32 then some (4, false, .signedNot)
  else if bits = 0x80800000#32 then some (4, false, .signed64)
  else if bits = 0xC0000000#32 then some (8, true, .signedNot)
  else if bits = 0xC0400000#32 then some (8, false, .signedNot)
  else none

def parseLoadOrStore (instruction : BitVec 32) : Option LoadStoreInfo :=
  if instruction &&& 0x3B000000#32 ≠ 0x39000000#32 then none
  else
    let isFloat : Bool := instruction &&& 0x04000000#32 ≠ 0#32
    (loadStoreKind isFloat (instruction &&& 0xC0C00000#32)).map fun (size, isStore, signEx) =>
      { reg := instruction.extractLsb' 0 5
        baseReg := instruction.extractLsb' 5 5
        offset := (instruction >>> 10 &&& 0x0FFF#32).toNat * size
        size, isStore, isFloat, signEx }

def parseADRP (instruction : BitVec 32) : Option AdrpInfo :=
  if instruction &&& 0x9F000000#32 ≠ 0x90000000#32 then none
  else some { destReg := instruction.extractLsb' 0 5 }

def parseADD (instruction : BitVec 32) : Option AddInfo :=
  if instruction &&& 0xFFC00000#32 ≠ 0x91000000#32 then none
  else
    some {
      destReg := instruction.extractLsb' 0 5
      srcReg := instruction.extractLsb' 5 5
      addend := (instruction >>> 10 &&& 0xFFF#32).toNat }

inductive PageKind where
  | page
  | gotLoad
  | gotLea
  | tlvpLoad
  | tlvpLoadNowLea
deriving DecidableEq, Repr

inductive PageOffKind where
  | pageOff
  | convertAddToLoad
  | gotLoad
  | gotLea
  | tlvpLoad
  | tlvpLoadNowLea
deriving DecidableEq, Repr

def pageOf (address : BitVec 64) : BitVec 64 := address &&& ~~~0xFFF#64

def pageOffset (address : BitVec 64) : BitVec 64 := address &&& 0xFFF#64

def rangeCheckARM64Page21 (displacement : BitVec 64) : Bool :=
  displacement.toInt ≤ 0x100000000 ∧ -0x100000000 ≤ displacement.toInt

/-- The page21 kinds of `applyFixUps`, which all store alike. -/
def storePage21 (instruction : BitVec 32) (instructionAddress accumulator : BitVec 64) :
    Option (BitVec 32) :=
  let delta := pageOf accumulator - pageOf instructionAddress
  if rangeCheckARM64Page21 delta then
    let immhi := (delta.sshiftRight 9 &&& 0x00FFFFE0#64).setWidth 32
    let immlo := (delta <<< 17 &&& 0x60000000#64).setWidth 32
    some (instruction &&& 0x9F00001F#32 ||| immlo ||| immhi)
  else none

/-- The implicit scale factor of a load or store, which the offset must be a multiple of. -/
def implicitShift (instruction offset : BitVec 32) : Option Nat :=
  if instruction &&& 0x08000000#32 ≠ 0#32 then
    let shift := (instruction >>> 30 &&& 0x3#32).toNat
    -- vector and byte LDR/STR have same size bits
    if shift = 0 then
      if instruction &&& 0x04800000#32 = 0x04800000#32 then
        if offset &&& 0xF#32 ≠ 0#32 then none else some 4
      else some 0
    else if shift = 1 then
      if offset &&& 0x1#32 ≠ 0#32 then none else some 1
    else if shift = 2 then
      if offset &&& 0x3#32 ≠ 0#32 then none else some 2
    else if offset &&& 0x7#32 ≠ 0#32 then none
    else some 3
  else some 0

/-- The kinds that keep the instruction and set its offset. -/
def storeOffset12 (instruction : BitVec 32) (accumulator : BitVec 64) : Option (BitVec 32) :=
  let offset : BitVec 32 := (pageOffset accumulator).setWidth 32
  (implicitShift instruction offset).map fun shift =>
    instruction &&& 0xFFC003FF#32 ||| (offset >>> shift : BitVec 32) <<< 10

/-- The kinds that turn a load into an ADD. -/
def storeLea12 (instruction : BitVec 32) (accumulator : BitVec 64) : Option (BitVec 32) :=
  if instruction &&& 0xBFC00000#32 ≠ 0xB9400000#32 then none
  else
    let offset : BitVec 32 := (pageOffset accumulator).setWidth 32
    some (0x91000000#32 ||| offset <<< 10 ||| instruction &&& 0x000003FF#32)

def convertAddToLoad (instruction : BitVec 32) : Option (BitVec 32) :=
  (parseADD instruction).bind fun addInfo =>
    makeLoadOrStore {
      reg := addInfo.destReg, baseReg := addInfo.srcReg, offset := addInfo.addend
      size := 8, isStore := false, isFloat := false, signEx := .signedNot }

def storePageOff12 (kind : PageOffKind) (instruction : BitVec 32) (accumulator : BitVec 64) :
    Option (BitVec 32) :=
  match kind with
  | .pageOff | .gotLoad | .tlvpLoad => storeOffset12 instruction accumulator
  | .convertAddToLoad => (storeOffset12 instruction accumulator).bind convertAddToLoad
  | .gotLea | .tlvpLoadNowLea => storeLea12 instruction accumulator

end DeveloperTools.Ld64.Arm64Instructions
