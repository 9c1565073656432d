import DeveloperTools.Lib.Bytecode
import DeveloperTools.Lib.Leb128
import DeveloperTools.Ld64.SegmentLayout

/-!
`RebaseInfoAtom::encode` and `encodeV1` of `LinkEdit.hpp`: the sorted locations
become a buffer of opcodes with operands, three passes compact it in place, a
fourth one changes opcodes to their immediate forms, and what is left is written
as bytes. Then the machine that carries such bytes out.
-/

namespace DeveloperTools.Ld64.RebaseOpcodes

open Nibbles

abbrev Bytes := List UInt8

inductive Opcode where
  | done
  | setTypeImm
  | setSegmentAndOffsetUleb
  | addAddrUleb
  | addAddrImmScaled
  | doRebaseImmTimes
  | doRebaseUlebTimes
  | doRebaseAddAddrUleb
  | doRebaseUlebTimesSkippingUleb
deriving DecidableEq, Repr

/-- The opcodes occupy the high four bits. -/
def Opcode.code : Opcode → Nat
  | .done => 0x00
  | .setTypeImm => 0x10
  | .setSegmentAndOffsetUleb => 0x20
  | .addAddrUleb => 0x30
  | .addAddrImmScaled => 0x40
  | .doRebaseImmTimes => 0x50
  | .doRebaseUlebTimes => 0x60
  | .doRebaseAddAddrUleb => 0x70
  | .doRebaseUlebTimesSkippingUleb => 0x80

/-- `rebase_tmp`. Operands that count slots are not bounded here. -/
structure RebaseTmp where
  opcode : Opcode
  operand1 : Nat
  operand2 : Nat := 0
deriving DecidableEq, Repr

inductive RebaseType where
  | pointer
  | textAbsolute32
deriving DecidableEq, Repr

def RebaseType.code : RebaseType → Nat
  | .pointer => 1
  | .textAbsolute32 => 2

structure RebaseInfo where
  type : RebaseType
  address : Nat
deriving DecidableEq, Repr

/-- `RebaseInfo::operator<`, made reflexive. -/
def RebaseInfo.notAfter (left right : RebaseInfo) : Bool :=
  left.type.code < right.type.code ∨
    (left.type.code = right.type.code ∧ left.address ≤ right.address)

structure Encoder where
  curSegStart : Nat := 0
  curSegEnd : Nat := 0
  curSegIndex : Nat := 0
  type : Nat := 0
  address : Nat := 2 ^ 64 - 1
deriving DecidableEq, Repr

def Encoder.setType (state : Encoder) (info : RebaseInfo) : Encoder × List RebaseTmp :=
  if state.type ≠ info.type.code then
    ({ state with type := info.type.code }, [⟨.setTypeImm, info.type.code, 0⟩])
  else (state, [])

/-- `none` stands for the exception when no segment holds the address. -/
def Encoder.setAddress (sections : List FinalSection) (state : Encoder) (info : RebaseInfo) :
    Option (Encoder × List RebaseTmp) :=
  if state.address ≠ info.address then
    if info.address < state.curSegStart ∨ state.curSegEnd ≤ info.address then do
      let found ← findSegment sections info.address
      some ({ state with curSegStart := found.start, curSegEnd := found.finish,
                         curSegIndex := found.index, address := info.address },
        [⟨.setSegmentAndOffsetUleb, found.index, info.address - found.start⟩])
    else
      some ({ state with address := info.address },
        [⟨.addAddrUleb, (info.address + 2 ^ 64 - state.address) % 2 ^ 64, 0⟩])
  else some (state, [])

def Encoder.advance (pointerSize : Nat) (state : Encoder) : Encoder :=
  let address := (state.address + pointerSize) % 2 ^ 64
  { state with address := if state.curSegEnd ≤ address then 0 else address }

def Encoder.step (sections : List FinalSection) (pointerSize : Nat) (state : Encoder)
    (info : RebaseInfo) : Option (Encoder × List RebaseTmp) := do
  let (typed, typeOps) := state.setType info
  let (placed, addressOps) ← typed.setAddress sections info
  some (placed.advance pointerSize, typeOps ++ addressOps ++ [⟨.doRebaseUlebTimes, 1, 0⟩])

def rebaseTmps (sections : List FinalSection) (pointerSize : Nat) :
    List RebaseInfo → Encoder → Option (List RebaseTmp)
  | [], _ => some []
  | info :: rest, state => do
    let (next, ops) ← state.step sections pointerSize info
    let more ← rebaseTmps sections pointerSize rest next
    some (ops ++ more)

def doneTmp : RebaseTmp := ⟨.done, 0, 0⟩

def isDone (tmp : RebaseTmp) : Bool := tmp.opcode = .done

def markDone (tmp : RebaseTmp) : RebaseTmp := { tmp with opcode := .done }

/-- Phase 1, compress packed runs of pointers. -/
def packedRuns : InPlacePass RebaseTmp where
  done := isDone
  mark := markDone
  rewrite src rest _ :=
    if src.opcode = .doRebaseUlebTimes ∧ src.operand1 = 1 then
      let run := rest.takeWhile fun tmp => tmp.opcode = .doRebaseUlebTimes
      ({ src with operand1 := src.operand1 + (run.map RebaseTmp.operand1).sum }, run.length)
    else (src, 0)

/-- Phase 2, combine rebase/add pairs. The second operand of the slot stays. -/
def rebaseAddPairs : InPlacePass RebaseTmp where
  done := isDone
  mark := markDone
  rewrite src rest dst :=
    match rest with
    | next :: _ =>
      if src.opcode = .doRebaseUlebTimes ∧ src.operand1 = 1 ∧ next.opcode = .addAddrUleb then
        ({ dst with opcode := .doRebaseAddAddrUleb, operand1 := next.operand1 }, 1)
      else (src, 0)
    | [] => (src, 0)

/-- Phase 3, compress runs of at least three with the same address delta. -/
def skippingRuns : InPlacePass RebaseTmp where
  done := isDone
  mark := markDone
  rewrite src rest _ :=
    let delta := src.operand1
    match rest with
    | second :: third :: _ =>
      if src.opcode = .doRebaseAddAddrUleb ∧ second.opcode = .doRebaseAddAddrUleb ∧
          third.opcode = .doRebaseAddAddrUleb ∧ second.operand1 = delta ∧
          third.operand1 = delta then
        let run := rest.takeWhile fun tmp =>
          tmp.opcode = .doRebaseAddAddrUleb ∧ tmp.operand1 = delta
        (⟨.doRebaseUlebTimesSkippingUleb, 1 + run.length, delta⟩, run.length)
      else (src, 0)
    | _ => (src, 0)

/-- Phase 4, use immediate encodings. -/
def RebaseTmp.immediate (pointerSize : Nat) (p : RebaseTmp) : RebaseTmp :=
  if p.opcode = .addAddrUleb ∧ p.operand1 < 15 * pointerSize ∧ p.operand1 % pointerSize = 0 then
    { p with opcode := .addAddrImmScaled, operand1 := p.operand1 / pointerSize }
  else if p.opcode = .doRebaseUlebTimes ∧ p.operand1 < 15 then
    { p with opcode := .doRebaseImmTimes }
  else p

def useImmediates (pointerSize : Nat) : List RebaseTmp → List RebaseTmp :=
  rewriteBuffer isDone (RebaseTmp.immediate pointerSize)

def RebaseTmp.bytes (tmp : RebaseTmp) : Bytes :=
  match tmp.opcode with
  | .done => []
  | .setTypeImm | .addAddrImmScaled | .doRebaseImmTimes => [pack tmp.opcode.code tmp.operand1]
  | .setSegmentAndOffsetUleb => pack tmp.opcode.code tmp.operand1 :: Leb128.encode tmp.operand2
  | .addAddrUleb | .doRebaseUlebTimes | .doRebaseAddAddrUleb =>
    pack tmp.opcode.code 0 :: Leb128.encode tmp.operand1
  | .doRebaseUlebTimesSkippingUleb =>
    pack tmp.opcode.code 0 :: (Leb128.encode tmp.operand1 ++ Leb128.encode tmp.operand2)

def compressed : List RebaseTmp → Bytes := writeBuffer isDone RebaseTmp.bytes

def padToSize (alignment : Nat) (bytes : Bytes) : Bytes :=
  bytes ++ List.replicate ((alignment - bytes.length % alignment) % alignment) 0

def encodeV1 (sections : List FinalSection) (pointerSize : Nat) (info : List RebaseInfo) :
    Option Bytes := do
  let ops ← rebaseTmps sections pointerSize info {}
  let packed ← packedRuns.run (ops ++ [doneTmp])
  let paired ← rebaseAddPairs.run packed
  let skipped ← skippingRuns.run paired
  some (padToSize pointerSize (compressed (useImmediates pointerSize skipped)))

/-- `RebaseInfoAtom::encode`, where it uses this encoding. -/
def encode (sections : List FinalSection) (pointerSize : Nat) (info : List RebaseInfo) :
    Option Bytes :=
  if info = [] then some []
  else encodeV1 sections pointerSize (info.mergeSort RebaseInfo.notAfter)

/-- A rebase that was carried out, with the segment selected at that time. -/
structure Rebase where
  type : Nat
  segment : Option Nat
  address : Nat
deriving DecidableEq, Repr

structure Machine where
  type : Nat := 0
  segment : Option Nat := none
  address : Nat := 0
deriving DecidableEq, Repr

def Machine.add (amount : Nat) (machine : Machine) : Machine :=
  { machine with address := (machine.address + amount) % 2 ^ 64 }

/-- One rebase, after which the address moves on by a pointer and the skip. -/
def rebaseOnce (pointerSize skip : Nat) : Transducer Machine Rebase := fun machine =>
  ((machine.add pointerSize).add skip, [⟨machine.type, machine.segment, machine.address⟩])

def RebaseTmp.meaning (layout : List Segment) (pointerSize : Nat) (tmp : RebaseTmp) :
    Transducer Machine Rebase :=
  match tmp.opcode with
  | .done => 1
  | .setTypeImm => fun machine => ({ machine with type := tmp.operand1 }, [])
  | .setSegmentAndOffsetUleb => fun machine =>
    ({ machine with
        segment := some tmp.operand1
        address := ((layout[tmp.operand1]?.elim 0 Segment.start) + tmp.operand2) % 2 ^ 64 }, [])
  | .addAddrUleb => fun machine => (machine.add tmp.operand1, [])
  | .addAddrImmScaled => fun machine => (machine.add (tmp.operand1 * pointerSize), [])
  | .doRebaseImmTimes | .doRebaseUlebTimes => rebaseOnce pointerSize 0 ^ tmp.operand1
  | .doRebaseAddAddrUleb => rebaseOnce pointerSize tmp.operand1
  | .doRebaseUlebTimesSkippingUleb => rebaseOnce pointerSize tmp.operand2 ^ tmp.operand1

def readOpcode : Bytes → Option (RebaseTmp × Bytes)
  | [] => none
  | byte :: rest =>
    match opcode byte with
    | 0 => some (⟨.done, 0, 0⟩, rest)
    | 1 => some (⟨.setTypeImm, immediate byte, 0⟩, rest)
    | 2 => (Leb128.decode rest).map fun read =>
      (⟨.setSegmentAndOffsetUleb, immediate byte, read.1⟩, read.2)
    | 3 => (Leb128.decode rest).map fun read => (⟨.addAddrUleb, read.1, 0⟩, read.2)
    | 4 => some (⟨.addAddrImmScaled, immediate byte, 0⟩, rest)
    | 5 => some (⟨.doRebaseImmTimes, immediate byte, 0⟩, rest)
    | 6 => (Leb128.decode rest).map fun read => (⟨.doRebaseUlebTimes, read.1, 0⟩, read.2)
    | 7 => (Leb128.decode rest).map fun read => (⟨.doRebaseAddAddrUleb, read.1, 0⟩, read.2)
    | 8 => (Leb128.decode rest).bind fun times => (Leb128.decode times.2).map fun skip =>
      (⟨.doRebaseUlebTimesSkippingUleb, times.1, skip.1⟩, skip.2)
    | _ => none

def rebaseCode (layout : List Segment) (pointerSize : Nat) : Bytecode RebaseTmp Machine Rebase where
  done := isDone
  write := RebaseTmp.bytes
  read := readOpcode
  meaning := RebaseTmp.meaning layout pointerSize

def interpret (layout : List Segment) (pointerSize : Nat) (stream : Bytes) : Option (List Rebase) :=
  (rebaseCode layout pointerSize).interpret stream.length stream {}

end DeveloperTools.Ld64.RebaseOpcodes
