import DeveloperTools.Lib.CString
import DeveloperTools.Ld64.RebaseOpcodes

/-!
`BindingInfoAtom::encodeV1` and `WeakBindingInfoAtom::encode` of `LinkEdit.hpp`:
the sorted bindings become a buffer of opcodes that set what changes from one
binding to the next, two passes compact the buffer in place, a third one changes
opcodes to their immediate forms, and what is left is written as bytes. Then the
machine that carries such bytes out, as `MachOChecker` of `machochecker.cpp`
reads them. Symbol names are compared as pointers; `string` gives the text a
pointer points to.
-/

namespace DeveloperTools.Ld64.BindOpcodes

open Nibbles
open RebaseOpcodes (padToSize)

abbrev Bytes := List UInt8

inductive BindType where
  | overrideOfWeakdefInDylib
  | pointer
  | textAbsolute32
  | textPcrel32
deriving DecidableEq, Repr

def BindType.code : BindType → Nat
  | .overrideOfWeakdefInDylib => 0
  | .pointer => 1
  | .textAbsolute32 => 2
  | .textPcrel32 => 3

/-- The flags the constructors of `BindingInfo` set. -/
inductive SymbolFlags where
  | none
  | weakImport
  | nonWeakDefinition
deriving DecidableEq, Repr

def SymbolFlags.code : SymbolFlags → Nat
  | .none => 0x0
  | .weakImport => 0x1
  | .nonWeakDefinition => 0x8

structure BindingInfo (Pointer : Type) where
  type : BindType
  flags : SymbolFlags
  libraryOrdinal : Int
  symbolName : Pointer
  address : Nat
  addend : BitVec 64
deriving DecidableEq, Repr

inductive Opcode where
  | done
  | setDylibOrdinalImm
  | setDylibOrdinalUleb
  | setDylibSpecialImm
  | setSymbolTrailingFlagsImm
  | setTypeImm
  | setAddendSleb
  | setSegmentAndOffsetUleb
  | addAddrUleb
  | doBind
  | doBindAddAddrUleb
  | doBindAddAddrImmScaled
  | doBindUlebTimesSkippingUleb
  | threadedSetBindOrdinalTableSizeUleb
  | threadedApply
deriving DecidableEq, Repr

/-- The opcodes occupy the high four bits; a threaded one has its subopcode in
the low four. -/
def Opcode.code : Opcode → Nat
  | .done => 0x00
  | .setDylibOrdinalImm => 0x10
  | .setDylibOrdinalUleb => 0x20
  | .setDylibSpecialImm => 0x30
  | .setSymbolTrailingFlagsImm => 0x40
  | .setTypeImm => 0x50
  | .setAddendSleb => 0x60
  | .setSegmentAndOffsetUleb => 0x70
  | .addAddrUleb => 0x80
  | .doBind => 0x90
  | .doBindAddAddrUleb => 0xA0
  | .doBindAddAddrImmScaled => 0xB0
  | .doBindUlebTimesSkippingUleb => 0xC0
  | .threadedSetBindOrdinalTableSizeUleb => 0xD0
  | .threadedApply => 0xD1

/-- `binding_tmp`. The operands are `uint64_t`, signed values included; the
count of a run is not bounded here. -/
structure BindingTmp where
  opcode : Opcode
  operand1 : Nat
  operand2 : Nat := 0
  name : Bytes := []
deriving DecidableEq, Repr

/-- A signed value as a `uint64_t` and back. -/
def unsigned (value : Int) : Nat := (BitVec.ofInt 64 value).toNat

def signed (value : Nat) : Int := (BitVec.ofNat 64 value).toInt

/-- The local variables of the loops; `ordinal` starts as the least `int`. -/
structure Encoder (Pointer : Type) where
  curSegStart : Nat := 0
  curSegEnd : Nat := 0
  curSegIndex : Nat := 0
  ordinal : Int := -2 ^ 31
  symbolName : Option Pointer := none
  type : Nat := 0
  address : Nat := 2 ^ 64 - 1
  addend : BitVec 64 := 0

section Encoding

variable {Pointer : Type} [DecidableEq Pointer] (string : Pointer → CString)
  (sections : List FinalSection) (pointerSize : Nat)

def Encoder.setOrdinal (state : Encoder Pointer) (info : BindingInfo Pointer) :
    Encoder Pointer × List BindingTmp :=
  if state.ordinal ≠ info.libraryOrdinal then
    ({ state with ordinal := info.libraryOrdinal },
      -- special lookups are encoded as negative numbers in BindingInfo
      if info.libraryOrdinal ≤ 0 then
        [{ opcode := .setDylibSpecialImm, operand1 := unsigned info.libraryOrdinal }]
      else [{ opcode := .setDylibOrdinalUleb, operand1 := unsigned info.libraryOrdinal }])
  else (state, [])

def Encoder.setSymbol (state : Encoder Pointer) (info : BindingInfo Pointer) :
    Encoder Pointer × List BindingTmp :=
  if state.symbolName ≠ some info.symbolName then
    ({ state with symbolName := some info.symbolName },
      [{ opcode := .setSymbolTrailingFlagsImm, operand1 := info.flags.code,
         name := (string info.symbolName).chars }])
  else (state, [])

def Encoder.setType (state : Encoder Pointer) (info : BindingInfo Pointer) :
    Encoder Pointer × List BindingTmp :=
  if state.type ≠ info.type.code then
    ({ state with type := info.type.code }, [{ opcode := .setTypeImm, operand1 := info.type.code }])
  else (state, [])

/-- `none` stands for the exception when no segment holds the address. -/
def Encoder.setAddress (state : Encoder Pointer) (info : BindingInfo Pointer) :
    Option (Encoder Pointer × List BindingTmp) :=
  if state.address ≠ info.address then
    if info.address < state.curSegStart ∨ state.curSegEnd ≤ info.address then
      (findSegment sections info.address).map fun found =>
        ({ state with curSegStart := found.start, curSegEnd := found.finish,
                      curSegIndex := found.index, address := info.address },
          [{ opcode := .setSegmentAndOffsetUleb, operand1 := found.index,
             operand2 := info.address - found.start }])
    else
      some ({ state with address := info.address },
        [{ opcode := .addAddrUleb,
           operand1 := (info.address + 2 ^ 64 - state.address) % 2 ^ 64 }])
  else some (state, [])

def Encoder.setAddend (state : Encoder Pointer) (info : BindingInfo Pointer) :
    Encoder Pointer × List BindingTmp :=
  if state.addend ≠ info.addend then
    ({ state with addend := info.addend },
      [{ opcode := .setAddendSleb, operand1 := info.addend.toNat }])
  else (state, [])

def Encoder.advance (state : Encoder Pointer) : Encoder Pointer :=
  { state with address := (state.address + pointerSize) % 2 ^ 64 }

/-- The part of a round both loops have: type, address, addend and the bind. -/
def Encoder.bind (state : Encoder Pointer) (info : BindingInfo Pointer) :
    Option (Encoder Pointer × List BindingTmp) :=
  let typed := state.setType info
  (typed.1.setAddress sections info).map fun placed =>
    let added := placed.1.setAddend info
    (added.1.advance pointerSize,
      typed.2 ++ placed.2 ++ added.2 ++ [{ opcode := .doBind, operand1 := 0 }])

def Encoder.step (state : Encoder Pointer) (info : BindingInfo Pointer) :
    Option (Encoder Pointer × List BindingTmp) :=
  let chosen := state.setOrdinal info
  let named := chosen.1.setSymbol string info
  (named.1.bind sections pointerSize info).map fun bound =>
    (bound.1, chosen.2 ++ named.2 ++ bound.2)

/-- One round of the loop of `WeakBindingInfoAtom::encode`: non-weak symbols
just have their name and flags. -/
def Encoder.weakStep (state : Encoder Pointer) (info : BindingInfo Pointer) :
    Option (Encoder Pointer × List BindingTmp) :=
  let named := state.setSymbol string info
  if info.type ≠ .overrideOfWeakdefInDylib then
    (named.1.bind sections pointerSize info).map fun bound => (bound.1, named.2 ++ bound.2)
  else some named

def bindingTmps
    (step : Encoder Pointer → BindingInfo Pointer → Option (Encoder Pointer × List BindingTmp)) :
    List (BindingInfo Pointer) → Encoder Pointer → Option (List BindingTmp)
  | [], _ => some []
  | info :: rest, state => do
    let (next, ops) ← step state info
    let more ← bindingTmps step rest next
    some (ops ++ more)

end Encoding

def doneTmp : BindingTmp := { opcode := .done, operand1 := 0 }

def isDone (tmp : BindingTmp) : Bool := tmp.opcode = .done

def markDone (tmp : BindingTmp) : BindingTmp := { tmp with opcode := .done }

/-- Phase 1, combine bind/add pairs. The other fields of the slot stay. -/
def bindAddPairs : InPlacePass BindingTmp where
  done := isDone
  mark := markDone
  rewrite src rest dst :=
    match rest with
    | next :: _ =>
      if src.opcode = .doBind ∧ next.opcode = .addAddrUleb then
        ({ dst with opcode := .doBindAddAddrUleb, operand1 := next.operand1 }, 1)
      else (src, 0)
    | [] => (src, 0)

/-- Phase 2, compress runs of at least two with the same address delta. -/
def skippingRuns : InPlacePass BindingTmp where
  done := isDone
  mark := markDone
  rewrite src rest dst :=
    let delta := src.operand1
    match rest with
    | second :: _ =>
      if src.opcode = .doBindAddAddrUleb ∧ second.opcode = .doBindAddAddrUleb ∧
          second.operand1 = delta then
        let run := rest.takeWhile fun tmp =>
          tmp.opcode = .doBindAddAddrUleb ∧ tmp.operand1 = delta
        ({ dst with opcode := .doBindUlebTimesSkippingUleb, operand1 := 1 + run.length,
                    operand2 := delta }, run.length)
      else (src, 0)
    | [] => (src, 0)

def BindingTmp.scalable (pointerSize : Nat) (p : BindingTmp) : Bool :=
  p.opcode = .doBindAddAddrUleb ∧ p.operand1 < 15 * pointerSize ∧ p.operand1 % pointerSize = 0

/-- Phase 3, use immediate encodings. -/
def BindingTmp.immediate (pointerSize : Nat) (p : BindingTmp) : BindingTmp :=
  if p.scalable pointerSize then
    { p with opcode := .doBindAddAddrImmScaled, operand1 := p.operand1 / pointerSize }
  else if p.opcode = .setDylibOrdinalUleb ∧ p.operand1 ≤ 15 then
    { p with opcode := .setDylibOrdinalImm }
  else p

/-- Phase 3 of the weak bindings, which have no ordinals. -/
def BindingTmp.weakImmediate (pointerSize : Nat) (p : BindingTmp) : BindingTmp :=
  if p.scalable pointerSize then
    { p with opcode := .doBindAddAddrImmScaled, operand1 := p.operand1 / pointerSize }
  else p

def BindingTmp.bytes (tmp : BindingTmp) : Bytes :=
  match tmp.opcode with
  | .done => []
  | .setDylibOrdinalImm | .setTypeImm | .doBindAddAddrImmScaled =>
    [pack tmp.opcode.code tmp.operand1]
  | .setDylibSpecialImm => [pack tmp.opcode.code (tmp.operand1 &&& 0x0F)]
  | .setSymbolTrailingFlagsImm => pack tmp.opcode.code tmp.operand1 :: (tmp.name ++ [0])
  | .setAddendSleb => pack tmp.opcode.code 0 :: Leb128.encodeSigned (signed tmp.operand1)
  | .setSegmentAndOffsetUleb => pack tmp.opcode.code tmp.operand1 :: Leb128.encode tmp.operand2
  | .setDylibOrdinalUleb | .addAddrUleb | .doBindAddAddrUleb |
      .threadedSetBindOrdinalTableSizeUleb =>
      pack tmp.opcode.code 0 :: Leb128.encode tmp.operand1
  | .doBind | .threadedApply => [pack tmp.opcode.code 0]
  | .doBindUlebTimesSkippingUleb =>
    pack tmp.opcode.code 0 :: (Leb128.encode tmp.operand1 ++ Leb128.encode tmp.operand2)

/-- The weak bindings are written with their `done`. -/
def BindingTmp.weakBytes (tmp : BindingTmp) : Bytes :=
  match tmp.opcode with
  | .done => [pack tmp.opcode.code 0]
  | _ => tmp.bytes

section Atoms

variable {Pointer : Type} [DecidableEq Pointer] (string : Pointer → CString)

def BindingInfo.less (left right : BindingInfo Pointer) : Bool :=
  if left.libraryOrdinal ≠ right.libraryOrdinal then
    left.libraryOrdinal < right.libraryOrdinal
  else if left.symbolName ≠ right.symbolName then
    StrcmpLess (string left.symbolName).chars (string right.symbolName).chars
  else if left.type ≠ right.type then left.type.code < right.type.code
  else if left.flags ≠ right.flags then right.flags.code ≤ left.flags.code
  else left.address < right.address

/-- `WeakBindingSorter`. -/
def BindingInfo.weakLess (left right : BindingInfo Pointer) : Bool :=
  if left.symbolName ≠ right.symbolName then
    StrcmpLess (string left.symbolName).chars (string right.symbolName).chars
  else if left.type ≠ right.type then left.type.code < right.type.code
  else left.address < right.address

/-- `std::sort`. The two orders above are not transitive when a name has two
pointers, so all that is asked of it is a permutation. -/
structure Sorter (Pointer : Type) where
  sort : (BindingInfo Pointer → BindingInfo Pointer → Bool) →
    List (BindingInfo Pointer) → List (BindingInfo Pointer)
  permutes : ∀ less info, (sort less info).Perm info

variable (sorter : Sorter Pointer) (sections : List FinalSection) (pointerSize : Nat)

def encodeV1 (info : List (BindingInfo Pointer)) : Option Bytes := do
  let ops ← bindingTmps (Encoder.step string sections pointerSize)
    (sorter.sort (BindingInfo.less string) info) {}
  let paired ← bindAddPairs.run (ops ++ [doneTmp])
  let skipped ← skippingRuns.run paired
  some (padToSize pointerSize
    (writeBuffer isDone BindingTmp.bytes
      (rewriteBuffer isDone (BindingTmp.immediate pointerSize) skipped)))

/-- `WeakBindingInfoAtom::encode`. -/
def weakEncode (info : List (BindingInfo Pointer)) : Option Bytes :=
  if info = [] then some []
  else do
    let ops ← bindingTmps (Encoder.weakStep string sections pointerSize)
      (sorter.sort (BindingInfo.weakLess string) info) {}
    let paired ← bindAddPairs.run (ops ++ [doneTmp])
    let skipped ← skippingRuns.run paired
    some (padToSize pointerSize
      (writeBuffer isDone BindingTmp.weakBytes
        (rewriteBuffer isDone (BindingTmp.weakImmediate pointerSize) skipped)))

end Atoms

structure Bind where
  type : Nat
  ordinal : Int
  symbol : Bytes
  flags : Nat
  address : Nat
  addend : Int
deriving DecidableEq, Repr

/-- What a stream does: it announces symbols with their flags, binds, and, with
threaded opcodes, fills a table of bind ordinals and starts chains. -/
inductive Event where
  | announce (symbol : Bytes) (flags : Nat)
  | bind (bound : Bind)
  | tableSize (size : Nat)
  | tableEntry (bound : Bind)
  | apply (segment : Option Nat) (address : Nat)
deriving DecidableEq, Repr

structure Machine where
  ordinal : Int := 0
  symbol : Bytes := []
  flags : Nat := 0
  type : Nat := 0
  addend : Int := 0
  segment : Option Nat := none
  address : Nat := 0
  threaded : Bool := false
deriving DecidableEq, Repr

def Machine.add (amount : Nat) (machine : Machine) : Machine :=
  { machine with address := (machine.address + amount) % 2 ^ 64 }

def Machine.bound (machine : Machine) : Bind :=
  ⟨machine.type, machine.ordinal, machine.symbol, machine.flags, machine.address, machine.addend⟩

/-- One bind, after which the address moves on by a pointer and the skip. -/
def bindOnce (pointerSize skip : Nat) : Transducer Machine Event := fun machine =>
  ((machine.add pointerSize).add skip,
    [if machine.threaded then .tableEntry machine.bound else .bind machine.bound])

def specialOrdinal (immediate : Nat) : Int :=
  if immediate = 0 then 0 else (BitVec.ofNat 8 (0xF0 ||| immediate)).toInt

def BindingTmp.meaning (layout : List Segment) (pointerSize : Nat) (tmp : BindingTmp) :
    Transducer Machine Event :=
  match tmp.opcode with
  | .done => 1
  | .setDylibOrdinalImm | .setDylibOrdinalUleb => fun machine =>
    ({ machine with ordinal := tmp.operand1 }, [])
  | .setDylibSpecialImm => fun machine =>
    ({ machine with ordinal := specialOrdinal (tmp.operand1 &&& 0x0F) }, [])
  | .setSymbolTrailingFlagsImm => fun machine =>
    ({ machine with symbol := tmp.name, flags := tmp.operand1 }, [.announce tmp.name tmp.operand1])
  | .setTypeImm => fun machine => ({ machine with type := tmp.operand1 }, [])
  | .setAddendSleb => fun machine => ({ machine with addend := signed tmp.operand1 }, [])
  | .setSegmentAndOffsetUleb => fun machine =>
    ({ machine with
        segment := some tmp.operand1
        address := ((layout[tmp.operand1]?.elim 0 Segment.start) + tmp.operand2) % 2 ^ 64 }, [])
  | .addAddrUleb => fun machine => (machine.add tmp.operand1, [])
  | .doBind => bindOnce pointerSize 0
  | .doBindAddAddrUleb => bindOnce pointerSize tmp.operand1
  | .doBindAddAddrImmScaled => bindOnce pointerSize (tmp.operand1 * pointerSize)
  | .doBindUlebTimesSkippingUleb => bindOnce pointerSize tmp.operand2 ^ tmp.operand1
  | .threadedSetBindOrdinalTableSizeUleb => fun machine =>
    ({ machine with threaded := true }, [.tableSize tmp.operand1])
  | .threadedApply => fun machine => (machine, [.apply machine.segment machine.address])

def readOpcode : Bytes → Option (BindingTmp × Bytes)
  | [] => none
  | byte :: rest =>
    let low := immediate byte
    match opcode byte with
    | 0x0 => some (doneTmp, rest)
    | 0x1 => some ({ opcode := .setDylibOrdinalImm, operand1 := low }, rest)
    | 0x2 => (Leb128.decode rest).map fun read =>
      ({ opcode := .setDylibOrdinalUleb, operand1 := read.1 }, read.2)
    | 0x3 => some ({ opcode := .setDylibSpecialImm, operand1 := low }, rest)
    | 0x4 => (readString rest).map fun read =>
      ({ opcode := .setSymbolTrailingFlagsImm, operand1 := low, name := read.1 }, read.2)
    | 0x5 => some ({ opcode := .setTypeImm, operand1 := low }, rest)
    | 0x6 => (Leb128.decodeSigned rest).map fun read =>
      ({ opcode := .setAddendSleb, operand1 := unsigned read.1 }, read.2)
    | 0x7 => (Leb128.decode rest).map fun read =>
      ({ opcode := .setSegmentAndOffsetUleb, operand1 := low, operand2 := read.1 }, read.2)
    | 0x8 => (Leb128.decode rest).map fun read =>
      ({ opcode := .addAddrUleb, operand1 := read.1 }, read.2)
    | 0x9 => some ({ opcode := .doBind, operand1 := 0 }, rest)
    | 0xA => (Leb128.decode rest).map fun read =>
      ({ opcode := .doBindAddAddrUleb, operand1 := read.1 }, read.2)
    | 0xB => some ({ opcode := .doBindAddAddrImmScaled, operand1 := low }, rest)
    | 0xC => (Leb128.decode rest).bind fun times => (Leb128.decode times.2).map fun skip =>
      ({ opcode := .doBindUlebTimesSkippingUleb, operand1 := times.1, operand2 := skip.1 }, skip.2)
    | 0xD =>
      match low with
      | 0 => (Leb128.decode rest).map fun read =>
        ({ opcode := .threadedSetBindOrdinalTableSizeUleb, operand1 := read.1 }, read.2)
      | 1 => some ({ opcode := .threadedApply, operand1 := 0 }, rest)
      | _ => none
    | _ => none

def bindCode (layout : List Segment) (pointerSize : Nat) : Bytecode BindingTmp Machine Event where
  done := isDone
  write := BindingTmp.bytes
  read := readOpcode
  meaning := BindingTmp.meaning layout pointerSize

def weakBindCode (layout : List Segment) (pointerSize : Nat) : Bytecode BindingTmp Machine Event :=
  { bindCode layout pointerSize with write := BindingTmp.weakBytes }

def interpret (layout : List Segment) (pointerSize : Nat) (stream : Bytes) : Option (List Event) :=
  (bindCode layout pointerSize).interpret stream.length stream {}

def Event.bind? : Event → Option Bind
  | .bind bound => some bound
  | _ => none

def Event.announcement? : Event → Option (Bytes × Nat)
  | .announce symbol flags => some (symbol, flags)
  | _ => none

end DeveloperTools.Ld64.BindOpcodes
