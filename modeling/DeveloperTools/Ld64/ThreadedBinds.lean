import DeveloperTools.Ld64.BindOpcodes

/-!
`BindingInfoAtom::encodeV2` of `LinkEdit.hpp` and the pass of
`OutputFile::writeAtoms` that follows it. The bind opcodes fill a table of bind
ordinals, and the locations themselves form linked lists: each word holds the
distance to the next location on its page, and the opcodes only give the start
of each list. The section with the starts of all lists, which takes the place of
these opcodes in other kinds of output, is not modelled. Words of the output are
found by their address.
-/

namespace DeveloperTools.Ld64.ThreadedBinds

open BindOpcodes
open RebaseOpcodes (RebaseInfo padToSize)

abbrev Bytes := List UInt8

section Encoding

variable {Pointer : Type} [DecidableEq Pointer] (string : Pointer → CString)
  (sections : List FinalSection)

def setOrdinal (state : Encoder Pointer) (info : BindingInfo Pointer) :
    Encoder Pointer × List BindingTmp :=
  if state.ordinal ≠ info.libraryOrdinal then
    ({ state with ordinal := info.libraryOrdinal },
      -- special lookups are encoded as negative numbers in BindingInfo
      if info.libraryOrdinal ≤ 0 then
        [{ opcode := .setDylibSpecialImm, operand1 := unsigned info.libraryOrdinal }]
      else if info.libraryOrdinal ≤ 15 then
        [{ opcode := .setDylibOrdinalImm, operand1 := unsigned info.libraryOrdinal }]
      else [{ opcode := .setDylibOrdinalUleb, operand1 := unsigned info.libraryOrdinal }])
  else (state, [])

/-- `none` stands for the exception for a bind type linked lists do not have. -/
def setType (state : Encoder Pointer) (info : BindingInfo Pointer) :
    Option (Encoder Pointer × List BindingTmp) :=
  if state.type ≠ info.type.code then
    if info.type ≠ .pointer then none
    else
      some ({ state with type := info.type.code },
        [{ opcode := .setTypeImm, operand1 := info.type.code }])
  else some (state, [])

/-- The addresses are not pushed, but each has to be in a segment. -/
def locate (state : Encoder Pointer) (info : BindingInfo Pointer) : Option (Encoder Pointer) :=
  if state.address ≠ info.address then
    if info.address < state.curSegStart ∨ state.curSegEnd ≤ info.address then
      (findSegment sections info.address).map fun found =>
        { state with curSegStart := found.start, curSegEnd := found.finish,
                     curSegIndex := found.index, address := info.address }
    else some { state with address := info.address }
  else some state

/-- One round of the first loop. `madeChange` says that an opcode was pushed. -/
def step (state : Encoder Pointer) (info : BindingInfo Pointer) :
    Option (Encoder Pointer × List BindingTmp) := do
  let chosen := setOrdinal state info
  let named := chosen.1.setSymbol string info
  let typed ← setType named.1 info
  let placed ← locate sections typed.1 info
  let added := placed.setAddend info
  let changes := chosen.2 ++ named.2 ++ typed.2 ++ added.2
  some (added.1, if changes ≠ [] then changes ++ [{ opcode := .doBind, operand1 := 0 }] else [])

/-- What the first loop leaves: the opcodes, the last index of a bind, which is
-1 before the first one, and the `uint16_t` ordinal of each entry. -/
structure BindTable where
  ops : List BindingTmp
  numBinds : Int
  threadedBindOrdinals : List Nat
deriving DecidableEq, Repr

def bindTable : List (BindingInfo Pointer) → Encoder Pointer → Int → Option BindTable
  | [], _, numBinds => some ⟨[], numBinds, []⟩
  | info :: rest, state, numBinds => do
    let (next, ops) ← step string sections state info
    let index := if ops ≠ [] then numBinds + 1 else numBinds
    let table ← bindTable rest next index
    some ⟨ops ++ table.ops, table.numBinds, (index % 2 ^ 16).toNat :: table.threadedBindOrdinals⟩

end Encoding

/-- A location of `_threadedRebaseBindIndices`. -/
inductive Fixup (Pointer : Type) where
  | rebase (info : RebaseInfo)
  | bind (info : BindingInfo Pointer) (threadedBindOrdinal : Nat)
deriving DecidableEq, Repr

def Fixup.address {Pointer : Type} : Fixup Pointer → Nat
  | .rebase info => info.address
  | .bind info _ => info.address

def threadedFixups {Pointer : Type} (rebaseInfo : List RebaseInfo)
    (bindInfo : List (BindingInfo Pointer)) (threadedBindOrdinals : List Nat) :
    List (Fixup Pointer) :=
  (rebaseInfo.map Fixup.rebase ++ List.zipWith Fixup.bind bindInfo threadedBindOrdinals).mergeSort
    fun left right => left.address ≤ right.address

structure PageCursor where
  curSegStart : Nat := 0
  curSegEnd : Nat := 0
  curSegIndex : Nat := 0
  prevPageIndex : Nat := 0
deriving DecidableEq, Repr

/-- One round of the second loop: a list starts with each segment and page.
`none` when the address is not aligned or in no segment. -/
def PageCursor.step (sections : List FinalSection) (cursor : PageCursor) (address : Nat) :
    Option (PageCursor × List BindingTmp) := do
  guard (address % 8 = 0)
  let newSegment : Bool := address < cursor.curSegStart ∨ cursor.curSegEnd ≤ address
  let found : FoundSegment ←
    if newSegment then findSegment sections address
    else some ⟨cursor.curSegStart, cursor.curSegEnd, cursor.curSegIndex⟩
  let pageIndex := (address - found.start) / 4096
  some (⟨found.start, found.finish, found.index, pageIndex⟩,
    if newSegment ∨ pageIndex ≠ cursor.prevPageIndex then
      [{ opcode := .setSegmentAndOffsetUleb, operand1 := found.index,
         operand2 := address - found.start }, { opcode := .threadedApply, operand1 := 0 }]
    else [])

def pageStarts (sections : List FinalSection) : List Nat → PageCursor → Option (List BindingTmp)
  | [], _ => some []
  | address :: rest, cursor => do
    let (next, ops) ← cursor.step sections address
    let more ← pageStarts sections rest next
    some (ops ++ more)

/-- What `encodeV2` leaves for `writeAtoms`. -/
structure Threaded (Pointer : Type) where
  stream : Bytes
  bindInfo : List (BindingInfo Pointer)
  threadedBindOrdinals : List Nat
  fixups : List (Fixup Pointer)

def encodeV2 {Pointer : Type} [DecidableEq Pointer] (string : Pointer → CString)
    (sorter : Sorter Pointer) (sections : List FinalSection) (pointerSize : Nat)
    (rebaseInfo : List RebaseInfo) (bindInfo : List (BindingInfo Pointer)) :
    Option (Threaded Pointer) := do
  let sorted := sorter.sort (BindingInfo.less string) bindInfo
  let table ← bindTable string sections sorted {} (-1)
  -- we can only support 2^16 bind ordinals
  guard (¬ 0x10000 < table.numBinds)
  let fixups := threadedFixups rebaseInfo sorted table.threadedBindOrdinals
  let starts ← pageStarts sections (fixups.map Fixup.address) {}
  let size : BindingTmp :=
    { opcode := .threadedSetBindOrdinalTableSizeUleb, operand1 := (table.numBinds + 1).toNat }
  some
    { stream := padToSize pointerSize
        (size.bytes ++ writeBuffer isDone BindingTmp.bytes (table.ops ++ starts ++ [doneTmp]) ++ [0])
      bindInfo := sorted
      threadedBindOrdinals := table.threadedBindOrdinals
      fixups := fixups }

/-- `Fixup::AuthData` and the accumulator kept for an authenticated pointer. -/
structure AuthFixup where
  discriminator : BitVec 16
  hasAddressDiversity : Bool
  key : BitVec 2
  accumulator : BitVec 64
deriving DecidableEq, Repr

/-- The bits of an authenticated pointer above its low 32; `none` when the
assertion on the accumulator fails. -/
def AuthFixup.word (auth : AuthFixup) (accumulator : BitVec 64) : Option (BitVec 64) :=
  if accumulator &&& 0xFFFFFFFF00000000 = 0 then
    some (accumulator ||| auth.discriminator.setWidth 64 <<< 32 |||
      (BitVec.ofBool auth.hasAddressDiversity).setWidth 64 <<< 48 |||
      auth.key.setWidth 64 <<< 49 ||| 1#64 <<< 63)
  else none

/-- The word of a rebase without its delta, from what is in the file. A regular
pointer keeps its top byte and 43 bits. -/
def rebaseWord (baseAddress : BitVec 64) (auth : Option AuthFixup) (value : BitVec 64) :
    Option (BitVec 64) :=
  match auth with
  | some auth =>
    if value = 0 ∧ baseAddress ≤ auth.accumulator then auth.word (auth.accumulator - baseAddress)
    else none
  | none =>
    let gap := value &&& ~~~0xFF0003FFFFFFFFFF
    if gap = 0 ∨ gap = ~~~0xFF0003FFFFFFFFFF then
      some ((value &&& 0xFF00000000000000) >>> 13 ||| (value &&& 0x000007FFFFFFFFFF))
    else none

def weakLookupOrdinal : Int := -3

def bindContent {Pointer : Type} (auth : Option AuthFixup) (info : BindingInfo Pointer)
    (value : BitVec 64) : Option (BitVec 64) :=
  match auth with
  | some auth =>
    if value = 0 then
      auth.word (if info.libraryOrdinal = weakLookupOrdinal then 0 else auth.accumulator)
    else none
  | none => some 0

/-- The word of a bind without its delta: the ordinal is in bits 0 to 15, and
bit 62 tells a bind from a rebase. -/
def bindWord {Pointer : Type} (auth : Option AuthFixup) (info : BindingInfo Pointer)
    (threadedBindOrdinal : Nat) (value : BitVec 64) : Option (BitVec 64) :=
  (bindContent auth info value).map fun word =>
    (word &&& 0xFFFFFFFFFFFF0000#64) ||| BitVec.ofNat 64 threadedBindOrdinal ||| 1#64 <<< 62

def Fixup.word {Pointer : Type} (baseAddress : BitVec 64) (auth : Nat → Option AuthFixup)
    (value : BitVec 64) : Fixup Pointer → Option (BitVec 64)
  | .rebase info => rebaseWord baseAddress (auth info.address) value
  | .bind info ordinal => bindWord (auth info.address) info ordinal value

/-- The delta of `applyBind`, in units of eight bytes. The two are linked when
they are on one page of the segment that starts at `curSegStart`. -/
def linkDelta (curSegStart currentAddress nextAddress : Nat) : Nat :=
  let currentPageIndex := (currentAddress + 2 ^ 64 - curSegStart) % 2 ^ 64 / 4096
  let nextPageIndex := (nextAddress + 2 ^ 64 - curSegStart) % 2 ^ 64 / 4096
  if currentPageIndex ≠ nextPageIndex then 0
  else
    let delta := (nextAddress + 2 ^ 64 - currentAddress) % 2 ^ 64 / 8
    if 2 ^ 11 ≤ delta then 0 else delta

section Writing

variable {Pointer : Type} (sections : List FinalSection) (baseAddress : BitVec 64)
  (auth : Nat → Option AuthFixup)

/-- `applyBind`, with the words found by address. -/
def applyBind (curSegStart : Nat) (current next : Fixup Pointer) (words : Nat → BitVec 64) :
    Option (Nat → BitVec 64) := do
  let delta := linkDelta curSegStart current.address next.address
  let value ← current.word baseAddress auth (words current.address)
  some (Function.update words current.address (value ||| BitVec.ofNat 64 delta <<< 51))

/-- The loop over every location and its successor; the last one is its own. -/
def writeChain : List (Fixup Pointer) → Nat → Nat → (Nat → BitVec 64) → Option (Nat → BitVec 64)
  | [], _, _, words => some words
  | [last], curSegStart, _, words => applyBind baseAddress auth curSegStart last last words
  | current :: next :: rest, curSegStart, curSegEnd, words => do
    let segment : Segment ←
      -- the next pointer may be in a new segment
      if next.address < curSegStart ∨ curSegEnd ≤ next.address then
        (findSegment sections next.address).map fun found => ⟨found.start, found.finish⟩
      else some ⟨curSegStart, curSegEnd⟩
    let written ← applyBind baseAddress auth segment.start current next words
    writeChain (next :: rest) segment.start segment.finish written

def writeAtoms (threaded : Threaded Pointer) (words : Nat → BitVec 64) : Option (Nat → BitVec 64) :=
  match threaded.fixups with
  | [] => some words
  | first :: rest => do
    let segment : Segment ←
      if 1 < threaded.bindInfo.length then
        (findSegment sections first.address).map fun found => ⟨found.start, found.finish⟩
      else some ⟨0, 0⟩
    writeChain sections baseAddress auth (first :: rest) segment.start segment.finish words

end Writing

/-- The delta is bits 51 to 61, as `MachOChecker::checkThreadedRebaseBind`
reads it. -/
def nextDelta (value : BitVec 64) : Nat :=
  (((value &&& ~~~(1#64 <<< 62)) &&& 0x3FF8000000000000) >>> 51).toNat

/-- The locations of one list; `none` when the list is longer than the fuel. -/
def followChain (words : Nat → BitVec 64) : Nat → Nat → Option (List Nat)
  | 0, _ => none
  | fuel + 1, address =>
    let delta := nextDelta (words address)
    if delta = 0 then some [address]
    else (followChain words fuel (address + delta * 8)).map (address :: ·)

end DeveloperTools.Ld64.ThreadedBinds
