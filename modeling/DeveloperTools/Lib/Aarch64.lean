import DeveloperTools.Lib.BitFields

/-!
The instructions that form an address and move data through it: ADR, ADRP, ADD
(immediate), the loads and stores with an unsigned offset, the literal loads, and
NOP. Register 31 is the stack pointer where an address is read or added to, and
the zero register where ADR, ADRP or a load writes.
-/

namespace DeveloperTools.Aarch64

open BitFields
open BitVec

inductive Extension where
  | zero
  | signed32
  | signed64
deriving DecidableEq, Repr

/-- What a load or store moves; where to is said apart. -/
structure Transfer where
  size : Nat
  isStore : Bool
  isFloat : Bool
  extension : Extension
  reg : BitVec 5
deriving DecidableEq, Repr

inductive Instruction where
  | nop
  | adr (destination : BitVec 5) (offset : BitVec 21)
  | adrp (destination : BitVec 5) (pages : BitVec 21)
  | add (destination source : BitVec 5) (immediate : BitVec 12)
  | transfer (shape : Transfer) (base : BitVec 5) (offset : Nat)
  | literal (shape : Transfer) (words : BitVec 19)
deriving DecidableEq, Repr

/-- The `size`, `V` and `opc` fields of a load or store; `none` is PRFM or unallocated. -/
def transferShape (size : BitVec 2) (vector : BitVec 1) (opc : BitVec 2) (reg : BitVec 5) :
    Option Transfer :=
  if vector = 0#1 then
    if opc = 0#2 then some ⟨2 ^ size.toNat, true, false, .zero, reg⟩
    else if opc = 1#2 then some ⟨2 ^ size.toNat, false, false, .zero, reg⟩
    else if opc = 2#2 then
      if size = 3#2 then none else some ⟨2 ^ size.toNat, false, false, .signed64, reg⟩
    else if size = 0#2 ∨ size = 1#2 then some ⟨2 ^ size.toNat, false, false, .signed32, reg⟩
    else none
  else if opc = 0#2 then some ⟨2 ^ size.toNat, true, true, .zero, reg⟩
  else if opc = 1#2 then some ⟨2 ^ size.toNat, false, true, .zero, reg⟩
  else if size = 0#2 then some ⟨16, opc = 2#2, true, .zero, reg⟩
  else none

def literalShape (opc : BitVec 2) (vector : BitVec 1) (reg : BitVec 5) : Option Transfer :=
  if opc = 3#2 then none
  else if vector = 0#1 then
    some ⟨if opc = 1#2 then 8 else 4, false, false, if opc = 2#2 then .signed64 else .zero, reg⟩
  else some ⟨4 * 2 ^ opc.toNat, false, true, .zero, reg⟩

theorem transferShape_size : ∀ (size : BitVec 2) (vector : BitVec 1) (opc : BitVec 2)
    (reg : BitVec 5), ∀ shape ∈ transferShape size vector opc reg,
      shape.size ∈ [1, 2, 4, 8, 16] := by
  decide +kernel

/-- The immediate of ADR and ADRP has its two low bits apart. -/
def immediate21 (word : BitVec 32) : BitVec 21 := word.extractLsb' 5 19 ++ word.extractLsb' 29 2

def decode (word : BitVec 32) : Option Instruction :=
  if word = 0xD503201F#32 then some .nop
  else if word &&& 0x9F000000#32 = 0x10000000#32 then
    some (.adr (word.extractLsb' 0 5) (immediate21 word))
  else if word &&& 0x9F000000#32 = 0x90000000#32 then
    some (.adrp (word.extractLsb' 0 5) (immediate21 word))
  else if word &&& 0xFFC00000#32 = 0x91000000#32 then
    some (.add (word.extractLsb' 0 5) (word.extractLsb' 5 5) (word.extractLsb' 10 12))
  else if word &&& 0x3B000000#32 = 0x39000000#32 then
    (transferShape (word.extractLsb' 30 2) (word.extractLsb' 26 1) (word.extractLsb' 22 2)
      (word.extractLsb' 0 5)).map fun shape =>
        .transfer shape (word.extractLsb' 5 5) ((word.extractLsb' 10 12).toNat * shape.size)
  else if word &&& 0x3B000000#32 = 0x18000000#32 then
    (literalShape (word.extractLsb' 30 2) (word.extractLsb' 26 1)
      (word.extractLsb' 0 5)).map fun shape => .literal shape (word.extractLsb' 5 19)
  else none

def adrWord (destination : BitVec 5) (offset : BitVec 21) : BitVec 32 :=
  0x10000000#32 ||| placed 32 5 (offset.extractLsb' 2 19) |||
    placed 32 29 (offset.extractLsb' 0 2) ||| placed 32 0 destination

def transferWord (size : BitVec 2) (vector : BitVec 1) (opc : BitVec 2) (immediate : BitVec 12)
    (base reg : BitVec 5) : BitVec 32 :=
  0x39000000#32 ||| placed 32 26 vector ||| placed 32 0 reg ||| placed 32 5 base |||
    placed 32 30 size ||| placed 32 22 opc ||| placed 32 10 immediate

def literalWord (opc : BitVec 2) (vector : BitVec 1) (words : BitVec 19) (reg : BitVec 5) :
    BitVec 32 :=
  0x18000000#32 ||| placed 32 30 opc ||| placed 32 26 vector ||| placed 32 5 words |||
    placed 32 0 reg

section Words

variable (destination base reg : BitVec 5) (offset : BitVec 21) (size opc : BitVec 2)
  (vector : BitVec 1) (immediate : BitVec 12) (words : BitVec 19)

theorem adrWord_masked : adrWord destination offset &&& 0x9F000000#32 = 0x10000000#32 := by
  unfold adrWord
  simp (disch := decide) only [and_or_distrib_right, placed_and_mask]
  decide

theorem adrWord_destination : (adrWord destination offset).extractLsb' 0 5 = destination := by
  unfold adrWord
  simp (disch := decide) only [extractLsb'_or, extract_placed, extract_placed_elsewhere]
  simp

theorem adrWord_immediate : immediate21 (adrWord destination offset) = offset := by
  unfold immediate21 adrWord
  simp (disch := decide) only [extractLsb'_or, extract_placed, extract_placed_elsewhere]
  have joined : offset.extractLsb' 2 19 ++ offset.extractLsb' 0 2 = offset := by
    rw [extractLsb'_append_extractLsb']
  simpa using joined

theorem decode_of_adr_class (word : BitVec 32) (masked : word &&& 0x9F000000#32 = 0x10000000#32) :
    decode word = some (.adr (word.extractLsb' 0 5) (immediate21 word)) := by
  rw [decode, if_neg (ne_of_masked masked (by decide)), if_pos masked]

theorem decode_of_adrp_class (word : BitVec 32) (masked : word &&& 0x9F000000#32 = 0x90000000#32) :
    decode word = some (.adrp (word.extractLsb' 0 5) (immediate21 word)) := by
  rw [decode, if_neg (ne_of_masked masked (by decide)), if_neg (masked_ne masked (by decide)),
    if_pos masked]

theorem decode_of_add_class (word : BitVec 32) (masked : word &&& 0xFFC00000#32 = 0x91000000#32) :
    decode word = some (.add (word.extractLsb' 0 5) (word.extractLsb' 5 5)
      (word.extractLsb' 10 12)) := by
  rw [decode, if_neg (ne_of_masked masked (by decide)), if_neg (masked_ne masked (by decide)),
    if_neg (masked_ne masked (by decide)), if_pos masked]

theorem decode_of_transfer_class (word : BitVec 32)
    (masked : word &&& 0x3B000000#32 = 0x39000000#32) : decode word =
      (transferShape (word.extractLsb' 30 2) (word.extractLsb' 26 1) (word.extractLsb' 22 2)
        (word.extractLsb' 0 5)).map fun shape =>
          .transfer shape (word.extractLsb' 5 5) ((word.extractLsb' 10 12).toNat * shape.size) := by
  rw [decode, if_neg (ne_of_masked masked (by decide)), if_neg (masked_ne masked (by decide)),
    if_neg (masked_ne masked (by decide)), if_neg (masked_ne masked (by decide)), if_pos masked]

theorem decode_adrWord : decode (adrWord destination offset) = some (.adr destination offset) := by
  rw [decode_of_adr_class _ (adrWord_masked destination offset), adrWord_destination,
    adrWord_immediate]

theorem decode_transferWord : decode (transferWord size vector opc immediate base reg) =
      (transferShape size vector opc reg).map fun shape =>
        .transfer shape base (immediate.toNat * shape.size) := by
  have masked : transferWord size vector opc immediate base reg &&& 0x3B000000#32 =
      0x39000000#32 := by
    unfold transferWord
    simp (disch := decide) only [and_or_distrib_right, placed_and_mask]
    decide
  rw [decode_of_transfer_class _ masked]
  unfold transferWord
  simp (disch := decide) only [extractLsb'_or, extract_placed, extract_placed_elsewhere]
  simp

theorem decode_literalWord : decode (literalWord opc vector words reg) =
      (literalShape opc vector reg).map fun shape => .literal shape words := by
  have masked : literalWord opc vector words reg &&& 0x3B000000#32 = 0x18000000#32 := by
    unfold literalWord
    simp (disch := decide) only [and_or_distrib_right, placed_and_mask]
    decide
  rw [decode, if_neg (ne_of_masked masked (by decide)), if_neg (masked_ne masked (by decide)),
    if_neg (masked_ne masked (by decide)), if_neg (masked_ne masked (by decide)),
    if_neg (masked_ne masked (by decide)), if_pos masked]
  unfold literalWord
  simp (disch := decide) only [extractLsb'_or, extract_placed, extract_placed_elsewhere]
  simp

end Words

structure Machine where
  x : BitVec 5 → BitVec 64
  sp : BitVec 64
  v : BitVec 5 → BitVec 128
  memory : BitVec 64 → BitVec 8

def bytesAt (memory : BitVec 64 → BitVec 8) (address : BitVec 64) : Nat → Nat
  | 0 => 0
  | count + 1 => (memory address).toNat + 256 * bytesAt memory (address + 1#64) count

def extended (extension : Extension) (size value : Nat) : BitVec 64 :=
  match extension with
  | .zero => BitVec.ofNat 64 value
  | .signed32 => ((BitVec.ofNat (8 * size) value).signExtend 32).setWidth 64
  | .signed64 => (BitVec.ofNat (8 * size) value).signExtend 64

namespace Machine

/-- A register as an address operand: number 31 is the stack pointer. -/
def address (m : Machine) (reg : BitVec 5) : BitVec 64 := if reg = 31#5 then m.sp else m.x reg

def setAddress (m : Machine) (reg : BitVec 5) (value : BitVec 64) : Machine :=
  if reg = 31#5 then { m with sp := value }
  else { m with x := fun other => if other = reg then value else m.x other }

/-- A register as a destination: number 31 discards the value. -/
def write (m : Machine) (reg : BitVec 5) (value : BitVec 64) : Machine :=
  if reg = 31#5 then m
  else { m with x := fun other => if other = reg then value else m.x other }

def data (m : Machine) (shape : Transfer) : BitVec 128 :=
  if shape.isFloat then m.v shape.reg
  else if shape.reg = 31#5 then 0#128
  else (m.x shape.reg).setWidth 128

def load (m : Machine) (shape : Transfer) (address : BitVec 64) : Machine :=
  if shape.isFloat then
    { m with v := fun other =>
        if other = shape.reg then BitVec.ofNat 128 (bytesAt m.memory address shape.size)
        else m.v other }
  else
    m.write shape.reg (extended shape.extension shape.size (bytesAt m.memory address shape.size))

def store (m : Machine) (shape : Transfer) (address : BitVec 64) : Machine :=
  { m with memory := fun cell =>
      if (cell - address).toNat < shape.size then
        (m.data shape).extractLsb' (8 * (cell - address).toNat) 8
      else m.memory cell }

def move (m : Machine) (shape : Transfer) (address : BitVec 64) : Machine :=
  if shape.isStore then m.store shape address else m.load shape address

def transferred (m : Machine) (pc : BitVec 64) : Instruction → Option (Transfer × BitVec 64)
  | .transfer shape base offset => some (shape, m.address base + BitVec.ofNat 64 offset)
  | .literal shape words => some (shape, pc + words.signExtend 64 <<< 2)
  | .nop | .adr _ _ | .adrp _ _ | .add _ _ _ => none

def step (m : Machine) (pc : BitVec 64) : Instruction → Machine
  | .nop => m
  | .adr destination offset => m.write destination (pc + offset.signExtend 64)
  | .adrp destination pages =>
    m.write destination ((pc &&& ~~~0xFFF#64) + pages.signExtend 64 <<< 12)
  | .add destination source immediate =>
    m.setAddress destination (m.address source + immediate.setWidth 64)
  | .transfer shape base offset =>
    m.move shape (m.address base + BitVec.ofNat 64 offset)
  | .literal shape words => m.move shape (pc + words.signExtend 64 <<< 2)

/-- The words of a program with their addresses; `none` is an undefined instruction. -/
def run (m : Machine) : List (BitVec 64 × BitVec 32) → Option Machine
  | [] => some m
  | (pc, word) :: rest => (decode word).bind fun instruction => (m.step pc instruction).run rest

def lastTransfer (m : Machine) : List (BitVec 64 × BitVec 32) → Option (Transfer × BitVec 64)
  | [] => none
  | [(pc, word)] => (decode word).bind (m.transferred pc)
  | (pc, word) :: rest =>
    (decode word).bind fun instruction => (m.step pc instruction).lastTransfer rest

@[simp]
theorem write_address (m : Machine) (reg other : BitVec 5) (value : BitVec 64) :
    (m.write reg value).address other =
      if reg = 31#5 then m.address other else if other = reg then value else m.address other := by
  unfold write address
  by_cases zero : reg = 31#5
  · simp [zero]
  · by_cases same : other = reg
    · simp [zero, same]
    · simp [zero, same]

@[simp]
theorem setAddress_address (m : Machine) (reg other : BitVec 5) (value : BitVec 64) :
    (m.setAddress reg value).address other = if other = reg then value else m.address other := by
  unfold setAddress address
  by_cases stack : reg = 31#5
  · by_cases same : other = 31#5
    · simp [stack, same]
    · simp [stack, same]
  · by_cases same : other = reg
    · simp [stack, same]
    · simp [stack, same]

@[simp]
theorem write_memory (m : Machine) (reg : BitVec 5) (value : BitVec 64) :
    (m.write reg value).memory = m.memory := by
  unfold write
  split
  · rfl
  · rfl

end Machine

end DeveloperTools.Aarch64
