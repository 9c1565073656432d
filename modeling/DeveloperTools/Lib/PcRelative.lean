import DeveloperTools.Lib.Aarch64

/-!
Branches of A32, of Thumb with and without Thumb-2, and of A64, ADRP, and the displacement
fields of x86. A form is what the bits outside the displacement say; a landing is the form with
the address that is reached and the instruction set that runs there.
-/

namespace DeveloperTools.PcRelative

open BitFields

inductive Form where
  | armB (cond : BitVec 4)
  | armBl (cond : BitVec 4)
  | armBlx
  | thumbB
  | thumbBl
  | thumbBlx
  | a64B
  | a64Bl
  | adrp (destination : BitVec 5)
  | field (rest : BitVec 32)
deriving DecidableEq, Repr

structure Landing where
  form : Form
  address : BitVec 64
  thumb : Bool
deriving DecidableEq, Repr

def a32Form (word : BitVec 32) : Option Form :=
  if word.extractLsb' 25 7 = 0x7D#7 then some .armBlx
  else if word.extractLsb' 28 4 = 0xF#4 then none
  else if word.extractLsb' 24 4 = 0xA#4 then some (.armB (word.extractLsb' 28 4))
  else if word.extractLsb' 24 4 = 0xB#4 then some (.armBl (word.extractLsb' 28 4))
  else none

/-- The program counter reads as the address plus 8; the H bit of BLX is its half word. -/
def a32 (address : BitVec 64) (word : BitVec 32) : Option Landing :=
  (a32Form word).map fun form =>
    if form = .armBlx then
      ⟨form, address + 8#64 +
        (word.extractLsb' 0 24 ++ word.extractLsb' 24 1).signExtend 64 <<< 1, true⟩
    else ⟨form, address + 8#64 + (word.extractLsb' 0 24).signExtend 64 <<< 2, false⟩

def t32Form (word : BitVec 32) : Option Form :=
  if word.extractLsb' 11 5 ≠ 0x1E#5 then none
  else if word.extractLsb' 30 2 = 3#2 then
    if word.extractLsb' 28 1 = 1#1 then some .thumbBl else some .thumbBlx
  else if word.extractLsb' 30 2 = 2#2 ∧ word.extractLsb' 28 1 = 1#1 then some .thumbB
  else none

/-- S:I1:I2:imm10:imm11, where I1 and I2 come as J1 and J2. -/
def t32Immediate (word : BitVec 32) : BitVec 24 :=
  let s := word.extractLsb' 10 1
  let i1 := ~~~ (word.extractLsb' 29 1 ^^^ s)
  let i2 := ~~~ (word.extractLsb' 27 1 ^^^ s)
  s ++ (i1 ++ (i2 ++ (word.extractLsb' 0 10 ++ word.extractLsb' 16 11)))

def align4 (address : BitVec 64) : BitVec 64 := address &&& ~~~ 3#64

/-- BLX is relative to the aligned program counter, and undefined when its last bit is set. -/
def t32 (address : BitVec 64) (word : BitVec 32) : Option Landing :=
  (t32Form word).bind fun form =>
    if form = .thumbBlx then
      if word.extractLsb' 16 1 = 1#1 then none
      else some ⟨form, align4 (address + 4#64) + (t32Immediate word).signExtend 64 <<< 1, false⟩
    else some ⟨form, address + 4#64 + (t32Immediate word).signExtend 64 <<< 1, true⟩

/-- Before Thumb-2 the only long branches are BL and BLX, with J1 and J2 fixed to 1. -/
def t16Form (word : BitVec 32) : Option Form :=
  if word.extractLsb' 29 1 = 1#1 ∧ word.extractLsb' 27 1 = 1#1 then
    (t32Form word).filter fun form => form ≠ .thumbB
  else none

def t16 (address : BitVec 64) (word : BitVec 32) : Option Landing :=
  if (t16Form word).isSome then t32 address word else none

def a64Form (word : BitVec 32) : Option Form :=
  if word.extractLsb' 26 6 = 5#6 then some .a64B
  else if word.extractLsb' 26 6 = 0x25#6 then some .a64Bl
  else none

def a64 (address : BitVec 64) (word : BitVec 32) : Option Landing :=
  (a64Form word).map fun form =>
    ⟨form, address + (word.extractLsb' 0 26).signExtend 64 <<< 2, false⟩

def adrpForm (word : BitVec 32) : Option Form :=
  match Aarch64.decode word with
  | some (.adrp destination _) => some (.adrp destination)
  | _ => none

def adrp (address : BitVec 64) (word : BitVec 32) : Option Landing :=
  match Aarch64.decode word with
  | some (.adrp destination pages) =>
    some ⟨.adrp destination, (address &&& ~~~ 0xFFF#64) + pages.signExtend 64 <<< 12, false⟩
  | _ => none

def fieldForm (bits : Nat) (word : BitVec 32) : Form :=
  .field (word &&& ~~~ placed 32 0 (BitVec.allOnes bits))

def field (bits : Nat) (next : BitVec 64) (word : BitVec 32) : Landing :=
  ⟨fieldForm bits word, next + (word.extractLsb' 0 bits).signExtend 64, false⟩

theorem t32_immediate_of_parts {word : BitVec 32} {displacement : BitVec 64}
    (s : word.extractLsb' 10 1 = displacement.extractLsb' 24 1)
    (j1 : word.extractLsb' 29 1 =
      ~~~ (displacement.extractLsb' 23 1 ^^^ displacement.extractLsb' 24 1))
    (j2 : word.extractLsb' 27 1 =
      ~~~ (displacement.extractLsb' 22 1 ^^^ displacement.extractLsb' 24 1))
    (imm10 : word.extractLsb' 0 10 = displacement.extractLsb' 12 10)
    (imm11 : word.extractLsb' 16 11 = displacement.extractLsb' 1 11) :
    t32Immediate word = displacement.extractLsb' 1 24 := by
  have back : ∀ i s : BitVec 1, ~~~ (~~~ (i ^^^ s) ^^^ s) = i := by decide
  unfold t32Immediate
  rw [s, j1, j2, imm10, imm11]
  simp only [back]
  rw [extract_append_extract (n := 11) (k := 10) displacement 1,
    extract_append_extract (n := 21) (k := 1) displacement 1,
    extract_append_extract (n := 22) (k := 1) displacement 1,
    extract_append_extract (n := 23) (k := 1) displacement 1]

theorem align4_sub (address : BitVec 64) :
    align4 address = address - BitVec.ofNat 64 (address.toNat % 4) := by
  exact and_not_ones address 2

end DeveloperTools.PcRelative
