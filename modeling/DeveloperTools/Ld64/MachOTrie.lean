import DeveloperTools.Lib.Leb128
import DeveloperTools.Lib.Memory

/-!
`read_uleb128`, `processExportNode` and `parseTrie` of `abstraction/MachOTrie.hpp`.
Besides the texts the code throws, a run can leave the defined behaviour of the
language (a read outside the buffer, a write past the end of the name buffer, an
`int` that overflows, a name taken from the buffer before anything was written
to it) or recurse without end.
-/

namespace DeveloperTools.Ld64.MachOTrie

open Memory

inductive Fault where
  | thrown (message : String)
  | undefinedBehavior
  | endlessRecursion
deriving DecidableEq, Repr

def loadByte (region : Region) (address : Nat) : Except Fault UInt8 :=
  match region.load address with
  | some byte => .ok byte
  | none => .error .undefinedBehavior

/-- The loop of `read_uleb128`. Eleven rounds bring `bit` past 64. -/
def readUlebFrom (region : Region) : Nat → Nat → Nat → Nat → Except Fault (Nat × Nat)
  | 0, _, _, _ => .error .endlessRecursion
  | rounds + 1, p, bit, result =>
    if p = region.finish then .error (.thrown "malformed uleb128 extends beyond trie")
    else do
      let byte ← loadByte region p
      let slice := byte.toNat % 128
      if 64 ≤ bit ∨ (slice <<< bit % 2 ^ 64) >>> bit ≠ slice then
        .error (.thrown "uleb128 too big for 64-bits")
      else
        let result := result ||| (slice <<< bit % 2 ^ 64)
        if 128 ≤ byte.toNat then readUlebFrom region rounds (p + 1) (bit + 7) result
        else .ok (result, p + 1)

def readUleb128 (region : Region) (p : Nat) : Except Fault (Nat × Nat) :=
  readUlebFrom region 11 p 0 0

/-- `trie::Entry`; the import name is a pointer into the buffer, or NULL. -/
structure Entry where
  name : List UInt8
  address : Nat
  flags : Nat
  other : Nat
  importName : Option Nat
deriving DecidableEq, Repr

structure EntryWithOffset where
  nodeOffset : Nat
  entry : Entry
deriving DecidableEq, Repr

def readTerminal (region : Region) (name : List UInt8) (p : Nat) :
    Except Fault EntryWithOffset := do
  let (flags, p₁) ← readUleb128 region p
  if flags &&& 0x08 ≠ 0 then do
    let (other, p₂) ← readUleb128 region p₁
    .ok { nodeOffset := p - region.start
          entry := { name := name, address := 0, flags := flags, other := other,
                     importName := some p₂ } }
  else do
    let (address, p₂) ← readUleb128 region p₁
    if flags &&& 0x10 ≠ 0 then do
      let (other, _) ← readUleb128 region p₂
      .ok { nodeOffset := p - region.start
            entry := { name := name, address := address, flags := flags, other := other,
                       importName := none } }
    else
      .ok { nodeOffset := p - region.start
            entry := { name := name, address := address, flags := flags, other := 0,
                       importName := none } }

/-- Copies one edge string behind the first `curStrOffset` bytes of the name
buffer, which has as many bytes as the trie. The index is an `int`. -/
def readEdge (region : Region) (curStrOffset s : Nat) : Except Fault (List UInt8 × Nat) :=
  match region.cstringAt s with
  | none => .error .undefinedBehavior
  | some edge =>
    if curStrOffset + edge.length < region.bytes.length ∧ curStrOffset + edge.length < 2 ^ 31 then
      .ok (edge, s + edge.length + 1)
    else .error .undefinedBehavior

/-- The loop over the children; `recurse` is the recursive call on a node
address and the name spelled so far. -/
def processChildren (region : Region)
    (recurse : Nat → List UInt8 → Except Fault (List EntryWithOffset))
    (cummulativeString : List UInt8) : Nat → Nat → Except Fault (List EntryWithOffset)
  | 0, _ => .ok []
  | count + 1, s => do
    let (edge, s₁) ← readEdge region cummulativeString.length s
    let (offset, s₂) ← readUleb128 region s₁
    if offset % 2 ^ 32 = 0 then .error (.thrown "malformed trie, childNodeOffset==0")
    else do
      let below ← recurse ((region.start + offset % 2 ^ 32) % 2 ^ 64) (cummulativeString ++ edge)
      let later ← processChildren region recurse cummulativeString count s₂
      .ok (below ++ later)

/-- `processExportNode`. The name is `none` at the root, where the name buffer
has not been written. -/
def processExportNode (region : Region) :
    Nat → Nat → Option (List UInt8) → Except Fault (List EntryWithOffset)
  | 0, _, _ => .error .endlessRecursion
  | fuel + 1, p, name => do
    if region.finish ≤ p then .error (.thrown "malformed trie, node past end")
    else
      let (terminalSize, p₁) ← readUleb128 region p
      let children := (p₁ + terminalSize) % 2 ^ 64
      let own ← (if terminalSize ≠ 0 then
          match name with
          | none => .error .undefinedBehavior
          | some cummulativeString =>
            (readTerminal region cummulativeString p₁).map fun entry => [entry]
        else .ok [])
      if region.finish < children then
        .error (.thrown "malformed trie, terminalSize extends beyond trie data")
      else
        let childrenCount ← loadByte region children
        let below ← processChildren region
          (fun child edge => processExportNode region fuel child (some edge))
          (name.getD []) childrenCount.toNat (children + 1)
        .ok (own ++ below)

/-- `parseTrie`. A path on which no node repeats has fewer nodes than the trie
has bytes, and a node met again below itself recurses without end. -/
def parseTrie (region : Region) : Except Fault (List Entry) :=
  if region.bytes = [] then .ok []
  else do
    let entries ← processExportNode region (region.bytes.length + 1) region.start none
    let sorted := entries.mergeSort fun left right => left.nodeOffset ≤ right.nodeOffset
    .ok (sorted.map EntryWithOffset.entry)

variable {region : Region}

theorem load_byte_of_holds {address : Nat} {byte : UInt8} {rest : List UInt8}
    (held : region.Holds address (byte :: rest)) : loadByte region address = .ok byte := by
  rw [loadByte, Region.load_of_holds held]

private theorem slice_survives {value bit : Nat} (fits : value * 2 ^ bit < 2 ^ 64) :
    (value % 128) <<< bit % 2 ^ 64 = (value % 128) * 2 ^ bit := by
  rw [Nat.shiftLeft_eq]
  exact Nat.mod_eq_of_lt (lt_of_le_of_lt (Nat.mul_le_mul_right _ (Nat.mod_le _ _)) fits)

private theorem or_slice {result slice bit : Nat} (low : result < 2 ^ bit) :
    result ||| slice * 2 ^ bit = result + slice * 2 ^ bit := by
  rw [Nat.or_comm, Nat.mul_comm, Nat.add_comm, Nat.two_pow_add_eq_or_of_lt low]

/-- After some rounds `result` holds the groups read, and what is left of the
number follows in the buffer. -/
theorem read_uleb_from_encode {value p bit result rounds : Nat}
    (held : region.Holds p (Leb128.encode value)) (fits : value * 2 ^ bit < 2 ^ 64)
    (low : result < 2 ^ bit) (early : bit < 64) (enough : Leb128.size value ≤ rounds) :
    readUlebFrom region rounds p bit result =
      .ok (result + value * 2 ^ bit, p + Leb128.size value) := by
  induction value using Leb128.encode.induct generalizing p bit result rounds with
  | case1 value small =>
    rw [Leb128.encode, if_pos small] at held
    rw [Leb128.size, if_pos small] at enough ⊢
    obtain ⟨rounds, rfl⟩ : ∃ rest, rounds = rest + 1 := ⟨rounds - 1, by omega⟩
    have inside := Region.holds_length held (by simp)
    have notEnd : ¬p = region.finish := by
      simp only [List.length_singleton] at inside
      omega
    have payload := Leb128.last_byte_value small
    have mod : value % 128 = value := by omega
    rw [readUlebFrom, if_neg notEnd, load_byte_of_holds held]
    simp only [bind, Except.bind, payload, slice_survives fits, or_slice low]
    rw [Nat.shiftRight_eq_div_pow, Nat.mul_div_cancel _ (by positivity), if_neg (by omega),
      if_neg (by omega), mod]
  | case2 value large ih =>
    rw [Leb128.encode, if_neg large, ← List.singleton_append, Region.holds_append] at held
    rw [Leb128.size, if_neg large] at enough ⊢
    obtain ⟨rounds, rfl⟩ : ∃ rest, rounds = rest + 1 := ⟨rounds - 1, by omega⟩
    have inside := Region.holds_length held.1 (by simp)
    have notEnd : ¬p = region.finish := by
      simp only [List.length_singleton] at inside
      omega
    have payload := Leb128.continued_byte_value value
    have low7 : (value % 128 + 128) % 128 = value % 128 := by omega
    have split : value = 128 * (value / 128) + value % 128 := by omega
    have power : 2 ^ (bit + 7) = 128 * 2 ^ bit := by rw [pow_add]; norm_num [Nat.mul_comm]
    have nextFits : value / 128 * 2 ^ (bit + 7) < 2 ^ 64 := by
      refine lt_of_le_of_lt ?_ fits
      rw [power, ← Nat.mul_assoc]
      exact Nat.mul_le_mul_right _ (Nat.div_mul_le_self _ _)
    have nextLow : result + value % 128 * 2 ^ bit < 2 ^ (bit + 7) := by
      have group : value % 128 * 2 ^ bit ≤ 127 * 2 ^ bit := Nat.mul_le_mul_right _ (by omega)
      omega
    have nextEarly : bit + 7 < 64 := by
      by_contra late
      have wide : 2 ^ 64 ≤ 2 ^ (bit + 7) := Nat.pow_le_pow_right (by norm_num) (by omega)
      have least : 2 ^ (bit + 7) ≤ value / 128 * 2 ^ (bit + 7) :=
        Nat.le_mul_of_pos_left _ (by omega)
      omega
    rw [readUlebFrom, if_neg notEnd, load_byte_of_holds held.1]
    simp only [bind, Except.bind, payload, low7, slice_survives fits, or_slice low]
    have nextHeld : region.Holds (p + 1) (Leb128.encode (value / 128)) := held.2
    have nextEnough : Leb128.size (value / 128) ≤ rounds := by omega
    rw [Nat.shiftRight_eq_div_pow, Nat.mul_div_cancel _ (by positivity), if_neg (by omega),
      if_pos (by omega), ih nextHeld nextFits nextLow nextEarly nextEnough]
    have sum : result + value % 128 * 2 ^ bit + value / 128 * 2 ^ (bit + 7) =
        result + value * 2 ^ bit := by
      conv_rhs => rw [split]
      ring
    rw [sum, Nat.add_right_comm p 1, Nat.add_assoc p]

theorem read_uleb_encode {value p : Nat} (held : region.Holds p (Leb128.encode value))
    (fits : value < 2 ^ 64) :
    readUleb128 region p = .ok (value, p + Leb128.size value) := by
  have bytes : Leb128.size value ≤ 10 := Leb128.size_le_of_lt (by norm_num) (by omega)
  have run : readUlebFrom region 11 p 0 0 = .ok (0 + value * 2 ^ 0, p + Leb128.size value) :=
    read_uleb_from_encode held (by omega) (by norm_num) (by norm_num) (by omega)
  simpa [readUleb128] using run

end DeveloperTools.Ld64.MachOTrie
