import Mathlib.Tactic

/-!
LEB128 numbers: seven payload bits a byte, least significant group first, and
the top bit of every byte but the last one set. The unsigned form is used for
offsets, sizes and counts, the signed form for addends. Nothing here bounds the
width of a number; a reader that stops at a machine width is compared with
these definitions where it is modelled.
-/

namespace DeveloperTools.Leb128

open Option

def encode (value : Nat) : List UInt8 :=
  if value / 128 = 0 then [UInt8.ofNat (value % 128)]
  else UInt8.ofNat (value % 128 + 128) :: encode (value / 128)

/-- The number of bytes of the unsigned form, counted the way a writer counts
them before it has the bytes. -/
def size (value : Nat) : Nat := if value / 128 = 0 then 1 else size (value / 128) + 1

def decode : List UInt8 → Option (Nat × List UInt8)
  | [] => none
  | byte :: rest =>
    if byte.toNat < 128 then some (byte.toNat, rest)
    else do
      let (high, suffix) ← decode rest
      some (byte.toNat - 128 + 128 * high, suffix)

theorem last_byte_value {value : Nat} (small : value / 128 = 0) :
    (UInt8.ofNat (value % 128)).toNat = value := by
  rw [UInt8.toNat_ofNat']
  omega

theorem continued_byte_value (value : Nat) :
    (UInt8.ofNat (value % 128 + 128)).toNat = value % 128 + 128 := by
  rw [UInt8.toNat_ofNat']
  omega

theorem encode_size (value : Nat) : (encode value).length = size value := by
  induction value using encode.induct with
  | case1 value small =>
    rw [encode, size, if_pos small, if_pos small]
    rfl
  | case2 value large ih =>
    rw [encode, size, if_neg large, if_neg large, List.length_cons, ih]

theorem decode_encode (value : Nat) (suffix : List UInt8) :
    decode (encode value ++ suffix) = some (value, suffix) := by
  induction value using encode.induct with
  | case1 value small =>
    have payload := last_byte_value small
    rw [encode, if_pos small, List.singleton_append, decode, payload, if_pos (by omega)]
  | case2 value large ih =>
    have payload := continued_byte_value value
    rw [encode, if_neg large, List.cons_append, decode, payload, if_neg (by omega), ih]
    simp only [bind_eq_bind, bind_some, Option.some.injEq, Prod.mk.injEq, and_true]
    omega

theorem size_positive (value : Nat) : 1 ≤ size value := by
  rw [size]
  split <;> omega

theorem size_monotone {small large : Nat} (ordered : small ≤ large) : size small ≤ size large := by
  induction small using size.induct generalizing large with
  | case1 small single =>
    rw [size, if_pos single]
    exact size_positive large
  | case2 small continued ih =>
    have quotients : small / 128 ≤ large / 128 := Nat.div_le_div_right ordered
    have largeContinued : ¬large / 128 = 0 := by omega
    rw [size.eq_1 small, if_neg continued, size.eq_1 large, if_neg largeContinued]
    exact Nat.succ_le_succ (ih quotients)

theorem size_le_of_lt {value count : Nat} (positive : 0 < count) (bounded : value < 128 ^ count) :
    size value ≤ count := by
  induction value using size.induct generalizing count with
  | case1 value single =>
    rw [size, if_pos single]
    exact positive
  | case2 value continued ih =>
    rw [size, if_neg continued]
    obtain ⟨count, rfl⟩ : ∃ rest, count = rest + 1 := ⟨count - 1, by omega⟩
    have quotientBound : value / 128 < 128 ^ count := by
      rw [Nat.div_lt_iff_lt_mul (by norm_num)]
      simpa [pow_succ] using bounded
    have countPositive : 0 < count := by
      rcases Nat.eq_zero_or_pos count with zero | positive
      · subst zero
        omega
      · exact positive
    exact Nat.succ_le_succ (ih countPositive quotientBound)

/-- The writer of the signed form keeps emitting groups until the sign of what
is left is the one the last group's bit 6 already tells. -/
def moreSigned (value : Int) : Prop :=
  if value < 0 then value / 128 ≠ -1 ∨ value % 128 < 64
  else value / 128 ≠ 0 ∨ 64 ≤ value % 128

instance (value : Int) : Decidable (moreSigned value) :=
  inferInstanceAs (Decidable (if value < 0 then _ else _))

theorem more_signed_shrinks {value : Int} (more : moreSigned value) :
    (value / 128).natAbs < value.natAbs := by
  unfold moreSigned at more
  split at more <;> omega

def encodeSigned (value : Int) : List UInt8 :=
  if moreSigned value then
    UInt8.ofNat ((value % 128).toNat + 128) :: encodeSigned (value / 128)
  else [UInt8.ofNat (value % 128).toNat]
termination_by value.natAbs
decreasing_by exact more_signed_shrinks ‹_›

def decodeSigned : List UInt8 → Option (Int × List UInt8)
  | [] => none
  | byte :: rest =>
    if byte.toNat < 64 then some (byte.toNat, rest)
    else if byte.toNat < 128 then some ((byte.toNat : Int) - 128, rest)
    else do
      let (high, suffix) ← decodeSigned rest
      some ((byte.toNat : Int) - 128 + 128 * high, suffix)

theorem decode_signed_encode (value : Int) (suffix : List UInt8) :
    decodeSigned (encodeSigned value ++ suffix) = some (value, suffix) := by
  induction value using encodeSigned.induct with
  | case1 value more ih =>
    have payload : (UInt8.ofNat ((value % 128).toNat + 128)).toNat = (value % 128).toNat + 128 := by
      rw [UInt8.toNat_ofNat']
      omega
    rw [encodeSigned, if_pos more, List.cons_append, decodeSigned, payload,
      if_neg (by omega), if_neg (by omega), ih]
    simp only [bind_eq_bind, bind_some, Option.some.injEq, Prod.mk.injEq, and_true]
    omega
  | case2 value finished =>
    have payload : (UInt8.ofNat (value % 128).toNat).toNat = (value % 128).toNat := by
      rw [UInt8.toNat_ofNat']
      omega
    rw [encodeSigned, if_neg finished, List.singleton_append, decodeSigned, payload]
    unfold moreSigned at finished
    split at finished
    · rw [if_neg (by omega), if_pos (by omega)]
      simp only [Option.some.injEq, Prod.mk.injEq, and_true]
      omega
    · rw [if_pos (by omega)]
      simp only [Option.some.injEq, Prod.mk.injEq, and_true]
      omega

end DeveloperTools.Leb128
