import Mathlib.Data.BitVec
import Mathlib.Tactic

/-!
A word assembled by shifting and or-ing is read back field by field: `placed` puts a value at a
bit position, the lemmas say what a field or a mask of such a word is.  A signed displacement
stored in a field is recovered when it fits.
-/

namespace DeveloperTools.BitFields

open BitVec

variable {w n k : Nat}

def placed (w position : Nat) (value : BitVec n) : BitVec w := value.setWidth w <<< position

theorem placed_bit (position i : Nat) (value : BitVec n) : (placed w position value).getLsbD i =
      (decide (i < w) && decide (position ≤ i) && value.getLsbD (i - position)) := by
  unfold placed
  by_cases inside : i < w
  · by_cases start : i < position
    · simp [start]
    · simp [inside, start, Nat.not_lt.mp start]
  · simp [inside]

theorem extract_placed (position : Nat) (value : BitVec n) (fits : position + n ≤ w) :
    (placed w position value).extractLsb' position n = value := by
  apply eq_of_getLsbD_eq
  intro i bound
  rw [getLsbD_extractLsb', placed_bit]
  have inside : position + i < w := by omega
  simp [bound, inside]

theorem extract_placed_elsewhere (position start : Nat) (value : BitVec n)
    (apart : start + k ≤ position ∨ position + n ≤ start) :
    (placed w position value).extractLsb' start k = 0#k := by
  apply eq_of_getLsbD_eq
  intro i bound
  rw [getLsbD_extractLsb', placed_bit]
  rcases apart with before | after
  · have outside : ¬ position ≤ start + i := by omega
    simp [outside]
  · have beyond : n ≤ start + i - position := by omega
    simp [getLsbD_of_ge value _ beyond]

theorem placed_and_mask (position : Nat) (value : BitVec n) (mask : BitVec w)
    (clear : mask.extractLsb' position n = 0#n) : placed w position value &&& mask = 0#w := by
  apply eq_of_getLsbD_eq
  intro i bound
  rw [getLsbD_and, placed_bit]
  by_cases inside : position ≤ i ∧ i - position < n
  · have bit := congrArg (fun field => field.getLsbD (i - position)) clear
    simp only [getLsbD_extractLsb', inside.2, decide_true, Bool.true_and,
      Nat.add_sub_cancel' inside.1, getLsbD_zero] at bit
    simp [bit]
  by_cases start : position ≤ i
  · have beyond : n ≤ i - position := by omega
    simp [getLsbD_of_ge value _ beyond]
  · simp [start]

theorem masked_ne {word mask value mask' value' : BitVec w} (masked : word &&& mask = value)
    (apart : value &&& mask' ≠ value' &&& mask) : word &&& mask' ≠ value' := by
  intro masked'
  apply apart
  rw [← masked, ← masked', BitVec.and_assoc, BitVec.and_assoc, BitVec.and_comm mask]

theorem ne_of_masked {word mask value other : BitVec w} (masked : word &&& mask = value)
    (apart : other &&& mask ≠ value) : word ≠ other := by
  intro same
  rw [same] at masked
  exact apart masked

theorem and_ones (position : Nat) (word : BitVec w) :
    word &&& placed w position (BitVec.allOnes n) =
      placed w position (word.extractLsb' position n) := by
  apply eq_of_getLsbD_eq
  intro i bound
  rw [getLsbD_and, placed_bit, placed_bit, getLsbD_extractLsb', getLsbD_allOnes]
  by_cases start : position ≤ i
  · rw [Nat.add_sub_cancel' start]
    simp [bound, start, Bool.and_comm]
  · simp [start]

theorem placed_narrow (narrow position : Nat) (value : BitVec n) (shorter : narrow ≤ w) :
    (placed w position value).setWidth narrow = placed narrow position value := by
  apply eq_of_getLsbD_eq
  intro i bound
  have inside : i < w := by omega
  rw [getLsbD_setWidth, placed_bit, placed_bit]
  simp [bound, inside]

theorem placed_shift (position shift : Nat) (value : BitVec n) :
    placed w position value <<< shift = placed w (position + shift) value := by
  rw [placed, placed, shiftLeft_add]

theorem extract_and_mask (word mask : BitVec w) (start : Nat)
    (clear : mask.extractLsb' start n = 0#n) : (word &&& mask).extractLsb' start n = 0#n := by
  rw [extractLsb'_and, clear, and_zero]

theorem extract_append_extract (word : BitVec w) (start : Nat) :
    word.extractLsb' (start + n) k ++ word.extractLsb' start n =
      word.extractLsb' start (k + n) := by
  exact extractLsb'_append_extractLsb'_eq_extractLsb' rfl

theorem sub_low_clear (left right : BitVec w) (fits : n ≤ w)
    (leftClear : left.extractLsb' 0 n = 0#n) (rightClear : right.extractLsb' 0 n = 0#n) :
    (left - right).extractLsb' 0 n = 0#n := by
  rw [← setWidth_eq_extractLsb' fits] at leftClear rightClear ⊢
  have sum := congrArg (BitVec.setWidth n) (BitVec.sub_add_cancel left right)
  rw [setWidth_add _ _ fits, leftClear, rightClear, BitVec.add_zero] at sum
  exact sum

theorem replace_masked (word other mask : BitVec w) :
    (word &&& ~~~ mask) ||| (other &&& mask) = word - (word &&& mask) + (other &&& mask) := by
  have apart (value : BitVec w) : (word &&& ~~~ mask) &&& (value &&& mask) = 0#w := by
    apply eq_of_getLsbD_eq
    intro i bound
    simp only [getLsbD_and, getLsbD_not, bound, decide_true, Bool.true_and, getLsbD_zero]
    cases mask.getLsbD i <;> simp
  have whole : (word &&& ~~~ mask) + (word &&& mask) = word := by
    rw [add_eq_or_of_and_eq_zero _ _ (apart word), ← and_or_distrib_left]
    apply eq_of_getLsbD_eq
    intro i bound
    cases mask.getLsbD i <;> simp
  rw [← add_eq_or_of_and_eq_zero _ _ (apart other), ← BitVec.eq_sub_iff_add_eq.mpr whole]

theorem extract_and_kept (word mask : BitVec w) (start : Nat)
    (kept : mask.extractLsb' start n = BitVec.allOnes n) :
    (word &&& mask).extractLsb' start n = word.extractLsb' start n := by
  rw [extractLsb'_and, kept, and_allOnes]

theorem and_ones_eq_iff (position : Nat) (word : BitVec w) (value : BitVec n)
    (fits : position + n ≤ w) :
    word &&& placed w position (BitVec.allOnes n) = placed w position value ↔
      word.extractLsb' position n = value := by
  rw [and_ones]
  constructor
  · intro same
    have field := congrArg (BitVec.extractLsb' position n) same
    rwa [extract_placed _ _ fits, extract_placed _ _ fits] at field
  · intro same
    rw [same]

theorem sshiftRight_field (word : BitVec w) (shift v : Nat) (inside : shift + n ≤ w)
    (fits : n ≤ v) : (word.sshiftRight shift).setWidth v &&& placed v 0 (BitVec.allOnes n) =
      placed v 0 (word.extractLsb' shift n) := by
  rw [and_ones]
  congr 1
  apply eq_of_getLsbD_eq
  intro i bound
  rw [getLsbD_extractLsb', getLsbD_extractLsb', getLsbD_setWidth, getLsbD_sshiftRight]
  have narrow : 0 + i < v := by omega
  have wide : ¬ w ≤ 0 + i := by omega
  have shifted : shift + (0 + i) < w := by omega
  simp only [Nat.zero_add] at narrow wide shifted ⊢
  simp [bound, narrow, wide, shifted]

theorem sshiftRight_shiftLeft_sub (word : BitVec w) (shift : Nat) :
    word.sshiftRight shift <<< shift = word - BitVec.ofNat w (word.toNat % 2 ^ shift) := by
  have low : BitVec.ofNat w (word.toNat % 2 ^ shift) = (word.extractLsb' 0 shift).setWidth w := by
    apply eq_of_toNat_eq
    rw [toNat_ofNat, toNat_setWidth, extractLsb'_toNat, Nat.shiftRight_zero]
  have high : word.sshiftRight shift <<< shift + BitVec.ofNat w (word.toNat % 2 ^ shift) = word := by
    rw [low, add_eq_or_of_and_eq_zero]
    · apply eq_of_getLsbD_eq
      intro i bound
      rw [getLsbD_or, getLsbD_shiftLeft, getLsbD_sshiftRight, getLsbD_setWidth, getLsbD_extractLsb']
      by_cases below : i < shift
      · simp [below, bound]
      · have back : shift + (i - shift) = i := by omega
        have wide : ¬ w ≤ i - shift := by omega
        simp [below, bound, back, wide]
    · apply eq_of_getLsbD_eq
      intro i bound
      by_cases below : i < shift
      · simp [below]
      · simp [below]
  exact (BitVec.eq_sub_iff_add_eq.mpr high)

theorem sshiftRight_shiftLeft (word : BitVec w) (shift : Nat)
    (clear : word.extractLsb' 0 shift = BitVec.ofNat shift 0) :
    word.sshiftRight shift <<< shift = word := by
  apply eq_of_getLsbD_eq
  intro i bound
  rw [getLsbD_shiftLeft, getLsbD_sshiftRight]
  by_cases below : i < shift
  · have bit := congrArg (fun field => field.getLsbD i) clear
    simp only [getLsbD_extractLsb', below, decide_true, Bool.true_and, Nat.zero_add,
      getLsbD_zero] at bit
    simp [below, bit]
  · have back : shift + (i - shift) = i := by omega
    have inside : ¬ w ≤ i - shift := by omega
    simp [below, bound, back, inside]

theorem and_not_ones (word : BitVec w) (k : Nat) :
    word &&& ~~~ placed w 0 (BitVec.allOnes k) = word - BitVec.ofNat w (word.toNat % 2 ^ k) := by
  rw [← sshiftRight_shiftLeft_sub word k]
  apply eq_of_getLsbD_eq
  intro i bound
  rw [getLsbD_and, getLsbD_not, placed_bit, getLsbD_allOnes, getLsbD_shiftLeft, getLsbD_sshiftRight]
  by_cases below : i < k
  · simp [bound, below]
  · have back : k + (i - k) = i := by omega
    have wide : ¬ w ≤ i - k := by omega
    simp [bound, below, back, wide]

/-- A field that holds a signed value fitting it extends to that value, low bits dropped. -/
theorem signExtend_extract (word : BitVec w) (shift : Nat) (inside : shift + (n + 1) ≤ w)
    (low : -2 ^ (shift + n) ≤ word.toInt) (high : word.toInt < 2 ^ (shift + n)) :
    (word.extractLsb' shift (n + 1)).signExtend w = word.sshiftRight shift := by
  have positive : (0 : Int) < 2 ^ shift := by positivity
  have lower : -2 ^ n ≤ word.toInt / 2 ^ shift := by
    apply (Int.le_ediv_iff_mul_le positive).mpr
    rw [Int.neg_mul, ← Int.pow_add, Nat.add_comm]
    exact low
  have upper : word.toInt / 2 ^ shift < 2 ^ n := by
    apply (Int.ediv_lt_iff_lt_mul positive).mpr
    rw [← Int.pow_add, Nat.add_comm]
    exact high
  have wrapped : ∃ turns : Int, (word.toNat : Int) = word.toInt + turns * 2 ^ w := by
    rw [toInt_eq_toNat_cond]
    split
    · exact ⟨0, by simp⟩
    · exact ⟨1, by push_cast; ring⟩
  obtain ⟨turns, wrapped⟩ := wrapped
  have split : (2 : Int) ^ w = 2 ^ (w - shift - (n + 1)) * 2 ^ (n + 1) * 2 ^ shift := by
    rw [← Int.pow_add, ← Int.pow_add]
    congr 1
    omega
  have quotient : ((word.toNat / 2 ^ shift : Nat) : Int) =
      word.toInt / 2 ^ shift + turns * 2 ^ (w - shift - (n + 1)) * 2 ^ (n + 1) := by
    push_cast
    rw [wrapped, split, ← Int.mul_assoc, ← Int.mul_assoc,
      Int.add_mul_ediv_right _ _ (Int.ne_of_gt positive)]
  apply eq_of_toInt_eq
  rw [toInt_signExtend_of_le (by omega), toInt_sshiftRight,
    Int.shiftRight_eq_div_pow, toInt_extractLsb', Nat.shiftRight_eq_div_pow, quotient]
  have turned := Int.add_mul_bmod_self_right (word.toInt / 2 ^ shift)
    (turns * 2 ^ (w - shift - (n + 1))) (2 ^ (n + 1))
  push_cast at turned
  rw [turned]
  apply Int.bmod_eq_of_le_mul_two
  · push_cast
    omega
  · push_cast
    omega

end DeveloperTools.BitFields
