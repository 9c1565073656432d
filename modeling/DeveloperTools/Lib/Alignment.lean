import Mathlib.Tactic

/-!
Rounding up with a mask, `(value + alignment - 1) & (-alignment)` on words of `w` bits. The
result is not below the value for any alignment but zero, and it is the next multiple where the
alignment is a power of two.
-/

namespace DeveloperTools.Alignment

open BitVec

variable {w : Nat}

theorem and_complement {value : Nat} (mask : Nat) (small : value < 2 ^ w) (maskSmall : mask < 2 ^ w) :
    (value &&& (2 ^ w - (mask + 1))) + (value &&& mask) = value := by
  have parts : (BitVec.ofNat w value &&& ~~~ BitVec.ofNat w mask) +
      (BitVec.ofNat w value &&& BitVec.ofNat w mask) = BitVec.ofNat w value := by
    rw [add_eq_or_of_and_eq_zero]
    · apply eq_of_getLsbD_eq
      intro i bound
      simp only [getLsbD_or, getLsbD_and, getLsbD_not, bound, decide_true, Bool.true_and]
      cases (BitVec.ofNat w value).getLsbD i <;> cases (BitVec.ofNat w mask).getLsbD i <;> rfl
    apply eq_of_getLsbD_eq
    intro i bound
    simp only [getLsbD_and, getLsbD_not, bound, decide_true, Bool.true_and, getLsbD_zero]
    cases (BitVec.ofNat w value).getLsbD i <;> cases (BitVec.ofNat w mask).getLsbD i <;> rfl
  have sum := congrArg BitVec.toNat parts
  have complement : 2 ^ w - 1 - mask = 2 ^ w - (mask + 1) := by omega
  simp only [toNat_add, toNat_and, toNat_not, toNat_ofNat,
    Nat.mod_eq_of_lt small, Nat.mod_eq_of_lt maskSmall, complement] at sum
  have kept : (value &&& (2 ^ w - (mask + 1))) ≤ value := Nat.and_le_left
  have lost : (value &&& mask) ≤ value := Nat.and_le_left
  have parted := Nat.mod_add_div ((value &&& (2 ^ w - (mask + 1))) + (value &&& mask)) (2 ^ w)
  rcases Nat.eq_zero_or_pos
    (((value &&& (2 ^ w - (mask + 1))) + (value &&& mask)) / 2 ^ w) with none | some
  · rw [none] at parted
    omega
  · have whole := Nat.mul_le_mul_left (2 ^ w) some
    omega

theorem le_round_up {value alignment : Nat} (positive : 0 < alignment)
    (fits : value + (alignment - 1) < 2 ^ w) :
    value ≤ (value + (alignment - 1)) &&& (2 ^ w - alignment) := by
  have parts := and_complement (alignment - 1) fits (by omega)
  have least : (value + (alignment - 1)) &&& (alignment - 1) ≤ alignment - 1 := Nat.and_le_right
  rw [Nat.sub_add_cancel positive] at parts
  omega

theorem round_up_power {value k : Nat} (fits : value + (2 ^ k - 1) < 2 ^ w) :
    2 ^ k ∣ (value + (2 ^ k - 1)) &&& (2 ^ w - 2 ^ k) ∧
      (value + (2 ^ k - 1)) &&& (2 ^ w - 2 ^ k) < value + 2 ^ k := by
  have positive : 0 < 2 ^ k := Nat.two_pow_pos k
  have parts := and_complement (2 ^ k - 1) fits (by omega)
  rw [Nat.sub_add_cancel positive, Nat.and_two_pow_sub_one_eq_mod] at parts
  have divided := Nat.div_add_mod (value + (2 ^ k - 1)) (2 ^ k)
  constructor
  · refine ⟨(value + (2 ^ k - 1)) / 2 ^ k, ?_⟩
    omega
  · omega

theorem dvd_round_up {value k : Nat} (le : k ≤ w) : 2 ^ k ∣ value &&& (2 ^ w - 2 ^ k) := by
  have whole : 2 ^ k ∣ 2 ^ w - 2 ^ k := Nat.dvd_sub (pow_dvd_pow 2 le) (dvd_refl _)
  apply Nat.dvd_of_mod_eq_zero
  rw [Nat.and_mod_two_pow, Nat.mod_eq_zero_of_dvd whole, Nat.and_zero]

/-- The next multiple is not above a multiple. -/
theorem round_up_le {value bound k : Nat} (le : value ≤ bound) (multiple : 2 ^ k ∣ bound)
    (small : bound < 2 ^ w) (fits : k ≤ w) :
    (value + (2 ^ k - 1)) &&& (2 ^ w - 2 ^ k) ≤ bound := by
  have positive : 0 < 2 ^ k := Nat.two_pow_pos k
  have room : bound + 2 ^ k ≤ 2 ^ w :=
    Nat.le_of_lt_add_of_dvd (by omega) (Nat.dvd_add multiple (dvd_refl _)) (pow_dvd_pow 2 fits)
  obtain ⟨isMultiple, next⟩ := round_up_power (show value + (2 ^ k - 1) < 2 ^ w by omega)
  exact Nat.le_of_lt_add_of_dvd (by omega) isMultiple multiple

end DeveloperTools.Alignment
