import DeveloperTools.Ld64.BranchFixupsExact

/-!
Thumb branches. With Thumb-2 the displacement is scattered over S, J1, J2, imm10 and imm11;
before it J1 and J2 are fixed and the displacement has 23 bits. BLX is relative to the aligned
address, which is why its target is given bit 1 of the instruction's address first.
-/

namespace DeveloperTools.Ld64.BranchFixups

open BitFields PcRelative
open Option BitVec

theorem into_reach_of_le {delta : Int} (near : -16777216 ≤ delta) : intoReach delta = delta := by
  rw [intoReach, if_neg (by omega)]

theorem into_reach_of_lt (delta : Int) (far : delta < -16777216) :
    ∃ turns : Nat, 0 < turns ∧ intoReach delta = delta + turns * 0x2000000 ∧
      -16777216 ≤ intoReach delta ∧ intoReach delta < 16777216 := by
  induction delta using intoReach.induct with
  | case1 delta _ ih =>
    rw [intoReach, if_pos far]
    by_cases again : delta + 0x2000000 < -16777216
    · obtain ⟨turns, _, reached, low, high⟩ := ih again
      exact ⟨turns + 1, by omega, by push_cast; omega, low, high⟩
    · rw [into_reach_of_le (by omega)]
      exact ⟨1, by omega, by omega, by omega, by omega⟩
  | case2 delta near => omega

section Displacement

variable {fixup : Fixup} {address accumulator : BitVec 64} {thumb : Bool}

theorem thumb_delta_final (final : fixup.contentDetlaToAddendOnly = false) :
    thumbDelta fixup address accumulator thumb =
      thumbAddress fixup address accumulator thumb - (address + 4#64) := by
  simp [thumbDelta, final]

theorem thumb_delta_near (relocatable : fixup.contentDetlaToAddendOnly = true)
    (near : -16777216 ≤ (accumulator - (address + 4#64)).toInt) :
    thumbDelta fixup address accumulator thumb = accumulator - (address + 4#64) := by
  simp only [thumbDelta, thumbAddress, relocatable, if_true, into_reach_of_le near, ofInt_toInt]

theorem thumb_delta_far (thumb : Bool) (relocatable : fixup.contentDetlaToAddendOnly = true)
    (far : (accumulator - (address + 4#64)).toInt < -16777216) :
    ∃ off, 0x2000000 ≤ off ∧ off < 2 ^ 64 - 0x2000000 ∧
      thumbDelta fixup address accumulator thumb =
        accumulator - (address + 4#64) + BitVec.ofNat 64 off := by
  obtain ⟨turns, positive, reached, low, high⟩ := into_reach_of_lt _ far
  have least := le_toInt (accumulator - (address + 4#64))
  refine ⟨turns * 0x2000000, by omega, by omega, ?_⟩
  simp only [thumbDelta, thumbAddress, relocatable, if_true, reached]
  have whole : (turns : Int) * 0x2000000 = ((turns * 0x2000000 : Nat) : Int) := by
    rfl
  rw [ofInt_add, ofInt_toInt, whole, ofInt_natCast]

theorem bit_one_iff (delta : BitVec 64) :
    delta.extractLsb' 1 1 = 1#1 ↔ delta.toNat / 2 % 2 = 1 := by
  rw [← toNat_inj, extractLsb'_toNat, Nat.shiftRight_eq_div_pow]
  rfl

theorem two_toNat (value : BitVec 64) : (value &&& 2#64).toNat = value.toNat / 2 % 2 * 2 := by
  rw [show (2#64) = placed 64 1 (BitVec.allOnes 1) by decide, and_ones, placed,
    toNat_shiftLeft, toNat_setWidth, extractLsb'_toNat,
    Nat.shiftRight_eq_div_pow, Nat.shiftLeft_eq]
  omega

theorem small_parts_iff (value extra : BitVec 64) {a b c : Nat} (aSmall : a < 4) (bSmall : b < 4)
    (cSmall : c < 4) (extraSmall : extra.toNat < 4) :
    value - BitVec.ofNat 64 c + extra - BitVec.ofNat 64 a - BitVec.ofNat 64 b = value ↔
      c + a + b = extra.toNat := by
  rw [← toNat_inj]
  simp only [toNat_add, toNat_sub, toNat_ofNat]
  omega

theorem aligned_base (address : BitVec 64) : (address + 4#64).toNat % 4 = address.toNat % 4 := by
  rw [toNat_add]
  simp only [toNat_ofNat]
  omega

variable {delta : BitVec 64}

theorem low_bits_sum {base extra aim : BitVec 64} (sum : delta + base + extra = aim) :
    delta.setWidth 2 + base.setWidth 2 + extra.setWidth 2 = aim.setWidth 2 := by
  rw [← setWidth_add _ _ (by decide), ← setWidth_add _ _ (by decide), sum]

theorem dropped_total {extra : BitVec 64} {dropped : Nat}
    (shape : delta = accumulator - BitVec.ofNat 64 dropped + extra - (address + 4#64)) :
    address + 4#64 - BitVec.ofNat 64 ((address + 4#64).toNat % 4) +
        (delta - BitVec.ofNat 64 (delta.toNat % 2 ^ 1)) =
      accumulator - BitVec.ofNat 64 dropped + extra - BitVec.ofNat 64 (address.toNat % 4) -
        BitVec.ofNat 64 (delta.toNat % 2) := by
  rw [aligned_base address, pow_one]
  rw [shape]
  abel

theorem to_arm_bits : ∀ delta address accumulator : BitVec 2,
    delta + address + (accumulator &&& 2#2) = accumulator + (address &&& 2#2) →
    ((¬ delta.toNat / 2 % 2 = 1 ∧ accumulator.toNat / 2 % 2 * 2 + address.toNat + delta.toNat % 2 =
        address.toNat / 2 % 2 * 2) ↔ accumulator.toNat = 0 ∧ address.toNat % 2 = 0) := by
  decide

theorem to_arm_final
    (shape : delta = accumulator - (accumulator &&& 2#64) + (address &&& 2#64) - (address + 4#64)) :
    (¬ delta.toNat / 2 % 2 = 1 ∧ address + 4#64 - BitVec.ofNat 64 ((address + 4#64).toNat % 4) +
        (delta - BitVec.ofNat 64 (delta.toNat % 2 ^ 1)) = accumulator) ↔
    accumulator.toNat % 4 = 0 ∧ address.toNat % 2 = 0 := by
  have two : accumulator &&& 2#64 = BitVec.ofNat 64 (accumulator.toNat / 2 % 2 * 2) := by
    rw [← two_toNat, ofNat_toNat, setWidth_eq]
  have bits := to_arm_bits (delta.setWidth 2) (address.setWidth 2) (accumulator.setWidth 2) (by
    have sum : delta + (address + 4#64) + (accumulator &&& 2#64) =
        accumulator + (address &&& 2#64) := by
      rw [shape]
      abel
    have low := low_bits_sum sum
    rw [setWidth_add _ _ (by decide), setWidth_add _ _ (by decide),
      setWidth_and, setWidth_and, show (4#64).setWidth 2 = 0#2 from rfl,
      BitVec.add_zero] at low
    exact low)
  simp only [toNat_setWidth] at bits
  rw [dropped_total (shape.trans (by rw [two])),
    small_parts_iff _ _ (by omega) (by omega) (by omega) (by rw [two_toNat]; omega),
    two_toNat]
  omega

theorem to_arm_near_bits : ∀ delta address accumulator : BitVec 2,
    delta + address + 0#2 = accumulator →
    ((¬ delta.toNat / 2 % 2 = 1 ∧ address.toNat + delta.toNat % 2 = 0) ↔
      accumulator.toNat = 0 ∧ address.toNat = 0) := by
  decide

theorem to_arm_near (shape : delta = accumulator - (address + 4#64)) :
    (¬ delta.toNat / 2 % 2 = 1 ∧ address + 4#64 - BitVec.ofNat 64 ((address + 4#64).toNat % 4) +
        (delta - BitVec.ofNat 64 (delta.toNat % 2 ^ 1)) = accumulator) ↔
    accumulator.toNat % 4 = 0 ∧ address.toNat % 4 = 0 := by
  have bits := to_arm_near_bits (delta.setWidth 2) (address.setWidth 2)
    (accumulator.setWidth 2) (by
    have sum : delta + (address + 4#64) + 0#64 = accumulator := by
      rw [shape, BitVec.add_zero, sub_add_cancel]
    have low := low_bits_sum sum
    rw [setWidth_add _ _ (by decide), show (4#64).setWidth 2 = 0#2 from rfl, BitVec.add_zero] at low
    exact low)
  simp only [toNat_setWidth] at bits
  have padded : delta = accumulator - BitVec.ofNat 64 0 + 0#64 - (address + 4#64) := by
    rw [shape, show BitVec.ofNat 64 0 = 0#64 from rfl, BitVec.sub_zero, BitVec.add_zero]
  rw [dropped_total padded, small_parts_iff _ _ (by omega) (by omega) (by omega) (by decide),
    show (0#64).toNat = 0 from rfl]
  omega

/-- A displacement that is off by a turn misses, whatever small parts are dropped. -/
theorem far_misses {off a b c : Nat} (aSmall : a < 4) (bSmall : b < 4) (cSmall : c < 4)
    (least : 0x2000000 ≤ off) (most : off < 2 ^ 64 - 0x2000000) (value : BitVec 64) :
    value + BitVec.ofNat 64 off - BitVec.ofNat 64 a - BitVec.ofNat 64 b ≠
      value - BitVec.ofNat 64 c := by
  rw [ne_eq, ← toNat_inj]
  simp only [toNat_add, toNat_sub, toNat_ofNat]
  omega

theorem to_thumb_iff :
    address + 4#64 + (thumbDelta fixup address accumulator true).sshiftRight 1 <<< 1 =
      withoutThumbBit accumulator ↔ Near fixup address accumulator ∧ address.toNat % 2 = 0 := by
  have even : (address + 4#64).toNat % 2 = address.toNat % 2 := by
    have aligned := aligned_base address
    omega
  cases relocatable : fixup.contentDetlaToAddendOnly with
  | false =>
    have shape : thumbDelta fixup address accumulator true =
        withoutThumbBit accumulator - (address + 4#64) := by
      rw [thumb_delta_final relocatable]
      simp [thumbAddress, relocatable, withoutThumbBit]
    have near : Near fixup address accumulator := by simp [Near, relocatable]
    have parity : (withoutThumbBit accumulator).toNat % 2 = 0 := by
      rw [even_sub, toNat_sub, toNat_ofNat]
      omega
    rw [shape, rounded_iff _ _ _ 1 (add_sub_cancel _ _), toNat_sub]
    simp only [near, true_and]
    omega
  | true =>
    by_cases near : -16777216 ≤ (accumulator - (address + 4#64)).toInt
    · rw [thumb_delta_near relocatable near, half_words_iff _ _ _ (add_sub_cancel _ _), even]
      exact (and_iff_right fun _ => near).symm
    obtain ⟨off, least, most, shape⟩ := thumb_delta_far true relocatable (Int.lt_of_not_ge near)
    have misses := far_misses (a := 0)
      (b := (thumbDelta fixup address accumulator true).toNat % 2)
      (c := accumulator.toNat % 2) (by omega) (by omega) (by omega) least most accumulator
    constructor
    · intro reached
      exfalso
      apply misses
      rw [← even_sub, ← reached, sshiftRight_shiftLeft_sub, pow_one]
      rw [shape, BitVec.sub_zero]
      abel
    · intro both
      exact absurd (both.1 relocatable) near

theorem to_arm_iff :
    ((thumbDelta fixup address accumulator false).extractLsb' 1 1 ≠ 1#1 ∧ align4 (address + 4#64) +
        (thumbDelta fixup address accumulator false).sshiftRight 1 <<< 1 = accumulator) ↔
    Near fixup address accumulator ∧ accumulator.toNat % 4 = 0 ∧
      if fixup.contentDetlaToAddendOnly then address.toNat % 4 = 0 else address.toNat % 2 = 0 := by
  rw [ne_eq, bit_one_iff, align4_sub, sshiftRight_shiftLeft_sub]
  cases relocatable : fixup.contentDetlaToAddendOnly with
  | false =>
    have near : Near fixup address accumulator := by simp [Near, relocatable]
    have shape : thumbDelta fixup address accumulator false =
        accumulator - (accumulator &&& 2#64) + (address &&& 2#64) - (address + 4#64) := by
      rw [thumb_delta_final relocatable]
      simp only [thumbAddress, relocatable, Bool.false_eq_true, if_false]
      rw [replace_masked]
    rw [to_arm_final shape]
    simp [near]
  | true =>
    by_cases near : -16777216 ≤ (accumulator - (address + 4#64)).toInt
    · rw [to_arm_near (thumb_delta_near relocatable near)]
      exact (and_iff_right fun _ => near).symm
    obtain ⟨off, least, most, shape⟩ := thumb_delta_far false relocatable (Int.lt_of_not_ge near)
    have misses := far_misses (a := address.toNat % 4)
      (b := (thumbDelta fixup address accumulator false).toNat % 2) (c := 0) (by omega)
      (by omega) (by omega) least most accumulator
    constructor
    · intro reached
      exfalso
      have landed := reached.2
      rw [aligned_base address, pow_one] at landed
      apply misses
      rw [BitVec.sub_zero]
      refine Eq.trans ?_ landed
      rw [shape]
      abel
    · intro both
      exact absurd (both.1 relocatable) near

end Displacement

section Words

variable (opcode : BitVec 32) (address delta : BitVec 64)

theorem low_fields (shift : Nat) (inside : shift + 11 ≤ 64) :
    (delta.sshiftRight shift).setWidth 32 &&& 0x1#32 = placed 32 0 (delta.extractLsb' shift 1) ∧
    (delta.sshiftRight shift).setWidth 32 &&& 0x3FF#32 = placed 32 0 (delta.extractLsb' shift 10) ∧
    (delta.sshiftRight shift).setWidth 32 &&& 0x7FF#32 =
      placed 32 0 (delta.extractLsb' shift 11) := by
  have one : (0x1#32) = placed 32 0 (BitVec.allOnes 1) := by decide
  have ten : (0x3FF#32) = placed 32 0 (BitVec.allOnes 10) := by decide
  have eleven : (0x7FF#32) = placed 32 0 (BitVec.allOnes 11) := by decide
  rw [one, ten, eleven]
  exact ⟨sshiftRight_field delta shift 32 (by omega) (by decide),
    sshiftRight_field delta shift 32 (by omega) (by decide),
    sshiftRight_field delta shift 32 (by omega) (by decide)⟩

theorem same_bit : ∀ i s : BitVec 1,
    (if placed 32 0 i = placed 32 0 s then 1#32 else 0#32) = placed 32 0 (~~~ (i ^^^ s)) := by
  decide

theorem thumb2_word_eq : thumb2Word opcode delta = opcode |||
      (placed 32 29 (~~~ (delta.extractLsb' 23 1 ^^^ delta.extractLsb' 24 1)) |||
        placed 32 27 (~~~ (delta.extractLsb' 22 1 ^^^ delta.extractLsb' 24 1)) |||
        placed 32 16 (delta.extractLsb' 1 11)) |||
      (placed 32 10 (delta.extractLsb' 24 1) ||| placed 32 0 (delta.extractLsb' 12 10)) := by
  unfold thumb2Word
  simp only [low_fields delta 24 (by decide), low_fields delta 23 (by decide),
    low_fields delta 22 (by decide), low_fields delta 12 (by decide),
    low_fields delta 1 (by decide), same_bit, shiftLeft_or_distrib, placed_shift]

theorem thumb1_word_eq : thumb1Word opcode delta =
    opcode ||| placed 32 16 (delta.extractLsb' 1 11) ||| placed 32 0 (delta.extractLsb' 12 11) := by
  unfold thumb1Word
  simp only [low_fields delta 12 (by decide), low_fields delta 1 (by decide), placed_shift]

end Words

structure Carries (word : BitVec 32) (delta : BitVec 64) : Prop where
  immediate : t32Immediate word = delta.extractLsb' 1 24
  last : word.extractLsb' 16 1 = delta.extractLsb' 1 1
  low : -2 ^ 24 ≤ delta.toInt
  high : delta.toInt < 2 ^ 24

section Landing

variable {fixup : Fixup} {address accumulator delta : BitVec 64} {thumb : Bool}
  {word opcode instruction : BitVec 32} {form : Form}

theorem t32_form_cases (found : t32Form word = some form) :
    form = .thumbBl ∨ form = .thumbBlx ∨ form = .thumbB := by
  unfold t32Form at found
  split_ifs at found <;> cases found <;> simp

theorem thumb_landing_iff (branch : form = .thumbBl ∨ form = .thumbBlx ∨ form = .thumbB)
    (found : t32Form word = some (switched thumb form))
    (carries : Carries word (thumbDelta fixup address accumulator thumb)) : t32 address word =
      some ⟨switched thumb form, if thumb then withoutThumbBit accumulator else accumulator,
        thumb⟩ ↔ Near fixup address accumulator ∧
      if thumb then address.toNat % 2 = 0
      else form ≠ .thumbB ∧ accumulator.toNat % 4 = 0 ∧
        if fixup.contentDetlaToAddendOnly then address.toNat % 4 = 0
        else address.toNat % 2 = 0 := by
  have extended := signExtend_extract (n := 23) (thumbDelta fixup address accumulator thumb) 1
    (by decide) carries.low carries.high
  simp only [t32, found, bind_some, carries.last, carries.immediate, extended]
  cases thumb with
  | true =>
    have notBlx : switched true form ≠ .thumbBlx := by
      rcases branch with rfl | rfl | rfl <;> simp [switched]
    simp only [notBlx, if_false, if_true, Option.some.injEq, Landing.mk.injEq, true_and, and_true]
    exact to_thumb_iff
  | false =>
    by_cases plain : form = .thumbB
    · subst plain
      simp [switched]
    have isBlx : switched false form = .thumbBlx := by
      rcases branch with rfl | rfl | rfl
      · rfl
      · rfl
      · exact absurd rfl plain
    simp only [isBlx, if_true, Bool.false_eq_true, if_false, ne_eq, plain, not_false_eq_true,
      true_and]
    rw [← to_arm_iff]
    by_cases odd : (thumbDelta fixup address accumulator false).extractLsb' 1 1 = 1#1
    · simp [odd]
    · simp [odd]

theorem extract_placed_part (delta : BitVec 64) (position start n offset m : Nat)
    (inside : offset + m ≤ n) (fits : position + n ≤ 32) :
    (placed 32 position (delta.extractLsb' start n)).extractLsb' (position + offset) m =
      delta.extractLsb' (start + offset) m := by
  apply eq_of_getLsbD_eq
  intro i bound
  rw [getLsbD_extractLsb', placed_bit, getLsbD_extractLsb', getLsbD_extractLsb']
  have part : offset + i < n := by omega
  have within : position + (offset + i) < 32 := by omega
  simp [Nat.add_assoc, part, within]

theorem thumb2_carries (clear : opcode &&& 0x2FFF07FF#32 = 0#32) (low : -2 ^ 24 ≤ delta.toInt)
    (high : delta.toInt < 2 ^ 24) : Carries (thumb2Word opcode delta) delta := by
  have field (start n : Nat) (within : (0x2FFF07FF#32).extractLsb' start n = BitVec.allOnes n) :
      opcode.extractLsb' start n = 0#n := by
    rw [← extract_and_kept opcode _ start within, clear]
    exact extractLsb'_zero
  refine ⟨t32_immediate_of_parts ?_ ?_ ?_ ?_ ?_, ?_, low, high⟩
  all_goals
    rw [thumb2_word_eq]
    simp (disch := decide) only [extractLsb'_or, field, extract_placed,
      extract_placed_elsewhere, zero_or, or_zero]
  -- the last bit is the first of imm11
  exact extract_placed_part delta 16 1 11 0 1 (by decide) (by decide)

theorem thumb2_form (opcode : BitVec 32) (delta : BitVec 64) :
    t32Form (thumb2Word opcode delta) = t32Form opcode := by
  unfold t32Form
  rw [thumb2_word_eq]
  simp (disch := decide) only [extractLsb'_or, extract_placed_elsewhere, or_zero]

theorem thumb_fields_iff (top : BitVec 2) (mid : BitVec 1) (low : BitVec 5) :
    instruction &&& 0xD000F800#32 = placed 32 30 top ||| placed 32 28 mid ||| placed 32 11 low ↔
      instruction.extractLsb' 30 2 = top ∧ instruction.extractLsb' 28 1 = mid ∧
        instruction.extractLsb' 11 5 = low := by
  have split : instruction &&& 0xD000F800#32 =
      placed 32 30 (instruction.extractLsb' 30 2) ||| placed 32 28 (instruction.extractLsb' 28 1) |||
        placed 32 11 (instruction.extractLsb' 11 5) := by
    have mask : (0xD000F800#32) = placed 32 30 (BitVec.allOnes 2) |||
        placed 32 28 (BitVec.allOnes 1) ||| placed 32 11 (BitVec.allOnes 5) := by decide
    rw [mask, and_or_distrib_left, and_or_distrib_left, and_ones, and_ones, and_ones]
  rw [split]
  constructor
  · intro masked
    have topField := congrArg (BitVec.extractLsb' 30 2) masked
    have midField := congrArg (BitVec.extractLsb' 28 1) masked
    have lowField := congrArg (BitVec.extractLsb' 11 5) masked
    simp (disch := decide) only [extractLsb'_or, extract_placed,
      extract_placed_elsewhere, zero_or, or_zero] at topField midField lowField
    exact ⟨topField, midField, lowField⟩
  · intro fields
    rw [fields.1, fields.2.1, fields.2.2]

theorem thumb_form_iff : (isThumbBl instruction ↔ t32Form instruction = some .thumbBl) ∧
      (isThumbBlx instruction ↔ t32Form instruction = some .thumbBlx) ∧
      (isThumbB instruction ↔ t32Form instruction = some .thumbB) := by
  have bl : (0xD000F000#32) = placed 32 30 3#2 ||| placed 32 28 1#1 ||| placed 32 11 0x1E#5 := by
    decide
  have blx : (0xC000F000#32) = placed 32 30 3#2 ||| placed 32 28 0#1 ||| placed 32 11 0x1E#5 := by
    decide
  have b : (0x9000F000#32) = placed 32 30 2#2 ||| placed 32 28 1#1 ||| placed 32 11 0x1E#5 := by
    decide
  rw [isThumbBl, isThumbBlx, isThumbB, bl, blx, b, thumb_fields_iff, thumb_fields_iff,
    thumb_fields_iff]
  unfold t32Form
  generalize instruction.extractLsb' 30 2 = top
  generalize instruction.extractLsb' 28 1 = mid
  generalize instruction.extractLsb' 11 5 = low
  revert top mid low
  decide

theorem thumb2_opcode_form (found : t32Form instruction = some form)
    (chosen : thumb2Opcode fixup thumb instruction = some opcode) :
    t32Form opcode = some (switched thumb form) ∧ opcode &&& 0x2FFF07FF#32 = 0#32 := by
  simp only [thumb2Opcode, thumb_form_iff, found] at chosen
  rcases t32_form_cases found with rfl | rfl | rfl
  · cases thumb <;> simp at chosen <;> subst chosen <;> decide
  · cases thumb <;> simp at chosen <;> subst chosen <;> decide
  cases thumb <;> simp at chosen
  · obtain ⟨_, rfl⟩ := chosen
    decide
  · subst chosen
    decide

theorem sign_bits (low : -2 ^ 22 ≤ delta.toInt) (high : delta.toInt < 2 ^ 22) (i : Nat)
    (above : 22 ≤ i) (inside : i < 64) : delta.extractLsb' i 1 = delta.extractLsb' 22 1 := by
  have extended := signExtend_extract (n := 22) delta 0 (by decide) (by simpa using low)
    (by simpa using high)
  rw [sshiftRight_zero] at extended
  have bits (j : Nat) (above : 22 ≤ j) (inside : j < 64) : delta.getLsbD j = delta.getLsbD 22 := by
    have bit (k : Nat) : delta.getLsbD k =
        ((delta.extractLsb' 0 23).signExtend 64).getLsbD k := by rw [extended]
    rw [bit j, getLsbD_signExtend]
    by_cases same : j < 23
    · have last : j = 22 := by omega
      subst last
      simp
    · simp [inside, same, msb_eq_getLsbD_last]
  apply eq_of_getLsbD_eq
  intro j bound
  have first : j = 0 := by omega
  subst first
  simp [bits i above inside]

theorem thumb1_carries (clear : opcode &&& 0x07FF07FF#32 = 0#32)
    (j1 : opcode.extractLsb' 29 1 = 1#1) (j2 : opcode.extractLsb' 27 1 = 1#1)
    (low : -2 ^ 22 ≤ delta.toInt) (high : delta.toInt < 2 ^ 22) :
    Carries (thumb1Word opcode delta) delta := by
  have field (start n : Nat) (within : (0x07FF07FF#32).extractLsb' start n = BitVec.allOnes n) :
      opcode.extractLsb' start n = 0#n := by
    rw [← extract_and_kept opcode _ start within, clear]
    exact extractLsb'_zero
  have sign := sign_bits low high
  have one : ∀ bit : BitVec 1, 1#1 = ~~~ (bit ^^^ bit) := by decide
  refine ⟨t32_immediate_of_parts ?_ ?_ ?_ ?_ ?_, ?_, by omega, by omega⟩
  all_goals rw [thumb1_word_eq, extractLsb'_or, extractLsb'_or]
  · rw [field 10 1 (by decide), extract_placed_elsewhere _ _ _ (by decide),
      extract_placed_part _ 0 12 11 10 1 (by decide) (by decide), sign 24 (by decide) (by decide)]
    simp
  · rw [j1, extract_placed_elsewhere _ _ _ (by decide), extract_placed_elsewhere _ _ _ (by decide),
      sign 23 (by decide) (by decide), sign 24 (by decide) (by decide), ← one]
    simp
  · rw [j2, extract_placed_elsewhere _ _ _ (by decide), extract_placed_elsewhere _ _ _ (by decide),
      sign 24 (by decide) (by decide), ← one]
    simp
  · rw [field 0 10 (by decide), extract_placed_elsewhere _ _ _ (by decide),
      extract_placed_part _ 0 12 11 0 10 (by decide) (by decide)]
    simp
  · rw [field 16 11 (by decide), extract_placed _ _ (by decide),
      extract_placed_elsewhere _ _ _ (by decide)]
    simp
  · rw [field 16 1 (by decide), extract_placed_part _ 16 1 11 0 1 (by decide) (by decide),
      extract_placed_elsewhere _ _ _ (by decide)]
    simp

theorem thumb1_form (opcode : BitVec 32) (delta : BitVec 64) :
    t16Form (thumb1Word opcode delta) = t16Form opcode := by
  unfold t16Form t32Form
  rw [thumb1_word_eq]
  simp (disch := decide) only [extractLsb'_or, extract_placed_elsewhere, or_zero]

theorem t16_form_kept (instruction : BitVec 32) :
    t16Form (instruction &&& 0xF800F800#32) = t16Form instruction := by
  unfold t16Form t32Form
  simp (disch := decide) only [extract_and_kept]

theorem t16_form_parts (found : t16Form instruction = some form) :
    instruction.extractLsb' 29 1 = 1#1 ∧ instruction.extractLsb' 27 1 = 1#1 ∧
      t32Form instruction = some form ∧ form ≠ .thumbB := by
  unfold t16Form at found
  split at found
  next bits =>
    rw [filter_eq_some_iff] at found
    exact ⟨bits.1, bits.2, found.1, by simpa using found.2⟩
  · cases found

theorem thumb1_opcode_form (found : t16Form instruction = some form)
    (chosen : thumb1Opcode fixup thumb instruction = some opcode) :
    t16Form opcode = some (switched thumb form) ∧ opcode &&& 0x07FF07FF#32 = 0#32 := by
  obtain ⟨_, _, long, notB⟩ := t16_form_parts found
  have kept : instruction &&& 0xF800F800#32 &&& 0x07FF07FF#32 = 0#32 := by
    rw [BitVec.and_assoc]
    exact and_zero
  simp only [thumb1Opcode, thumb_form_iff, long] at chosen
  rcases t32_form_cases long with rfl | rfl | rfl
  · cases thumb with
    | false =>
      simp at chosen
      subst chosen
      decide
    | true =>
      simp at chosen
      subst chosen
      exact ⟨(t16_form_kept instruction).trans found, kept⟩
  · cases thumb with
    | false =>
      simp at chosen
      subst chosen
      exact ⟨(t16_form_kept instruction).trans found, kept⟩
    | true =>
      simp at chosen
      subst chosen
      decide
  · exact absurd rfl notB

theorem thumb_exact_iff {wide : Bool}
    (stored : storeThumbBranch22 fixup address accumulator thumb instruction wide = some word) :
    (∃ form, (if wide then t32Form instruction else t16Form instruction) = some form ∧
      (if wide then t32 address word else t16 address word) =
        some ⟨switched thumb form, if thumb then withoutThumbBit accumulator else accumulator,
          thumb⟩) ↔
    ∃ form, (if wide then t32Form instruction else t16Form instruction) = some form ∧
      Near fixup address accumulator ∧
      if thumb then address.toNat % 2 = 0
      else form ≠ .thumbB ∧ accumulator.toNat % 4 = 0 ∧
        if fixup.contentDetlaToAddendOnly then address.toNat % 4 = 0
        else address.toNat % 2 = 0 := by
  apply exists_congr
  intro form
  apply and_congr_right
  intro found
  unfold storeThumbBranch22 at stored
  simp only at stored
  split at stored
  · cases stored
  rename_i checked
  simp only [Bool.not_eq_true', Bool.not_eq_false] at checked
  cases wide with
  | true =>
    obtain ⟨opcode, chosen, rfl⟩ := map_eq_some_iff.mp stored
    obtain ⟨made, clear⟩ := thumb2_opcode_form found chosen
    have within := of_decide_eq_true checked
    apply thumb_landing_iff (t32_form_cases found) ((thumb2_form _ _).trans made)
    exact thumb2_carries clear (by omega) (by omega)
  | false =>
    obtain ⟨opcode, chosen, rfl⟩ := map_eq_some_iff.mp stored
    obtain ⟨made, clear⟩ := thumb1_opcode_form found chosen
    have within := of_decide_eq_true checked
    have wordForm := (thumb1_form opcode (thumbDelta fixup address accumulator thumb)).trans made
    rw [t16, wordForm]
    obtain ⟨j1, j2, _, _⟩ := t16_form_parts made
    apply thumb_landing_iff (t32_form_cases (t16_form_parts found).2.2.1)
      (t16_form_parts wordForm).2.2.1
    exact thumb1_carries clear j1 j2 (by omega) (by omega)

end Landing

end DeveloperTools.Ld64.BranchFixups
