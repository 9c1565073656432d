import DeveloperTools.Ld64.Arm64Decoding
import DeveloperTools.Ld64.BranchFixups

/-!
When a branch or PC-relative fixup that is not rejected reaches its target exactly. The x86
kinds always do. The others drop low bits of a displacement that is no multiple of the
instruction size, ADRP has a value one page too far in its range, and instructions of another
form than the kind says are overwritten.
-/

namespace DeveloperTools.Ld64.BranchFixups

open BitFields PcRelative Arm64Instructions
open BitVec

def withoutThumbBit (value : BitVec 64) : BitVec 64 := value &&& ~~~ 1#64

/-- The displacement of a Thumb branch is within what the loop in `applyFixUps` leaves alone. -/
def Near (fixup : Fixup) (address value : BitVec 64) : Prop :=
  fixup.contentDetlaToAddendOnly = true → -16777216 ≤ (value - (address + 4#64)).toInt

section Statement

variable (fixup : Fixup) (site : Site)

def aimed : BitVec 64 × Bool :=
  if fixup.kind.takesAddress && fixup.store == .thumbBranch22 then
    let (address, thumb) := pastIsland site (thumbIslandInRange fixup site)
    (thumbBit fixup address thumb, thumb)
  else taken fixup site

/-- The computed target, and whether Thumb code runs there. Where the content is the addend
alone it is the displacement. -/
def aim : BitVec 64 × Bool :=
  let (value, thumb) := aimed fixup site
  let relative := if fixup.kind.takesAddress then 0 else value
  match fixup.store with
  | .x86PCRel8 => (if fixup.contentAddendOnly then site.address + 1#64 + relative else value, false)
  | .x86PCRel16 => (if fixup.contentAddendOnly then site.address + 2#64 + relative else value, false)
  | .x86PCRel32 _ =>
    (if fixup.contentAddendOnly then site.address + 4#64 + relative else value, false)
  | .armBranch24 | .thumbBranch22 => (if thumb then withoutThumbBit value else value, thumb)
  | .arm64Branch26 => (if fixup.contentAddendOnly then site.address + value else value, false)
  | .arm64Page21 => (pageOf (if fixup.contentAddendOnly then site.address else value), false)

def formOf (word : BitVec 32) : Option Form :=
  match fixup.store with
  | .x86PCRel8 => some (fieldForm 8 word)
  | .x86PCRel16 => some (fieldForm 16 word)
  | .x86PCRel32 _ => some (fieldForm 32 word)
  | .armBranch24 => a32Form word
  | .thumbBranch22 => if site.thumb2Branch24 then t32Form word else t16Form word
  | .arm64Branch26 => a64Form word
  | .arm64Page21 => adrpForm word

def landing (word : BitVec 32) : Option Landing :=
  match fixup.store with
  | .x86PCRel8 => some (field 8 (site.address + 1#64) word)
  | .x86PCRel16 => some (field 16 (site.address + 2#64) word)
  | .x86PCRel32 trailing =>
    some (field 32 (site.address + BitVec.ofNat 64 (4 + trailing)) word)
  | .armBranch24 => a32 site.address word
  | .thumbBranch22 => if site.thumb2Branch24 then t32 site.address word else t16 site.address word
  | .arm64Branch26 => a64 site.address word
  | .arm64Page21 => adrp site.address word

/-- BL becomes BLX and back where the instruction set changes. -/
def switched (thumb : Bool) : Form → Form
  | .armBl cond => if thumb && cond == 0xE#4 then .armBlx else .armBl cond
  | .armBlx => if thumb then .armBlx else .armBl 0xE#4
  | .thumbBl | .thumbBlx => if thumb then .thumbBl else .thumbBlx
  | form => form

/-- The stored instruction reaches the target and is otherwise as it was. -/
def Exact (word : BitVec 32) : Prop :=
  ∃ form, formOf fixup site site.instruction = some form ∧
    landing fixup site word =
      some ⟨switched (aim fixup site).2 form, (aim fixup site).1, (aim fixup site).2⟩

/-- What makes the stored instruction exact. -/
def Sound : Prop :=
  let value := (aimed fixup site).1
  let thumb := (aimed fixup site).2
  match fixup.store with
  | .x86PCRel8 | .x86PCRel16 | .x86PCRel32 _ => True
  | .armBranch24 => ∃ form, a32Form site.instruction = some form ∧
      if thumb then (∀ cond, form ≠ .armB cond) ∧ site.address.toNat % 2 = 0
      else value.toNat % 4 = site.address.toNat % 4
  | .thumbBranch22 => ∃ form, formOf fixup site site.instruction = some form ∧
      Near fixup site.address value ∧
      if thumb then site.address.toNat % 2 = 0
      else form ≠ .thumbB ∧ value.toNat % 4 = 0 ∧
        if fixup.contentDetlaToAddendOnly then site.address.toNat % 4 = 0
        else site.address.toNat % 2 = 0
  | .arm64Branch26 => (a64Form site.instruction).isSome = true ∧
      if fixup.contentAddendOnly then value.toNat % 4 = 0
      else value.toNat % 4 = site.address.toNat % 4
  | .arm64Page21 => (adrpForm site.instruction).isSome = true ∧
      (fixup.contentAddendOnly = false → (pageOf value - pageOf site.address).toInt ≠ 2 ^ 32)

end Statement

theorem set_low_landing {n : Nat} (fits : n + 1 ≤ 32) (instruction : BitVec 32)
    {delta : BitVec 64} (next : BitVec 64) (low : -2 ^ n ≤ delta.toInt)
    (high : delta.toInt < 2 ^ n) : field (n + 1) next (setLow (n + 1) instruction delta) =
      ⟨fieldForm (n + 1) instruction, next + delta, false⟩ := by
  have clear : (~~~ placed 32 0 (BitVec.allOnes (n + 1))).extractLsb' 0 (n + 1) = 0#(n + 1) := by
    apply eq_of_getLsbD_eq
    intro i bound
    rw [getLsbD_extractLsb', getLsbD_not, placed_bit, getLsbD_allOnes]
    have inside : i < 32 := by omega
    simp [bound, inside]
  have value : (setLow (n + 1) instruction delta).extractLsb' 0 (n + 1) =
      delta.extractLsb' 0 (n + 1) := by
    rw [setLow, extractLsb'_or, extract_and_mask _ _ _ clear,
      extract_placed _ _ (by omega), zero_or, setWidth_eq_extractLsb' (by omega)]
  have rest : fieldForm (n + 1) (setLow (n + 1) instruction delta) =
      fieldForm (n + 1) instruction := by
    rw [fieldForm, fieldForm, setLow, and_or_distrib_right, placed_and_mask _ _ _ clear,
      BitVec.and_assoc, BitVec.and_self, or_zero]
  have extended := signExtend_extract (n := n) delta 0 (by omega) (by simpa using low)
    (by simpa using high)
  rw [field, rest, value, extended, sshiftRight_zero]

theorem disp24 (delta : BitVec 64) :
    (delta.sshiftRight 2).setWidth 32 &&& 0x00FFFFFF#32 = placed 32 0 (delta.extractLsb' 2 24) := by
  rw [show (0x00FFFFFF#32) = placed 32 0 (BitVec.allOnes 24) by decide]
  exact sshiftRight_field delta 2 32 (by decide) (by decide)

theorem h_bit (delta : BitVec 64) :
    (delta <<< 23).setWidth 32 &&& 0x01000000#32 = placed 32 24 (delta.extractLsb' 1 1) := by
  have bit : ((delta <<< 23).setWidth 32).extractLsb' 24 1 = delta.extractLsb' 1 1 := by
    apply eq_of_getLsbD_eq
    intro i bound
    have narrow : 24 + i < 32 := by omega
    have start : ¬ 24 + i < 23 := by omega
    have moved : 24 + i - 23 = 1 + i := by omega
    simp [narrow, start, moved]
  rw [show (0x01000000#32) = placed 32 24 (BitVec.allOnes 1) by decide, and_ones, bit]

theorem rounded_iff (base displacement value : BitVec 64) (shift : Nat)
    (reaches : base + displacement = value) :
    base + displacement.sshiftRight shift <<< shift = value ↔
      displacement.toNat % 2 ^ shift = 0 := by
  rw [sshiftRight_shiftLeft_sub, ← add_sub_assoc, reaches]
  have small : displacement.toNat % 2 ^ shift < 2 ^ 64 :=
    Nat.lt_of_le_of_lt (Nat.mod_le _ _) displacement.isLt
  generalize displacement.toNat % 2 ^ shift = low at small
  constructor
  · intro same
    have zero := congrArg BitVec.toNat (sub_eq_self.mp same)
    rw [toNat_ofNat, Nat.mod_eq_of_lt small] at zero
    exact zero
  · intro zero
    subst zero
    simp

theorem even_sub (value : BitVec 64) :
    withoutThumbBit value = value - BitVec.ofNat 64 (value.toNat % 2) := by
  exact and_not_ones value 1

theorem half_words_iff (base displacement value : BitVec 64)
    (reaches : base + displacement = value) :
    base + displacement.sshiftRight 1 <<< 1 = withoutThumbBit value ↔ base.toNat % 2 = 0 := by
  rw [sshiftRight_shiftLeft_sub, ← add_sub_assoc, reaches, even_sub,
    sub_right_inj, ← toNat_inj, toNat_ofNat, toNat_ofNat, ← reaches, toNat_add]
  omega

section A32

variable {instruction word : BitVec 32} {address delta : BitVec 64} {form : Form}

theorem is_bl_iff : instruction &&& 0xFF000000#32 = 0xEB000000#32 ↔
    instruction.extractLsb' 28 4 = 0xE#4 ∧ instruction.extractLsb' 24 4 = 0xB#4 := by
  have parts : ∀ high low : BitVec 4, high ++ low = 0xEB#8 ↔ high = 0xE#4 ∧ low = 0xB#4 := by
    decide
  rw [show (0xFF000000#32) = placed 32 24 (BitVec.allOnes 8) by decide,
    show (0xEB000000#32) = placed 32 24 0xEB#8 by decide, and_ones_eq_iff _ _ _ (by decide),
    ← parts, extract_append_extract (n := 4) (k := 4) instruction 24]

theorem is_blx_iff : instruction &&& 0xFE000000#32 = 0xFA000000#32 ↔
    instruction.extractLsb' 25 7 = 0x7D#7 := by
  rw [show (0xFE000000#32) = placed 32 25 (BitVec.allOnes 7) by decide,
    show (0xFA000000#32) = placed 32 25 0x7D#7 by decide, and_ones_eq_iff _ _ _ (by decide)]

theorem is_b_iff : instruction &&& 0x0F000000#32 = 0x0A000000#32 ↔
    instruction.extractLsb' 24 4 = 0xA#4 := by
  rw [show (0x0F000000#32) = placed 32 24 (BitVec.allOnes 4) by decide,
    show (0x0A000000#32) = placed 32 24 0xA#4 by decide, and_ones_eq_iff _ _ _ (by decide)]

theorem a32_plain (found : a32Form word = some form) (plain : form ≠ .armBlx)
    (immediate : word.extractLsb' 0 24 = delta.extractLsb' 2 24) (low : -2 ^ 25 ≤ delta.toInt)
    (high : delta.toInt < 2 ^ 25) :
    a32 address word = some ⟨form, address + 8#64 + delta.sshiftRight 2 <<< 2, false⟩ := by
  have extended := signExtend_extract (n := 23) delta 2 (by decide) low high
  simp only [a32, found, Option.map_some, plain, if_false, immediate, extended]

theorem kept_field (opcode : BitVec 32) (disp : BitVec 24)
    (clear : opcode.extractLsb' 0 24 = 0#24) :
    (opcode ||| placed 32 0 disp).extractLsb' 0 24 = disp := by
  rw [extractLsb'_or, clear, extract_placed _ _ (by decide), zero_or]

theorem a32_form_kept (disp : BitVec 24) :
    a32Form (instruction &&& 0xFF000000#32 ||| placed 32 0 disp) = a32Form instruction := by
  unfold a32Form
  simp (disch := decide) only [extractLsb'_or, extract_and_kept, extract_placed_elsewhere, or_zero]

theorem blx_word (h : BitVec 1) (disp : BitVec 24) :
    a32Form (0xFA000000#32 ||| placed 32 24 h ||| placed 32 0 disp) = some .armBlx := by
  rw [a32Form, if_pos]
  simp (disch := decide) only [extractLsb'_or, extract_placed_elsewhere, or_zero]
  decide

theorem landed_blx (low : -2 ^ 25 ≤ delta.toInt) (high : delta.toInt < 2 ^ 25) :
    a32 address (0xFA000000#32 ||| placed 32 24 (delta.extractLsb' 1 1) |||
        placed 32 0 (delta.extractLsb' 2 24)) =
      some ⟨.armBlx, address + 8#64 + delta.sshiftRight 1 <<< 1, true⟩ := by
  have extended := signExtend_extract (n := 24) delta 1 (by decide) low high
  simp only [a32, blx_word, Option.map_some, if_true]
  simp (disch := decide) only [extractLsb'_or, extract_placed, extract_placed_elsewhere]
  rw [← extended, ← extract_append_extract (n := 1) (k := 24) delta 1]
  simp

theorem bl_word (disp : BitVec 24) :
    a32Form (0xEB000000#32 ||| placed 32 0 disp) = some (.armBl 0xE#4) := by
  unfold a32Form
  simp (disch := decide) only [extractLsb'_or, extract_placed_elsewhere, or_zero]
  decide

theorem form_of_bl (isBl : instruction &&& 0xFF000000#32 = 0xEB000000#32) :
    a32Form instruction = some (.armBl 0xE#4) := by
  obtain ⟨cond, opcode⟩ := is_bl_iff.mp isBl
  have notBlx : instruction.extractLsb' 25 7 ≠ 0x7D#7 := by
    intro isBlx
    exact absurd (is_blx_iff.mpr isBlx) (masked_ne isBl (by decide))
  simp [a32Form, notBlx, cond, opcode]

theorem form_of_b (notBlx : ¬ instruction &&& 0xFE000000#32 = 0xFA000000#32)
    (isB : instruction &&& 0x0F000000#32 = 0x0A000000#32) :
    a32Form instruction = some (.armB (instruction.extractLsb' 28 4)) := by
  have opcode := is_b_iff.mp isB
  rw [is_blx_iff] at notBlx
  have cond : instruction.extractLsb' 28 4 ≠ 0xF#4 := by
    intro cond
    apply notBlx
    have top : instruction.extractLsb' 24 8 = 0xFA#8 := by
      rw [← extract_append_extract (n := 4) (k := 4) instruction 24, cond, opcode]
      decide
    have byte : instruction &&& 0xFF000000#32 = 0xFA000000#32 := by
      rw [show (0xFF000000#32) = placed 32 24 (BitVec.allOnes 8) by decide,
        show (0xFA000000#32) = placed 32 24 0xFA#8 by decide, and_ones_eq_iff _ _ _ (by decide)]
      exact top
    apply is_blx_iff.mp
    rw [show (0xFE000000#32) = 0xFF000000#32 &&& 0xFE000000#32 by decide, ← BitVec.and_assoc, byte]
    decide
  simp [a32Form, notBlx, cond, opcode]

end A32

section StoreA32

variable {fixup : Fixup} {address accumulator : BitVec 64} {thumbTarget : Bool}
  {instruction word : BitVec 32}

section

variable (stored : storeARMBranch24 fixup address accumulator thumbTarget instruction = some word)
include stored

theorem arm_stored :
    ((a32Form instruction = some (.armBl 0xE#4) ∨ a32Form instruction = some .armBlx) ∧
      word = if thumbTarget then
          0xFA000000#32 ||| placed 32 24 ((accumulator - (address + 8#64)).extractLsb' 1 1) |||
            placed 32 0 ((accumulator - (address + 8#64)).extractLsb' 2 24)
        else 0xEB000000#32 ||| placed 32 0 ((accumulator - (address + 8#64)).extractLsb' 2 24)) ∨
    (a32Form instruction ≠ some .armBlx ∧
      (thumbTarget = true → ∃ cond, a32Form instruction = some (.armB cond)) ∧
      word = (instruction &&& 0xFF000000#32 |||
        placed 32 0 ((accumulator - (address + 8#64)).extractLsb' 2 24))) := by
  unfold storeARMBranch24 at stored
  simp only [disp24, h_bit] at stored
  split at stored
  · cases stored
  by_cases isBl : instruction &&& 0xFF000000#32 = 0xEB000000#32
  · left
    refine ⟨.inl (form_of_bl isBl), ?_⟩
    cases thumbTarget <;> simp [isBl] at stored <;> simp [stored]
  by_cases isBlx : instruction &&& 0xFE000000#32 = 0xFA000000#32
  · left
    refine ⟨.inr (by simp [a32Form, is_blx_iff.mp isBlx]), ?_⟩
    cases thumbTarget <;> simp [isBlx] at stored <;> simp [stored]
  right
  have notBlx : a32Form instruction ≠ some .armBlx := by
    rw [is_blx_iff] at isBlx
    unfold a32Form
    split_ifs <;> simp
  refine ⟨notBlx, ?_, ?_⟩
  · intro thumb
    by_cases isB : instruction &&& 0x0F000000#32 = 0x0A000000#32
    · exact ⟨_, form_of_b isBlx isB⟩
    · simp [isBl, isBlx, isB, thumb] at stored
  cases thumbTarget with
  | false => simpa [isBl, isBlx, eq_comm] using stored
  | true =>
    by_cases isB : instruction &&& 0x0F000000#32 = 0x0A000000#32
    · simp [isBl, isBlx, isB] at stored
      exact stored.2.symm
    · simp [isBl, isBlx, isB] at stored

theorem arm_in_range : -2 ^ 25 ≤ (accumulator - (address + 8#64)).toInt ∧
      (accumulator - (address + 8#64)).toInt < 2 ^ 25 := by
  unfold storeARMBranch24 at stored
  simp only at stored
  split at stored
  · cases stored
  rename_i checked
  simp only [Bool.not_eq_true', Bool.not_eq_false] at checked
  have within := of_decide_eq_true checked
  omega

theorem arm_exact_iff :
    (∃ form, a32Form instruction = some form ∧ a32 address word =
      some ⟨switched thumbTarget form,
        if thumbTarget then withoutThumbBit accumulator else accumulator, thumbTarget⟩) ↔
    ∃ form, a32Form instruction = some form ∧
      if thumbTarget then (∀ cond, form ≠ .armB cond) ∧ address.toNat % 2 = 0
      else accumulator.toNat % 4 = address.toNat % 4 := by
  obtain ⟨low, high⟩ := arm_in_range stored
  have reaches : address + 8#64 + (accumulator - (address + 8#64)) = accumulator := add_sub_cancel _ _
  have words : address + 8#64 + (accumulator - (address + 8#64)).sshiftRight 2 <<< 2 = accumulator ↔
      accumulator.toNat % 4 = address.toNat % 4 := by
    rw [rounded_iff _ _ _ 2 reaches, toNat_sub, toNat_add]
    simp only [show (8#64).toNat = 8 from rfl]
    omega
  have halves : address + 8#64 + (accumulator - (address + 8#64)).sshiftRight 1 <<< 1 =
      withoutThumbBit accumulator ↔ address.toNat % 2 = 0 := by
    rw [half_words_iff _ _ _ reaches, toNat_add]
    simp only [show (8#64).toNat = 8 from rfl]
    omega
  rcases arm_stored stored with ⟨call, made⟩ | ⟨notBlx, toThumb, made⟩
  · cases thumbTarget with
    | true =>
      simp only [if_true] at made ⊢
      rw [made, landed_blx low high]
      cases call with
      | inl found => simp [found, switched, halves]
      | inr found => simp [found, switched, halves]
    | false =>
      simp only [Bool.false_eq_true, if_false] at made ⊢
      rw [made, a32_plain (bl_word _) (by simp) (kept_field _ _ (by decide)) low high]
      cases call with
      | inl found => simp [found, switched, words]
      | inr found => simp [found, switched, words]
  · cases found : a32Form instruction with
    | none => simp
    | some form =>
      have plain : form ≠ .armBlx := fun blx => notBlx (blx ▸ found)
      rw [made, a32_plain ((a32_form_kept _).trans found) plain
        (kept_field _ _ (extract_and_mask _ _ _ (by decide))) low high]
      cases thumbTarget with
      | true =>
        obtain ⟨cond, isB⟩ := toThumb rfl
        rw [found] at isB
        cases isB
        simp
      | false =>
        have kept : switched false form = form := by
          unfold a32Form at found
          split_ifs at found
          all_goals cases found
          · exact absurd rfl plain
          · rfl
          · rfl
        simp [kept, words]

end

end StoreA32

end DeveloperTools.Ld64.BranchFixups
