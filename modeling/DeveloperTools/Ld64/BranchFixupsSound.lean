import DeveloperTools.Ld64.ThumbFixups

/-!
Every branch or PC-relative fixup is exact or rejected exactly when `Sound` holds of it. This
module has the remaining kinds and puts them together.
-/

namespace DeveloperTools.Ld64.BranchFixups

open BitFields PcRelative Arm64Instructions
open Option BitVec

section Branch26

variable {fixup : Fixup} {address accumulator : BitVec 64} {instruction word : BitVec 32}

theorem disp26 (delta : BitVec 64) : (delta.sshiftRight 2).setWidth 32 &&& 0x03FFFFFF#32 =
      placed 32 0 (delta.extractLsb' 2 26) := by
  have mask : (0x03FFFFFF#32) = placed 32 0 (BitVec.allOnes 26) := by decide
  rw [mask]
  exact sshiftRight_field delta 2 32 (by decide) (by decide)

theorem a64_form_kept (disp : BitVec 26) :
    a64Form (instruction &&& 0xFC000000#32 ||| placed 32 0 disp) = a64Form instruction := by
  unfold a64Form
  simp (disch := decide) only [extractLsb'_or, extract_and_kept, extract_placed_elsewhere, or_zero]

theorem switched_a64 {form : Form} (found : a64Form word = some form) (thumb : Bool) :
    switched thumb form = form := by
  unfold a64Form at found
  split_ifs at found <;> cases found <;> rfl

theorem branch26_landed
    (stored : storeARM64Branch26 fixup address accumulator instruction = some word) :
    a64 address word = (a64Form instruction).map fun form =>
      ⟨form, address + (if fixup.contentAddendOnly then accumulator
        else accumulator - address).sshiftRight 2 <<< 2, false⟩ := by
  unfold storeARM64Branch26 at stored
  simp only [disp26] at stored
  generalize (if fixup.contentAddendOnly = true then accumulator else accumulator - address) =
    delta at stored ⊢
  split at stored
  next checked =>
    cases stored
    have within := of_decide_eq_true checked
    have extended := signExtend_extract (n := 25) delta 2 (by decide) (by omega) (by omega)
    have immediate : (instruction &&& 0xFC000000#32 |||
        placed 32 0 (delta.extractLsb' 2 26)).extractLsb' 0 26 = delta.extractLsb' 2 26 := by
      rw [extractLsb'_or, extract_and_mask _ _ _ (by decide),
        extract_placed _ _ (by decide), zero_or]
    rw [a64, a64_form_kept, immediate, extended]
  · cases stored

theorem branch26_exact_iff
    (stored : storeARM64Branch26 fixup address accumulator instruction = some word) :
    (∃ form, a64Form instruction = some form ∧ a64 address word =
      some ⟨switched false form,
        if fixup.contentAddendOnly then address + accumulator else accumulator, false⟩) ↔
    (a64Form instruction).isSome = true ∧
      if fixup.contentAddendOnly then accumulator.toNat % 4 = 0
      else accumulator.toNat % 4 = address.toNat % 4 := by
  rw [branch26_landed stored]
  cases found : a64Form instruction with
  | none => simp
  | some form =>
    simp only [Option.some.injEq, map_some, exists_eq_left', switched_a64 found,
      Landing.mk.injEq, true_and, and_true, isSome_some]
    cases fixup.contentAddendOnly with
    | true =>
      exact rounded_iff _ _ _ 2 rfl
    | false =>
      simp only [Bool.false_eq_true, if_false]
      rw [rounded_iff _ _ _ 2 (add_sub_cancel _ _), toNat_sub]
      omega

end Branch26

section Page21

variable {fixup : Fixup} {address target : BitVec 64} {instruction word : BitVec 32}

theorem adrp_form_eq (word : BitVec 32) : adrpForm word =
    if word &&& 0x9F000000#32 = 0x90000000#32 then some (.adrp (word.extractLsb' 0 5))
    else none := by
  split
  next isClass =>
    rw [adrpForm, Aarch64.decode_of_adrp_class word isClass]
  rename_i other
  unfold adrpForm
  cases decoded : Aarch64.decode word with
  | none => rfl
  | some shape =>
    cases shape with
    | adrp destination pages =>
      unfold Aarch64.decode at decoded
      split_ifs at decoded <;> simp at decoded
    | _ => rfl

theorem adrp_eq (word : BitVec 32) (address : BitVec 64) :
    adrp address word = (adrpForm word).map fun form =>
      ⟨form, pageOf address + (Aarch64.immediate21 word).signExtend 64 <<< 12, false⟩ := by
  rw [adrp_form_eq]
  split
  next isClass =>
    rw [adrp, Aarch64.decode_of_adrp_class word isClass]
    rfl
  rename_i other
  have noForm := adrp_form_eq word
  unfold adrpForm at noForm
  unfold adrp
  cases decoded : Aarch64.decode word with
  | none => rfl
  | some shape => cases shape <;> simp_all

section

variable (stored : storePage21 instruction address target = some word)
include stored

theorem adrp_form_kept : adrpForm word = adrpForm instruction := by
  have kept : word &&& 0x9F000000#32 = instruction &&& 0x9F000000#32 := by
    rw [page_word stored, and_or_distrib_right, and_or_distrib_right,
      placed_and_mask _ _ _ (by decide), placed_and_mask _ _ _ (by decide), BitVec.and_assoc,
      or_zero, or_zero]
    congr 1
  have destination : word.extractLsb' 0 5 = instruction.extractLsb' 0 5 := by
    rw [page_word stored]
    simp (disch := decide) only [extractLsb'_or, extract_and_kept,
      extract_placed_elsewhere, or_zero]
  rw [adrp_form_eq, adrp_form_eq, kept, destination]

theorem page21_exact_iff :
    (∃ form, adrpForm instruction = some form ∧ adrp address word =
      some ⟨switched false form, pageOf target, false⟩) ↔
    (adrpForm instruction).isSome = true ∧ (pageOf target - pageOf address).toInt ≠ 2 ^ 32 := by
  rw [adrp_eq, adrp_form_kept stored]
  cases found : adrpForm instruction with
  | none => simp
  | some form =>
    have same : switched false form = form := by
      rw [adrp_form_eq] at found
      split at found <;> cases found
      rfl
    simp only [Option.some.injEq, map_some, exists_eq_left', same, Landing.mk.injEq,
      true_and, and_true, isSome_some]
    constructor
    · -- a target exactly 4GB ahead is decoded 4GB behind
      intro reached ahead
      have delta : pageOf target - pageOf address = 0x100000000#64 := by
        apply eq_of_toInt_eq
        rw [ahead]
        decide
      have behind : (Aarch64.immediate21 word).signExtend 64 <<< 12 = -0x100000000#64 := by
        rw [page_immediate stored, delta]
        decide
      rw [behind] at reached
      rw [← reached, add_sub_cancel_left] at delta
      revert delta
      decide
    · exact page_value stored

end

end Page21

section X86

variable {fixup : Fixup} {address accumulator : BitVec 64}

theorem trailing_zero {kind : Kind} {trailing : Nat} (takes : kind.takesAddress = true)
    (shape : storeOf kind = some (.x86PCRel32 trailing)) : trailing = 0 := by
  cases kind <;> simp_all [Kind.takesAddress, storeOf]

theorem x86_reaches (bytes trailing : Nat)
    (none_after : fixup.kind.takesAddress = true → trailing = 0) :
    address + BitVec.ofNat 64 (bytes + trailing) +
        fixup.x86Delta bytes trailing address accumulator =
      if fixup.contentAddendOnly then
        address + BitVec.ofNat 64 bytes + if fixup.kind.takesAddress then 0 else accumulator
      else accumulator := by
  unfold Fixup.x86Delta
  rw [ofNat_add]
  cases fixup.contentAddendOnly with
  | false =>
    exact add_sub_cancel _ _
  | true =>
    simp only [if_true]
    cases takes : fixup.kind.takesAddress with
    | true => simp [none_after takes]
    | false =>
      simp only [Bool.false_eq_true, if_false]
      abel

end X86

section Aimed

variable (fixup : Fixup) (site : Site)

theorem thumb_address_again (address value : BitVec 64) (thumb : Bool) :
    thumbAddress fixup address (thumbBit fixup (thumbAddress fixup address value thumb) thumb)
        thumb =
      thumbAddress fixup address (thumbBit fixup value thumb) thumb := by
  unfold thumbAddress thumbBit
  cases fixup.contentDetlaToAddendOnly with
  | true => rfl
  | false =>
    cases thumb <;>
    · simp only [Bool.false_eq_true, if_false, if_true]
      apply eq_of_getLsbD_eq
      intro i bound
      grind

theorem thumb_taken (takes : fixup.kind.takesAddress = true)
    (branch : fixup.store = .thumbBranch22) : (taken fixup site).2 = (aimed fixup site).2 ∧
      thumbDelta fixup site.address (taken fixup site).1 (taken fixup site).2 =
        thumbDelta fixup site.address (aimed fixup site).1 (aimed fixup site).2 := by
  unfold taken aimed pastIsland thumbIslandInRange thumbDelta
  simp only [takes, branch, Bool.not_true, Bool.false_eq_true, if_false, Bool.true_and,
    beq_self_eq_true, if_true]
  cases site.target.islandTarget with
  | none => exact ⟨rfl, rfl⟩
  | some island =>
    simp only
    split
    · refine ⟨rfl, ?_⟩
      simp only [thumb_address_again]
    · exact ⟨rfl, rfl⟩

theorem aimed_of_other (other : fixup.kind.takesAddress = false ∨ fixup.store ≠ .thumbBranch22) :
    aimed fixup site = taken fixup site := by
  unfold aimed
  rw [if_neg]
  simp only [Bool.and_eq_true, beq_iff_eq]
  rintro ⟨takes, branch⟩
  cases other with
  | inl keeps => simp [takes] at keeps
  | inr differs => exact differs branch

theorem thumb_stored_aimed (branch : fixup.store = .thumbBranch22) :
    (aimed fixup site).2 = (taken fixup site).2 ∧
    storeThumbBranch22 fixup site.address (taken fixup site).1 (taken fixup site).2
        site.instruction site.thumb2Branch24 =
      storeThumbBranch22 fixup site.address (aimed fixup site).1 (aimed fixup site).2
        site.instruction site.thumb2Branch24 := by
  cases takes : fixup.kind.takesAddress with
  | false =>
    rw [aimed_of_other fixup site (Or.inl takes)]
    exact ⟨rfl, rfl⟩
  | true =>
    obtain ⟨sameTarget, sameDelta⟩ := thumb_taken fixup site takes branch
    unfold storeThumbBranch22
    rw [sameDelta, sameTarget]
    exact ⟨rfl, rfl⟩

end Aimed

section All

variable {fixup : Fixup} {site : Site} {word : BitVec 32}

theorem x86_landed (bytes trailing n : Nat) (width : n + 1 ≤ 32)
    (none_after : fixup.kind.takesAddress = true → trailing = 0) (accumulator : BitVec 64)
    (low : -2 ^ n ≤ (fixup.x86Delta bytes trailing site.address accumulator).toInt)
    (high : (fixup.x86Delta bytes trailing site.address accumulator).toInt < 2 ^ n) :
    field (n + 1) (site.address + BitVec.ofNat 64 (bytes + trailing))
        (setLow (n + 1) site.instruction (fixup.x86Delta bytes trailing site.address accumulator)) =
      ⟨fieldForm (n + 1) site.instruction, if fixup.contentAddendOnly then
        site.address + BitVec.ofNat 64 bytes + if fixup.kind.takesAddress then 0 else accumulator
      else accumulator, false⟩ := by
  rw [set_low_landing width site.instruction _ low high, x86_reaches bytes trailing none_after]

theorem stored_exact_iff (stored : applyFixUp fixup site = some word) :
    Exact fixup site word ↔ Sound fixup site := by
  unfold applyFixUp at stored
  by_cases thumb : fixup.store = .thumbBranch22
  · simp only [thumb] at stored
    obtain ⟨sameTarget, sameStore⟩ := thumb_stored_aimed fixup site thumb
    rw [sameStore] at stored
    simp only [Exact, Sound, formOf, landing, aim, thumb]
    exact thumb_exact_iff stored
  have same := aimed_of_other fixup site (Or.inr thumb)
  unfold Exact Sound formOf landing aim
  cases shape : fixup.store <;> simp only [shape, same] at stored ⊢
  case x86PCRel8 =>
    split at stored
    next checked =>
      cases stored
      have within := of_decide_eq_true checked
      exact iff_of_true ⟨_, rfl, congrArg some
        (x86_landed 1 0 7 (by decide) (fun _ => rfl) _ (by omega) (by omega))⟩ trivial
    · cases stored
  case x86PCRel16 =>
    split at stored
    next checked =>
      cases stored
      have within := of_decide_eq_true checked
      exact iff_of_true ⟨_, rfl, congrArg some
        (x86_landed 2 0 15 (by decide) (fun _ => rfl) _ (by omega) (by omega))⟩ trivial
    · cases stored
  case x86PCRel32 trailing =>
    split at stored
    next checked =>
      cases stored
      have within := of_decide_eq_true checked
      have after (takes : fixup.kind.takesAddress = true) : trailing = 0 :=
        trailing_zero takes (shape ▸ fixup.isStore)
      exact iff_of_true ⟨_, rfl, congrArg some
        (x86_landed 4 trailing 31 (by decide) after _ (by omega) (by omega))⟩ trivial
    · cases stored
  case armBranch24 => exact arm_exact_iff stored
  case thumbBranch22 => exact absurd shape thumb
  case arm64Branch26 => exact branch26_exact_iff stored
  case arm64Page21 =>
    rw [page21_exact_iff stored]
    cases fixup.contentAddendOnly <;> simp

/-- The displacement is out of the range that is checked, or the target is code of the other
instruction set and the instruction cannot change to it. -/
def Rejected (fixup : Fixup) (site : Site) : Prop :=
  let value := (taken fixup site).1
  let thumb := (taken fixup site).2
  match fixup.store with
  | .x86PCRel8 => rangeCheck8 (fixup.x86Delta 1 0 site.address value) = false
  | .x86PCRel16 => rangeCheck16 (fixup.x86Delta 2 0 site.address value) = false
  | .x86PCRel32 trailing => rangeCheck32 (fixup.x86Delta 4 trailing site.address value) = false
  | .armBranch24 =>
    checkArmBranch24Displacement (value - (site.address + 8#64)) = false ∨
      thumb = true ∧ site.instruction &&& 0xFF000000#32 ≠ 0xEB000000#32 ∧
        site.instruction &&& 0xFE000000#32 ≠ 0xFA000000#32 ∧
        (site.instruction &&& 0x0F000000#32 = 0x0A000000#32 →
          fixup.contentDetlaToAddendOnly = false)
  | .thumbBranch22 =>
    checkThumbBranch22Displacement site.thumb2Branch24
        (thumbDelta fixup site.address value thumb) = false ∨
      thumb = false ∧ if site.thumb2Branch24 then
        ¬ isThumbBl site.instruction ∧ ¬ isThumbBlx site.instruction ∧
          (isThumbB site.instruction → fixup.contentDetlaToAddendOnly = false)
      else isThumbB site.instruction ∧ fixup.contentDetlaToAddendOnly = false
  | .arm64Branch26 => rangeCheckARM64Branch26
      (if fixup.contentAddendOnly then value else value - site.address) = false
  | .arm64Page21 => rangeCheckARM64Page21
      (pageOf (if fixup.contentAddendOnly then site.address else value) - pageOf site.address) =
        false

theorem arm_rejected_iff {address accumulator : BitVec 64} {thumb : Bool}
    {instruction : BitVec 32} :
    storeARMBranch24 fixup address accumulator thumb instruction = none ↔
      checkArmBranch24Displacement (accumulator - (address + 8#64)) = false ∨
        thumb = true ∧ instruction &&& 0xFF000000#32 ≠ 0xEB000000#32 ∧
          instruction &&& 0xFE000000#32 ≠ 0xFA000000#32 ∧
          (instruction &&& 0x0F000000#32 = 0x0A000000#32 →
            fixup.contentDetlaToAddendOnly = false) := by
  unfold storeARMBranch24
  simp only
  grind

theorem thumb_rejected_iff {address accumulator : BitVec 64} {thumb thumb2Branch24 : Bool}
    {instruction : BitVec 32} :
    storeThumbBranch22 fixup address accumulator thumb instruction thumb2Branch24 = none ↔
      checkThumbBranch22Displacement thumb2Branch24
          (thumbDelta fixup address accumulator thumb) = false ∨
        thumb = false ∧ if thumb2Branch24 then
          ¬ isThumbBl instruction ∧ ¬ isThumbBlx instruction ∧
            (isThumbB instruction → fixup.contentDetlaToAddendOnly = false)
        else isThumbB instruction ∧ fixup.contentDetlaToAddendOnly = false := by
  have apart : isThumbB instruction → ¬ isThumbBl instruction := by
    intro isB isBl
    exact absurd (isB.symm.trans isBl) (by decide)
  unfold storeThumbBranch22
  simp only
  cases thumb2Branch24 with
  | true =>
    unfold thumb2Opcode
    grind
  | false =>
    unfold thumb1Opcode
    grind

theorem rejected_iff : applyFixUp fixup site = none ↔ Rejected fixup site := by
  unfold applyFixUp Rejected
  cases fixup.store with
  | x86PCRel8 | x86PCRel16 | x86PCRel32 trailing => simp
  | armBranch24 => exact arm_rejected_iff
  | thumbBranch22 => exact thumb_rejected_iff
  | arm64Branch26 => simp [storeARM64Branch26]
  | arm64Page21 => simp [storeARM64Page21, storePage21]

/-- Every branch or PC-relative fixup is rejected or exact if and only if it is sound or out of
the range that is checked. -/
theorem exact_or_rejected_iff (fixup : Fixup) (site : Site) :
    (∀ word, applyFixUp fixup site = some word → Exact fixup site word) ↔
      Rejected fixup site ∨ Sound fixup site := by
  rw [← rejected_iff]
  cases applied : applyFixUp fixup site with
  | none => simp
  | some word =>
    simp only [Option.some.injEq, forall_eq', reduceCtorEq, false_or]
    exact stored_exact_iff applied

end All

def pageFixup : Fixup where
  kind := .storeTargetAddressARM64Page21
  store := .arm64Page21
  isStore := rfl
  contentAddendOnly := false
  contentDetlaToAddendOnly := false

def pageSite : Site where
  thumb2Branch24 := true
  address := 0x100000000#64
  instruction := 0x90000000#32
  accumulator := 0#64
  thumbTarget := false
  target := { address := 0x200000000#64, isThumb := false, islandTarget := none }

/-- The range check lets it pass, and the instruction forms the page 4GB behind. -/
theorem page_ahead_formed_behind : applyFixUp pageFixup pageSite = some 0x90800000#32 ∧
      aim pageFixup pageSite = (0x200000000#64, false) ∧
      landing pageFixup pageSite 0x90800000#32 = some ⟨.adrp 0#5, 0#64, false⟩ ∧
      ¬ Exact pageFixup pageSite 0x90800000#32 := by
  refine ⟨by decide, by decide, by decide, ?_⟩
  rintro ⟨form, _, landed⟩
  have away : landing pageFixup pageSite 0x90800000#32 = some ⟨.adrp 0#5, 0#64, false⟩ := by decide
  have wrong : 0#64 = (aim pageFixup pageSite).1 :=
    congrArg Landing.address (Option.some.inj landed)
  revert wrong
  decide

end DeveloperTools.Ld64.BranchFixups
