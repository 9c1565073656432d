import DeveloperTools.Ld64.HintsFaithful

/-!
For each kind of hint, what the guards in front of an encoder leave open of its
assertions. The words may be any: nothing is asked of the instructions but that
the hint is not ignored.
-/

namespace DeveloperTools.Ld64.OptimizationHints

open Aarch64 Arm64Instructions
open List Option

structure LiteralMakes (ldr : LoadStoreInfo) (address : BitVec 64) : Prop where
  load : ldr.isStore = false
  plain : ldr.size = 4 → ldr.isFloat = true → ldr.signEx = .signedNot
  aligned : fourByteAligned address

section Conditions

variable (site : Site)

def adrpLdrEncodes (ldr : LoadStoreInfo) : Prop :=
  literalableSize ldr ∧ site.usableSegment ∧ fourByteAligned site.infoA.targetAddress ∧
      withinOneMeg site.infoB.instructionAddress site.infoA.targetAddress →
    LiteralMakes ldr site.infoB.instructionAddress

def adrpAddEncodes : Prop :=
  site.usableSegment ∧ withinOneMeg site.infoA.instructionAddress site.infoA.targetAddress →
    fourByteAligned site.infoA.instructionAddress

def adrpAddStrEncodes (add : AddInfo) (ldr : LoadStoreInfo) : Prop :=
  if site.usableSegment ∧
      withinOneMeg site.infoA.instructionAddress (site.targetAt ldr.offset) then
    fourByteAligned site.infoA.instructionAddress
  else
    site.infoB.targetAddress.toNat % ldr.size = 0 ∧ ldr.offset = 0 → ldr.size ∣ add.addend

def adrpAddLdrEncodes (add : AddInfo) (ldr : LoadStoreInfo) : Prop :=
  if literalableSize ldr ∧ site.usableSegment ∧ fourByteAligned (site.targetAt ldr.offset) ∧
      withinOneMeg site.infoC.instructionAddress (site.targetAt ldr.offset) then
    LiteralMakes ldr site.infoC.instructionAddress
  else adrpAddStrEncodes site add ldr

/-- The guard looks at the address of the last instruction's operand, not at the GOT slot. -/
def gotLoadEncodes (ldrB ldrC : LoadStoreInfo) : Prop :=
  site.usableSegment ∧ fourByteAligned (site.targetAt ldrC.offset) ∧
      withinOneMeg site.infoB.instructionAddress (site.targetAt ldrC.offset) →
    LiteralMakes ldrB site.infoB.instructionAddress ∧
      fourByteAligned site.infoA.targetAddress ∧
      withinOneMeg site.infoB.instructionAddress site.infoA.targetAddress

def adrpLdrGotStrEncodes (add : AddInfo) (ldr : LoadStoreInfo) : Prop :=
  if site.usableSegment ∧
      withinOneMeg site.infoA.instructionAddress site.infoA.targetAddress then
    fourByteAligned site.infoA.instructionAddress
  else
    site.infoA.targetAddress.toNat % ldr.size = 0 ∧ ldr.offset = 0 → ldr.size ∣ add.addend

def adrpLdrGotLdrEncodes (add : AddInfo) (ldr : LoadStoreInfo) : Prop :=
  if site.usableSegment ∧ literalableSize ldr ∧ fourByteAligned site.infoA.targetAddress ∧
      withinOneMeg site.infoC.instructionAddress (site.targetAt ldr.offset) then
    LiteralMakes ldr site.infoC.instructionAddress
  else if site.usableSegment ∧
      withinOneMeg site.infoA.instructionAddress site.infoA.targetAddress then
    fourByteAligned site.infoA.instructionAddress
  else
    site.infoA.targetAddress.toNat % ldr.size = 0 ∧ add.addend + ldr.offset < 4096 →
      ldr.size ∣ add.addend

/-- Neither the size nor the alignment of the slot is looked at. -/
def adrpLdrGotEncodes (ldr : LoadStoreInfo) : Prop :=
  site.usableSegment ∧ withinOneMeg site.infoB.instructionAddress site.infoA.targetAddress →
    LiteralMakes ldr site.infoB.instructionAddress ∧ literalableSize ldr ∧
      fourByteAligned site.infoA.targetAddress

end Conditions

/-- The condition on a hint, in terms of its instructions as the linker parses them. -/
def Encodes (site : Site) (kind : HintKind) : Prop :=
  ∀ adrp, parseADRP site.infoA.instruction = some adrp →
    match kind with
    | .adrpLdr =>
      ∀ ldr, parseLoadOrStore site.infoB.instruction = some ldr → adrpLdrEncodes site ldr
    | .adrpAdd => adrpAddEncodes site
    | .adrpAddLdr =>
      ∀ add, parseADD site.infoB.instruction = some add →
        ∀ ldr, parseLoadOrStore site.infoC.instruction = some ldr → adrpAddLdrEncodes site add ldr
    | .adrpAddStr =>
      ∀ add, parseADD site.infoB.instruction = some add →
        ∀ ldr, parseLoadOrStore site.infoC.instruction = some ldr → adrpAddStrEncodes site add ldr
    | .adrpLdrGotLdr =>
      ∀ ldrC, parseLoadOrStore site.infoC.instruction = some ldrC →
        (∀ ldrB, parseLoadOrStore site.infoB.instruction = some ldrB →
          gotLoadEncodes site ldrB ldrC) ∧
        ∀ add, parseADD site.infoB.instruction = some add → adrpLdrGotLdrEncodes site add ldrC
    | .adrpLdrGotStr =>
      ∀ ldrC, parseLoadOrStore site.infoC.instruction = some ldrC →
        (∀ ldrB, parseLoadOrStore site.infoB.instruction = some ldrB →
          gotLoadEncodes site ldrB ldrC) ∧
        ∀ add, parseADD site.infoB.instruction = some add → adrpLdrGotStrEncodes site add ldrC
    | .adrpLdrGot =>
      (∀ ldr, parseLoadOrStore site.infoB.instruction = some ldr → adrpLdrGotEncodes site ldr) ∧
      ∀ add, parseADD site.infoB.instruction = some add → adrpAddEncodes site

structure ParsedForm (info : LoadStoreInfo) : Prop where
  size : info.size ∈ [1, 2, 4, 8, 16]
  word : info.size = 4 → info.signEx ≠ .signed32
  double : info.size = 8 → info.signEx = .signedNot
  quad : info.size = 16 → info.signEx = .signedNot ∧ info.isFloat = true
  whole : info.size ∣ info.offset
  small : info.offset / info.size < 4096

def FormedKind (isFloat : Bool) (kind : Nat × Bool × SignExtension) : Prop :=
  kind.1 ∈ [1, 2, 4, 8, 16] ∧ (kind.1 = 4 → kind.2.2 ≠ .signed32) ∧
    (kind.1 = 8 → kind.2.2 = .signedNot) ∧
    (kind.1 = 16 → kind.2.2 = .signedNot ∧ isFloat = true)

instance (isFloat : Bool) (kind : Nat × Bool × SignExtension) :
    Decidable (FormedKind isFloat kind) :=
  inferInstanceAs (Decidable (_ ∧ _))

variable {condition : Prop}

theorem all_ite {α : Type} [Decidable condition] {holds : α → Bool} {kind : α} {rest : Option α}
    (here : holds kind = true) (later : rest.all holds = true) :
    (if condition then some kind else rest).all holds = true := by
  split
  · exact here
  · exact later

theorem parsed_kind (isFloat : Bool) (bits : BitVec 32) :
    (loadStoreKind isFloat bits).all (fun kind => decide (FormedKind isFloat kind)) = true := by
  unfold loadStoreKind
  cases isFloat
  · simp only [Bool.false_eq_true, if_false]
    repeat refine all_ite (by decide) ?_
    rfl
  · simp only [if_true]
    repeat refine all_ite (by decide) ?_
    rfl

theorem immediate_lt (word : BitVec 32) : (word >>> 10 &&& 0xFFF#32).toNat < 4096 := by
  exact Nat.lt_of_le_of_lt Nat.and_le_right (by decide)

variable {info : LoadStoreInfo} {word : BitVec 32}

theorem parsed_form (parsed : parseLoadOrStore word = some info) :
    ParsedForm info := by
  unfold parseLoadOrStore at parsed
  split at parsed
  · cases parsed
  obtain ⟨⟨size, isStore, signEx⟩, kind, made⟩ := map_eq_some_iff.mp parsed
  have formed := parsed_kind (decide (word &&& 0x04000000#32 ≠ 0#32)) (word &&& 0xC0C00000#32)
  rw [kind, all_some, decide_eq_true_eq] at formed
  obtain ⟨isSize, isWord, isDouble, isQuad⟩ := formed
  cases made
  have sizes : ∀ size ∈ [1, 2, 4, 8, 16], 0 < size := by decide
  refine ⟨isSize, isWord, isDouble, isQuad, Nat.dvd_mul_left _ _, ?_⟩
  rw [Nat.mul_div_cancel _ (sizes _ isSize)]
  exact immediate_lt word

theorem parsed_addend {info : AddInfo} (parsed : parseADD word = some info) :
    info.addend < 4096 := by
  unfold parseADD at parsed
  split at parsed
  · cases parsed
  · cases parsed
    exact immediate_lt word

theorem literal_opcode_iff (form : ParsedForm info) :
    (literalOpcode info).isSome ↔ literalableSize info ∧
      (info.size = 4 → info.isFloat = true → info.signEx = .signedNot) := by
  have sizes := form.size
  simp only [mem_cons, not_mem_nil, or_false] at sizes
  unfold literalOpcode literalableSize
  rcases sizes with size | size | size | size | size
  · simp [size]
  · simp [size]
  · simp only [size]
    split_ifs <;> simp_all
  · simp [size, form.double size]
  · simp [size, form.quad size]

theorem literal_makes (form : ParsedForm info) (target address : BitVec 64) :
    (makeLDRLiteral info target address).isSome ↔
      LiteralMakes info address ∧ literalableSize info ∧ fourByteAligned target ∧
        withinOneMeg address target := by
  have opcode := literal_opcode_iff form
  unfold makeLDRLiteral fourByteAligned
  split_ifs with asserted
  · rw [isSome_map, opcode]
    obtain ⟨within, targetAligned, addressAligned, load⟩ := asserted
    constructor
    · intro large
      exact ⟨⟨by simpa using load, large.2, addressAligned⟩, large.1, targetAligned, within⟩
    · intro makes
      exact ⟨makes.2.1, makes.1.plain⟩
  · simp only [isSome_none, Bool.false_eq_true, false_iff]
    intro makes
    apply asserted
    exact ⟨makes.2.2.2, makes.2.2.1, makes.1.aligned, by simp [makes.1.load]⟩

theorem adr_makes (destReg : BitVec 5) {target address : BitVec 64}
    (within : withinOneMeg address target) :
    (makeADR destReg target address).isSome ↔ fourByteAligned address := by
  rw [makeADR_eq]
  unfold fourByteAligned
  split_ifs with asserted
  · simp [asserted.1]
  · simp only [isSome_none, Bool.false_eq_true, false_iff]
    intro aligned
    exact asserted ⟨aligned, within⟩

theorem transfer_makes (form : ParsedForm info) (baseReg : BitVec 5) (offset : Nat) :
    (makeLoadOrStore { info with baseReg, offset }).isSome ↔
      info.size ∣ offset ∧ offset / info.size < 4096 := by
  have bits : (sizeAndOpc { info with baseReg, offset }).isSome ↔ info.size ∣ offset := by
    have sizes := form.size
    simp only [mem_cons, not_mem_nil, or_false] at sizes
    rw [Nat.dvd_iff_mod_eq_zero]
    unfold sizeAndOpc
    rcases sizes with size | size | size | size | size
    · simp [size, Nat.mod_one]
    · simp only [size]
      split_ifs <;> simp_all
    · have word := form.word size
      split_ifs <;> simp_all
    · have double := form.double size
      split_ifs <;> simp_all
    · have quad := form.quad size
      split_ifs <;> simp_all
  unfold makeLoadOrStore
  dsimp only
  cases found : sizeAndOpc { info with baseReg, offset } with
  | none =>
    rw [found] at bits
    simp [← bits]
  | some pair =>
    rw [found] at bits
    simp only [isSome_some, true_iff] at bits
    rw [bind_some]
    by_cases small : offset / info.size < 4096
    · rw [if_pos small]
      exact iff_of_true rfl ⟨bits, small⟩
    · rw [if_neg small]
      exact iff_of_false Bool.false_ne_true fun fits => small fits.2

def Asserts (result : Result) : Prop := result ≠ .error .assertion

theorem asserts_ok (edits : Edits) : Asserts (.ok edits) := nofun

theorem asserts_asserted (made : Option (BitVec 32)) (rest : BitVec 32 → Result)
    (each : ∀ word, Asserts (rest word) ↔ condition) :
    Asserts (asserted made rest) ↔ made.isSome ∧ condition := by
  cases made with
  | none => simp [asserted, Asserts]
  | some word => simp [asserted, each word]

theorem asserts_made (made : Option (BitVec 32)) (edits : BitVec 32 → Edits) :
    Asserts (asserted made fun word => .ok (edits word)) ↔ made.isSome := by
  have each (word : BitVec 32) : Asserts (.ok (edits word)) ↔ True :=
    iff_true_intro (asserts_ok (edits word))
  rw [asserts_asserted made _ each, and_true]

theorem asserts_guarded {guard meant : Prop} [Decidable guard] {result : Result}
    (each : guard → (Asserts result ↔ meant)) :
    Asserts (if guard then result else .ok []) ↔ (guard → meant) :=
  guarded_iff (asserts_ok []) each

section Kinds

variable {site : Site} {ldr : LoadStoreInfo}

section

variable (form : ParsedForm ldr)
include form

theorem makeLiteral_asserts (large : literalableSize ldr)
    (aligned : fourByteAligned (site.targetAt ldr.offset))
    (within : withinOneMeg site.infoC.instructionAddress (site.targetAt ldr.offset)) :
    Asserts (makeLiteral site ldr) ↔ LiteralMakes ldr site.infoC.instructionAddress := by
  rw [makeLiteral, asserts_made, literal_makes form]
  exact and_iff_left ⟨large, aligned, within⟩

theorem makeGotLiteral_asserts : Asserts (makeGotLiteral site ldr) ↔
      LiteralMakes ldr site.infoB.instructionAddress ∧ literalableSize ldr ∧
        fourByteAligned site.infoA.targetAddress ∧
        withinOneMeg site.infoB.instructionAddress site.infoA.targetAddress := by
  rw [makeGotLiteral, asserts_made, literal_makes form]

theorem moveOffset_asserts
    (within : withinOneMeg site.infoA.instructionAddress (site.targetAt ldr.offset)) :
    Asserts (moveOffset site ldr) ↔ fourByteAligned site.infoA.instructionAddress := by
  have access : (makeLoadOrStore { ldr with offset := 0 }).isSome :=
    (transfer_makes form ldr.baseReg 0).mpr ⟨Nat.dvd_zero _, by simp⟩
  rw [moveOffset, asserts_asserted _ _ fun adr => asserts_made _ _, adr_makes _ within]
  exact and_iff_left access

theorem keepOffset_asserts
    (within : withinOneMeg site.infoA.instructionAddress site.infoA.targetAddress) :
    Asserts (keepOffset site ldr) ↔ fourByteAligned site.infoA.instructionAddress := by
  have access : (makeLoadOrStore ldr).isSome :=
    (transfer_makes form ldr.baseReg ldr.offset).mpr ⟨form.whole, form.small⟩
  rw [keepOffset, asserts_asserted _ _ fun adr => asserts_made _ _, adr_makes _ within]
  exact and_iff_left access

theorem mergeAdd_asserts (baseReg : BitVec 5) {addend : Nat} (small : ldr.offset + addend < 4096) :
    Asserts (mergeAdd site { ldr with offset := ldr.offset + addend, baseReg }) ↔
      ldr.size ∣ addend := by
  rw [mergeAdd, asserts_made, transfer_makes form baseReg (ldr.offset + addend),
    Nat.dvd_add_right form.whole]
  exact and_iff_left (Nat.lt_of_le_of_lt (Nat.div_le_self _ _) small)

end

theorem adrpLdr_asserts (passed : adrpLdr site ≠ .error .ignored) :
    Asserts (adrpLdr site) ↔ Encodes site .adrpLdr := by
  unfold adrpLdr at passed ⊢
  refine start_elim passed fun fixups adrp parsedA passed => ?_
  simp only [Encodes, parsedA, some_inj, forall_eq']
  cases parsedB : parseLoadOrStore site.infoB.instruction with
  | none =>
    rw [parsedB] at passed
    refine lohAssert_elim passed fun _ _ => ?_
    simp [asserts_ok]
  | some ldr =>
    rw [parsedB] at passed
    dsimp only at passed ⊢
    refine lohAssert_elim passed fun _ _ => ?_
    simp only [some_inj, forall_eq', adrpLdrEncodes]
    refine asserts_guarded fun guard => ?_
    rw [asserts_made, literal_makes (parsed_form parsedB)]
    simp [guard]

theorem adrpAdd_asserts (passed : adrpAdd site ≠ .error .ignored) :
    Asserts (adrpAdd site) ↔ Encodes site .adrpAdd := by
  unfold adrpAdd at passed ⊢
  refine start_elim passed fun fixups adrp parsedA passed => ?_
  refine checked_elim passed fun add parsedB _ _ => ?_
  rw [withinOneMeg_comm]
  simp only [Encodes, parsedA, some_inj, forall_eq', adrpAddEncodes]
  exact asserts_guarded fun guard =>
    (asserts_made _ _).trans (adr_makes _ guard.2)

theorem addStr_asserts {add : AddInfo} (form : ParsedForm ldr) (small : add.addend < 4096)
    (baseReg : BitVec 5) :
    Asserts (if site.usableSegment ∧
          withinOneMeg site.infoA.instructionAddress (site.targetAt ldr.offset) then
        moveOffset site ldr
      else if site.infoB.targetAddress.toNat % ldr.size = 0 ∧ ldr.offset = 0 then
        mergeAdd site { ldr with offset := ldr.offset + add.addend, baseReg }
      else .ok []) ↔ adrpAddStrEncodes site add ldr := by
  exact branches_iff (P := Asserts) (fun guard => moveOffset_asserts form guard.2) fun _ =>
    asserts_guarded fun _ => mergeAdd_asserts form baseReg (by omega)

theorem adrpAddLdr_asserts (passed : adrpAddLdr site ≠ .error .ignored) :
    Asserts (adrpAddLdr site) ↔ Encodes site .adrpAddLdr := by
  unfold adrpAddLdr at passed ⊢
  refine start_elim passed fun fixups adrp parsedA passed => ?_
  refine checked_elim passed fun add parsedB _ passed => ?_
  refine checked_elim passed fun ldr parsedC _ _ => ?_
  simp only [Encodes, parsedA, parsedB, parsedC, some_inj, forall_eq', adrpAddLdrEncodes]
  have form := parsed_form parsedC
  exact branches_iff (P := Asserts)
    (fun guard => makeLiteral_asserts form guard.1 guard.2.2.1 guard.2.2.2)
    fun _ => addStr_asserts form (parsed_addend parsedB) adrp.destReg

theorem adrpAddStr_asserts (passed : adrpAddStr site ≠ .error .ignored) :
    Asserts (adrpAddStr site) ↔ Encodes site .adrpAddStr := by
  unfold adrpAddStr at passed ⊢
  refine start_elim passed fun fixups adrp parsedA passed => ?_
  refine checked_elim passed fun add parsedB _ passed => ?_
  refine checked_elim passed fun ldr parsedC _ passed => ?_
  refine lohAssert_elim passed fun _ _ => ?_
  simp only [Encodes, parsedA, parsedB, parsedC, some_inj, forall_eq']
  exact addStr_asserts (parsed_form parsedC) (parsed_addend parsedB) ldr.baseReg

theorem gotLoad_asserts {ldrB ldrC : LoadStoreInfo} (form : ParsedForm ldrB)
    (passed : gotLoad site ldrB ldrC ≠ .error .ignored) :
    Asserts (gotLoad site ldrB ldrC) ↔ gotLoadEncodes site ldrB ldrC := by
  unfold gotLoad at passed ⊢
  refine lohAssert_elim passed fun ⟨size, _, _⟩ _ => ?_
  have large : literalableSize ldrB := by
    unfold literalableSize
    omega
  refine asserts_guarded fun guard => ?_
  rw [makeGotLiteral_asserts form]
  simp [large]

theorem literal_offset (form : ParsedForm ldr) (large : literalableSize ldr) : 4 ∣ ldr.offset := by
  have sizes : ∀ size ∈ [1, 2, 4, 8, 16], size ≠ 1 → size ≠ 2 → 4 ∣ size := by decide
  exact (sizes _ form.size large.1 large.2).trans form.whole

theorem adrpLdrGotLdr_asserts (passed : adrpLdrGotLdr site ≠ .error .ignored) :
    Asserts (adrpLdrGotLdr site) ↔ Encodes site .adrpLdrGotLdr := by
  unfold adrpLdrGotLdr at passed ⊢
  refine start_elim passed fun fixups adrp parsedA passed => ?_
  refine lohParse_elim passed fun ldr parsedC passed => ?_
  simp only [Encodes, parsedA, parsedC, some_inj, forall_eq']
  have form := parsed_form parsedC
  refine got_iff (asserts_ok []) (fun ldrB parsedB passed =>
    gotLoad_asserts (parsed_form parsedB) passed) (fun add _ passed => ?_) rfl passed
  refine lohAssert_elim passed fun _ _ => ?_
  refine branches_iff (P := Asserts) (fun guard => ?_) fun _ =>
    branches_iff (P := Asserts) (fun guard => keepOffset_asserts form guard.2) fun _ =>
      asserts_guarded fun _ => mergeAdd_asserts form adrp.destReg (by omega)
  exact makeLiteral_asserts form guard.2.1
    (targetAt_of_multiple (literal_offset form guard.2.1) guard.2.2.1) guard.2.2.2

theorem adrpLdrGotStr_asserts (passed : adrpLdrGotStr site ≠ .error .ignored) :
    Asserts (adrpLdrGotStr site) ↔ Encodes site .adrpLdrGotStr := by
  unfold adrpLdrGotStr at passed ⊢
  refine start_elim passed fun fixups adrp parsedA passed => ?_
  refine checked_elim passed fun ldr parsedC _ passed => ?_
  simp only [Encodes, parsedA, parsedC, some_inj, forall_eq']
  have form := parsed_form parsedC
  refine got_iff (asserts_ok []) (fun ldrB parsedB passed =>
    gotLoad_asserts (parsed_form parsedB) passed) (fun add parsedB passed => ?_) rfl passed
  refine lohAssert_elim passed fun _ _ => ?_
  have small := parsed_addend parsedB
  exact branches_iff (P := Asserts) (fun guard => keepOffset_asserts form guard.2) fun _ =>
    asserts_guarded fun _ => mergeAdd_asserts form adrp.destReg (by omega)

theorem adrpLdrGot_asserts (passed : adrpLdrGot site ≠ .error .ignored) :
    Asserts (adrpLdrGot site) ↔ Encodes site .adrpLdrGot := by
  unfold adrpLdrGot at passed ⊢
  refine lohAssert_elim passed fun fixups passed => ?_
  cases parsedA : parseADRP site.infoA.instruction with
  | none => simp [Encodes, parsedA, asserts_ok]
  | some adrp =>
    rw [parsedA] at passed
    simp only [Encodes, parsedA, some_inj, forall_eq']
    refine got_iff (asserts_ok []) (fun ldr parsedB _ => ?_) (fun add _ _ => ?_) rfl passed
    · refine asserts_guarded fun guard => ?_
      rw [makeGotLiteral_asserts (parsed_form parsedB)]
      simp [guard]
    · exact asserts_guarded fun guard => (asserts_made _ _).trans (adr_makes _ guard.2)

end Kinds

/-- A hint that is not ignored runs into no assertion, if and only if the condition of its kind
holds. -/
theorem guards_suffice_iff (options : Options) (atom : Atom) (hint : Hint)
    (passed : applyHint options atom hint ≠ .error .ignored) :
    applyHint options atom hint ≠ .error .assertion ↔
      Encodes (siteOf options atom hint) hint.kind := by
  obtain ⟨kind, count, offsetInAtom, delta1, delta2, delta3⟩ := hint
  cases kind with
  | adrpLdr => exact adrpLdr_asserts passed
  | adrpAddLdr => exact adrpAddLdr_asserts passed
  | adrpLdrGotLdr => exact adrpLdrGotLdr_asserts passed
  | adrpAddStr => exact adrpAddStr_asserts passed
  | adrpLdrGotStr => exact adrpLdrGotStr_asserts passed
  | adrpAdd => exact adrpAdd_asserts passed
  | adrpLdrGot => exact adrpLdrGot_asserts passed

theorem near_load_encodes :
    applyHint executable nearLoad (threeInstructionsHint .adrpAddLdr) ≠ .error .ignored ∧
      applyHint executable nearLoad (threeInstructionsHint .adrpAddLdr) ≠ .error .assertion := by
  have passed : applyHint executable nearLoad (threeInstructionsHint .adrpAddLdr) ≠
      .error .ignored := by decide +kernel
  refine ⟨passed, (guards_suffice_iff _ _ _ passed).mpr ?_⟩
  intro adrp _ add _ ldr isLdr
  cases isLdr
  rw [adrpAddLdrEncodes, if_pos (by decide +kernel)]
  exact ⟨rfl, fun _ isFloat => absurd isFloat (by decide), by decide +kernel⟩

/-- `ldr x8, [x8]` of a GOT slot a megabyte and four bytes before it, then `ldr x0, [x8, #8]`. -/
def farSlot : Atom where
  finalAddress := 0x100100000#64
  segmentName := "__TEXT"
  content := fun offset =>
    if offset = 0 then 0x90FFF808#32 else if offset = 4 then 0xF9400108#32 else 0xF9400500#32
  usedByHints := fun offset =>
    if offset = 0 then some (pageFixup (.page21 .gotLoad) 0x100000000#64)
    else if offset = 4 then some (pageFixup (.pageOff12 .gotLoad) 0x100000000#64)
    else none

/-- `str x0, [x8, #16]` where the hint announces a load. -/
def storeForLoad : Atom :=
  threeInstructions 0x100004010#64 0x90000028#32 0xF9000900#32 0xD503201F#32

/-- The words are those of the fixups, the checks pass, and an assertion fails. -/
theorem guards_too_weak :
    (storePage21 0x90000008#32 0x100100000#64 0x100000000#64 = some 0x90FFF808#32 ∧
      storePageOff12 .gotLoad 0xF9400108#32 0x100000000#64 = some 0xF9400108#32 ∧
      applyHint executable farSlot (threeInstructionsHint .adrpLdrGotLdr) = .error .assertion) ∧
    (storePage21 0x90000008#32 0x100000000#64 0x100004010#64 = some 0x90000028#32 ∧
      storePageOff12 .pageOff 0xF9000100#32 0x100004010#64 = some 0xF9000900#32 ∧
      applyHint executable storeForLoad
        { kind := .adrpLdr, count := 1#2, offsetInAtom := 0, delta1 := 0#14, delta2 := 1#14,
          delta3 := 0#14 } = .error .assertion) := by
  decide +kernel

end DeveloperTools.Ld64.OptimizationHints
