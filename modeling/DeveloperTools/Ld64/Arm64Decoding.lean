import DeveloperTools.Ld64.Arm64Instructions

/-!
What the linker parses is what the processor decodes, what it makes decodes to
what it meant, and a word that holds a page or page offset fixup forms the target's
page or offset.
-/

namespace DeveloperTools.Ld64.Arm64Instructions

open BitFields Aarch64
open Option BitVec

def SignExtension.meaning : SignExtension → Extension
  | .signedNot => .zero
  | .signed32 => .signed32
  | .signed64 => .signed64

def LoadStoreInfo.shape (info : LoadStoreInfo) : Transfer :=
  { size := info.size, isStore := info.isStore, isFloat := info.isFloat
    extension := info.signEx.meaning, reg := info.reg }

structure LoadStoreInfo.Encodable (info : LoadStoreInfo) : Prop where
  exists_ : ∃ size vector opc, transferShape size vector opc info.reg = some info.shape
  scaled : ∃ immediate : BitVec 12, info.offset = immediate.toNat * info.size

variable {word : BitVec 32}

theorem parsed_adrp {info : AdrpInfo} (parsed : parseADRP word = some info) :
    decode word = some (.adrp info.destReg (immediate21 word)) := by
  unfold parseADRP at parsed
  split at parsed
  · cases parsed
  next masked =>
    cases parsed
    exact decode_of_adrp_class word (not_ne_iff.mp masked)

theorem immediate12_toNat (word : BitVec 32) :
    (word >>> 10 &&& 0xFFF#32).toNat = (word.extractLsb' 10 12).toNat := by
  exact Nat.and_two_pow_sub_one_eq_mod _ 12

theorem parsed_add {info : AddInfo} (parsed : parseADD word = some info) :
    decode word = some (.add info.destReg info.srcReg (BitVec.ofNat 12 info.addend)) ∧
      info.addend = (word.extractLsb' 10 12).toNat := by
  unfold parseADD at parsed
  split at parsed
  · cases parsed
  rename_i masked
  cases parsed
  rw [decode_of_add_class word (not_ne_iff.mp masked), immediate12_toNat, ofNat_toNat, setWidth_eq]
  exact ⟨rfl, rfl⟩

theorem size_opc_bits (word : BitVec 32) : word &&& 0xC0C00000#32 =
      placed 32 30 (word.extractLsb' 30 2) ||| placed 32 22 (word.extractLsb' 22 2) := by
  have mask : 0xC0C00000#32 =
      placed 32 30 (BitVec.allOnes 2) ||| placed 32 22 (BitVec.allOnes 2) := by decide
  rw [mask, and_or_distrib_left, and_ones, and_ones]

theorem vector_bit (word : BitVec 32) :
    word &&& 0x04000000#32 = placed 32 26 (word.extractLsb' 26 1) := by
  have mask : 0x04000000#32 = placed 32 26 (BitVec.allOnes 1) := by decide
  rw [mask, and_ones]

/-- The table of the parser is that of the instruction set, but for the sign extending loads
of a vector register, which do not exist. -/
theorem transferShape_table : ∀ (size opc : BitVec 2) (vector : BitVec 1) (reg : BitVec 5),
    transferShape size vector opc reg =
      (loadStoreKind (placed 32 26 vector ≠ 0#32)
        (placed 32 30 size ||| placed 32 22 opc)).bind fun (bytes, isStore, signEx) =>
          if vector = 1#1 ∧ signEx ≠ .signedNot then none
          else some ⟨bytes, isStore, vector = 1#1, signEx.meaning, reg⟩ := by
  decide +kernel

theorem vector_placed : ∀ vector : BitVec 1,
    decide (placed 32 26 vector ≠ 0#32) = decide (vector = 1#1) := by
  decide

variable {info : LoadStoreInfo}

theorem parsed_transfer (parsed : parseLoadOrStore word = some info) (valid : decode word ≠ none) :
    decode word = some (.transfer info.shape info.baseReg info.offset) ∧ info.Encodable ∧
      info.offset = (word.extractLsb' 10 12).toNat * info.size := by
  unfold parseLoadOrStore at parsed
  split at parsed
  · cases parsed
  rename_i masked
  have decoded := decode_of_transfer_class word (not_ne_iff.mp masked)
  obtain ⟨⟨bytes, isStore, signEx⟩, kind, made⟩ := map_eq_some_iff.mp parsed
  rw [size_opc_bits, vector_bit] at kind
  have shaped := transferShape_table (word.extractLsb' 30 2) (word.extractLsb' 22 2)
    (word.extractLsb' 26 1) (word.extractLsb' 0 5)
  rw [kind, bind_some] at shaped
  dsimp only at shaped made
  rw [vector_bit, vector_placed, immediate12_toNat] at made
  split at shaped
  · rw [shaped] at decoded
    exact absurd decoded valid
  subst made
  rw [shaped] at decoded
  exact ⟨decoded, ⟨⟨_, _, _, shaped⟩, ⟨_, rfl⟩⟩, rfl⟩

theorem placed_zero (value : BitVec 5) : placed 32 0 value = value.setWidth 32 := by
  rw [placed, shiftLeft_zero]

theorem two_bits : ∀ bits : BitVec 2, bits = 0#2 ∨ bits = 1#2 ∨ bits = 2#2 ∨ bits = 3#2 := by
  decide

theorem one_bit : ∀ bit : BitVec 1, bit = 0#1 ∨ bit = 1#1 := by
  decide

theorem sizeAndOpc_encodable (info : LoadStoreInfo) (size opc : BitVec 2) (vector : BitVec 1)
    (shape : transferShape size vector opc info.reg = some info.shape)
    (scaled : info.offset % info.size = 0) :
    sizeAndOpc info = some (size.setWidth 32, opc.setWidth 32) ∧
      (if info.isFloat then 0x04000000#32 else 0#32) = placed 32 26 vector := by
  obtain ⟨reg, baseReg, offset, bytes, isStore, isFloat, signEx⟩ := info
  rcases one_bit vector with rfl | rfl <;> rcases two_bits opc with rfl | rfl | rfl | rfl <;>
    rcases two_bits size with rfl | rfl | rfl | rfl <;>
    simp [transferShape, LoadStoreInfo.shape] at shape <;>
    obtain ⟨rfl, rfl, rfl, extension⟩ := shape <;>
    cases signEx <;>
    simp_all [sizeAndOpc, loadOpc, placed, SignExtension.meaning]

theorem within_bounds {addr1 addr2 : BitVec 64} (within : withinOneMeg addr1 addr2) :
    -2 ^ 20 ≤ (addr2 - addr1).toInt ∧ (addr2 - addr1).toInt < 2 ^ 20 := by
  have bounds := of_decide_eq_true within
  omega

theorem makeADR_eq (destReg : BitVec 5) (target address : BitVec 64) :
    makeADR destReg target address =
      if address &&& 0x3#64 = 0#64 ∧ withinOneMeg address target then
        some (adrWord destReg ((target - address).setWidth 21))
      else none := by
  have immhi (delta : BitVec 64) : ((delta &&& 0x001FFFFC#64) <<< 3).setWidth 32 =
      placed 32 5 ((delta.setWidth 21).extractLsb' 2 19) := by
    rw [show (0x001FFFFC#64) = placed 64 2 (BitVec.allOnes 19) by decide, and_ones, placed_shift,
      placed_narrow _ _ _ (by decide), extractLsb'_setWidth_of_le (by decide)]
  have immlo (delta : BitVec 64) : ((delta &&& 0x00000003#64) <<< 29).setWidth 32 =
      placed 32 29 ((delta.setWidth 21).extractLsb' 0 2) := by
    rw [show (0x00000003#64) = placed 64 0 (BitVec.allOnes 2) by decide, and_ones, placed_shift,
      placed_narrow _ _ _ (by decide), extractLsb'_setWidth_of_le (by decide)]
  unfold makeADR
  dsimp only
  rw [immhi, immlo, adrWord, placed_zero]

variable {address target : BitVec 64}

theorem adr_value (within : withinOneMeg address target) :
    address + ((target - address).setWidth 21).signExtend 64 = target := by
  obtain ⟨low, high⟩ := within_bounds within
  have extended := signExtend_extract (n := 20) (target - address) 0 (by decide) low high
  rw [sshiftRight_zero, ← setWidth_eq_extractLsb' (by decide)] at extended
  rw [extended, BitVec.add_comm, BitVec.sub_add_cancel]

theorem low_bits_of_mask (aligned : address &&& 0x3#64 = 0#64) : address.extractLsb' 0 2 = 0#2 := by
  have mask : (0x3#64).extractLsb' 0 2 = BitVec.allOnes 2 := by decide
  have field := congrArg (BitVec.extractLsb' 0 2) aligned
  rw [extractLsb'_and, mask, and_allOnes] at field
  simpa using field

theorem literal_value (within : withinOneMeg address target)
    (targetAligned : target &&& 0x3#64 = 0#64) (addressAligned : address &&& 0x3#64 = 0#64) :
    address + ((target - address).extractLsb' 2 19).signExtend 64 <<< 2 = target := by
  obtain ⟨low, high⟩ := within_bounds within
  have extended := signExtend_extract (n := 18) (target - address) 2 (by decide) low high
  have clear := sub_low_clear target address (by decide) (low_bits_of_mask targetAligned)
    (low_bits_of_mask addressAligned)
  rw [extended, sshiftRight_shiftLeft _ _ clear, BitVec.add_comm, BitVec.sub_add_cancel]

def LoadStoreInfo.literalOpc (info : LoadStoreInfo) : BitVec 2 :=
  if info.size = 4 then if info.signEx = .signed64 then 2#2 else 0#2
  else if info.size = 8 then 1#2
  else 2#2

section

variable (encodable : info.Encodable)
include encodable

theorem LoadStoreInfo.Encodable.size_mem : info.size ∈ [1, 2, 4, 8, 16] := by
  obtain ⟨size, vector, opc, shape⟩ := encodable.exists_
  exact transferShape_size size vector opc info.reg info.shape shape

theorem LoadStoreInfo.Encodable.size_pos : 0 < info.size := by
  have sizes : ∀ size ∈ [1, 2, 4, 8, 16], 0 < size := by decide
  exact sizes _ encodable.size_mem

theorem made_loadOrStore : ∃ word, makeLoadOrStore info = some word ∧
      decode word = some (.transfer info.shape info.baseReg info.offset) := by
  have positive := encodable.size_pos
  obtain ⟨⟨size, vector, opc, shape⟩, ⟨immediate, scaled⟩⟩ := encodable
  have whole : info.offset % info.size = 0 := by
    rw [scaled]
    exact Nat.mul_mod_left _ _
  have quotient : info.offset / info.size = immediate.toNat := by
    rw [scaled]
    exact Nat.mul_div_left _ positive
  obtain ⟨bits, float⟩ := sizeAndOpc_encodable info size opc vector shape whole
  have small : immediate.toNat < 4096 := immediate.isLt
  refine ⟨transferWord size vector opc immediate info.baseReg info.reg, ?_, ?_⟩
  · rw [makeLoadOrStore, bits, bind_some, quotient, float]
    dsimp only
    rw [if_pos small, ofNat_toNat, ← placed_zero]
    rfl
  · rw [decode_transferWord, shape, scaled]
    rfl

theorem literalOpcode_encodable (load : info.isStore = false)
    (large : info.size ≠ 1 ∧ info.size ≠ 2) :
    ∃ vector, literalShape info.literalOpc vector info.reg = some info.shape ∧
      literalOpcode info =
        some (0x18000000#32 ||| placed 32 30 info.literalOpc ||| placed 32 26 vector) := by
  obtain ⟨size, vector, opc, shape⟩ := encodable.exists_
  refine ⟨vector, ?_⟩
  obtain ⟨reg, baseReg, offset, bytes, isStore, isFloat, signEx⟩ := info
  rcases one_bit vector with rfl | rfl <;> rcases two_bits opc with rfl | rfl | rfl | rfl <;>
    rcases two_bits size with rfl | rfl | rfl | rfl <;>
    simp [transferShape, LoadStoreInfo.shape] at shape load large <;>
    obtain ⟨rfl, rfl, rfl, extension⟩ := shape <;>
    cases signEx <;>
    simp_all [SignExtension.meaning, literalShape, literalOpcode, LoadStoreInfo.literalOpc,
      LoadStoreInfo.shape, placed]

theorem made_literal (within : withinOneMeg address target)
    (targetAligned : target &&& 0x3#64 = 0#64) (addressAligned : address &&& 0x3#64 = 0#64)
    (load : info.isStore = false) (large : info.size ≠ 1 ∧ info.size ≠ 2) :
    ∃ word, makeLDRLiteral info target address = some word ∧
      decode word = some (.literal info.shape ((target - address).extractLsb' 2 19)) := by
  obtain ⟨vector, shape, opcode⟩ := literalOpcode_encodable encodable load large
  have imm19 (delta : BitVec 64) : (delta <<< 3 &&& 0x00FFFFE0#64).setWidth 32 =
      placed 32 5 (delta.extractLsb' 2 19) := by
    have field : (delta <<< 3).extractLsb' 5 19 = delta.extractLsb' 2 19 := by
      apply eq_of_getLsbD_eq
      intro i bound
      rw [getLsbD_extractLsb', getLsbD_extractLsb', getLsbD_shiftLeft]
      have inside : 5 + i < 64 := by omega
      have start : ¬ 5 + i < 3 := by omega
      have moved : 5 + i - 3 = 2 + i := by omega
      simp [inside, start, moved]
    rw [show (0x00FFFFE0#64) = placed 64 5 (BitVec.allOnes 19) by decide, and_ones,
      placed_narrow _ _ _ (by decide), field]
  refine ⟨literalWord info.literalOpc vector ((target - address).extractLsb' 2 19) info.reg, ?_, ?_⟩
  · unfold makeLDRLiteral
    rw [if_pos ⟨within, targetAligned, addressAligned, by simp [load]⟩, opcode, imm19,
      map_some, literalWord, placed_zero]
  · rw [decode_literalWord, shape, map_some]

end

theorem makeLDRLiteral_some (made : makeLDRLiteral info target address = some word) :
    withinOneMeg address target ∧ target &&& 0x3#64 = 0#64 ∧ address &&& 0x3#64 = 0#64 ∧
      info.isStore = false ∧ info.size ≠ 1 ∧ info.size ≠ 2 := by
  unfold makeLDRLiteral at made
  split at made
  next asserted =>
    obtain ⟨within, targetAligned, addressAligned, load⟩ := asserted
    refine ⟨within, targetAligned, addressAligned, by simpa using load, ?_, ?_⟩
    · intro one
      simp [literalOpcode, one] at made
    · intro two
      simp [literalOpcode, two] at made
  · cases made

theorem pageOf_clear (address : BitVec 64) : (pageOf address).extractLsb' 0 12 = 0#12 :=
  extract_and_mask _ _ _ (by decide)

variable {raw : BitVec 32}

section

variable (stored : storePage21 raw address target = some word)
include stored

theorem page_word : word = raw &&& 0x9F00001F#32 |||
      placed 32 29 ((pageOf target - pageOf address).extractLsb' 12 2) |||
      placed 32 5 ((pageOf target - pageOf address).extractLsb' 14 19) := by
  have immhi (delta : BitVec 64) : (delta.sshiftRight 9 &&& 0x00FFFFE0#64).setWidth 32 =
      placed 32 5 (delta.extractLsb' 14 19) := by
    have field : (delta.sshiftRight 9).extractLsb' 5 19 = delta.extractLsb' 14 19 := by
      apply eq_of_getLsbD_eq
      intro i bound
      rw [getLsbD_extractLsb', getLsbD_extractLsb', getLsbD_sshiftRight]
      have inside : ¬ 64 ≤ 5 + i := by omega
      have moved : 9 + (5 + i) = 14 + i := by omega
      have within : 14 + i < 64 := by omega
      simp [inside, moved, within]
    rw [show (0x00FFFFE0#64) = placed 64 5 (BitVec.allOnes 19) by decide, and_ones,
      placed_narrow _ _ _ (by decide), field]
  have immlo (delta : BitVec 64) : (delta <<< 17 &&& 0x60000000#64).setWidth 32 =
      placed 32 29 (delta.extractLsb' 12 2) := by
    have field : (delta <<< 17).extractLsb' 29 2 = delta.extractLsb' 12 2 := by
      apply eq_of_getLsbD_eq
      intro i bound
      rw [getLsbD_extractLsb', getLsbD_extractLsb', getLsbD_shiftLeft]
      have inside : 29 + i < 64 := by omega
      have start : ¬ 29 + i < 17 := by omega
      have moved : 29 + i - 17 = 12 + i := by omega
      simp [inside, start, moved]
    rw [show (0x60000000#64) = placed 64 29 (BitVec.allOnes 2) by decide, and_ones,
      placed_narrow _ _ _ (by decide), field]
  unfold storePage21 at stored
  dsimp only at stored
  split at stored
  · cases stored
    rw [immhi, immlo]
  · cases stored

theorem page_immediate : immediate21 word = (pageOf target - pageOf address).extractLsb' 12 21 := by
  rw [page_word stored, immediate21]
  simp (disch := decide) only [extractLsb'_or, extract_and_mask, extract_placed,
    extract_placed_elsewhere, zero_or, or_zero]
  exact extract_append_extract _ 12

/-- The ADRP forms the page of its target, but for a target exactly 4GB away, which passes the
range check and does not fit the immediate. -/
theorem page_value (near : (pageOf target - pageOf address).toInt ≠ 2 ^ 32) :
    pageOf address + (immediate21 word).signExtend 64 <<< 12 = pageOf target := by
  have checked : rangeCheckARM64Page21 (pageOf target - pageOf address) := by
    unfold storePage21 at stored
    dsimp only at stored
    split at stored
    · assumption
    · cases stored
  have bounds := of_decide_eq_true checked
  have extended := signExtend_extract (n := 20) (pageOf target - pageOf address) 12 (by decide)
    (by omega) (by omega)
  have clear := sub_low_clear (pageOf target) (pageOf address) (by decide)
    (pageOf_clear target) (pageOf_clear address)
  rw [page_immediate stored, extended, sshiftRight_shiftLeft _ _ clear, BitVec.add_comm,
    BitVec.sub_add_cancel]

end

theorem pageOffset_toNat (target : BitVec 64) :
    (pageOffset target).toNat = target.toNat % 4096 := by
  exact Nat.and_two_pow_sub_one_eq_mod target.toNat 12

theorem pageOffset_lt (target : BitVec 64) : (pageOffset target).toNat < 4096 := by
  rw [pageOffset_toNat]
  exact Nat.mod_lt _ (by decide)

section

variable (stored : storeOffset12 raw target = some word)
include stored

theorem storeOffset12_word :
    ∃ shift, implicitShift raw ((pageOffset target).setWidth 32) = some shift ∧
      word = raw &&& 0xFFC003FF#32 |||
        placed 32 10 (BitVec.ofNat 12 ((pageOffset target).toNat / 2 ^ shift)) := by
  unfold storeOffset12 at stored
  obtain ⟨shift, found, made⟩ := map_eq_some_iff.mp stored
  refine ⟨shift, found, ?_⟩
  have small := pageOffset_lt target
  have smaller : (pageOffset target).toNat / 2 ^ shift < 4096 :=
    Nat.lt_of_le_of_lt (Nat.div_le_self _ _) small
  have field : ((pageOffset target).setWidth 32 >>> shift : BitVec 32) =
      (BitVec.ofNat 12 ((pageOffset target).toNat / 2 ^ shift)).setWidth 32 := by
    apply eq_of_toNat_eq
    rw [toNat_ushiftRight, toNat_setWidth, toNat_setWidth, toNat_ofNat, Nat.shiftRight_eq_div_pow,
      Nat.mod_eq_of_lt (Nat.lt_trans small (by decide)), Nat.mod_eq_of_lt smaller,
      Nat.mod_eq_of_lt (Nat.lt_trans smaller (by decide))]
  rw [← made, placed, field]

theorem storeOffset12_kept {mask : BitVec 32}
    (clear : mask.extractLsb' 10 12 = 0#12) (outside : 0xFFC003FF#32 &&& mask = mask) :
    word &&& mask = raw &&& mask := by
  obtain ⟨shift, _, made⟩ := storeOffset12_word stored
  rw [made, and_or_distrib_right, placed_and_mask _ _ _ clear, BitVec.and_assoc, outside, or_zero]

theorem storeOffset12_field {shift : Nat}
    (found : implicitShift raw ((pageOffset target).setWidth 32) = some shift) :
    (word.extractLsb' 10 12).toNat = (pageOffset target).toNat / 2 ^ shift := by
  obtain ⟨other, foundOther, made⟩ := storeOffset12_word stored
  rw [found] at foundOther
  cases foundOther
  have small := pageOffset_lt target
  have smaller : (pageOffset target).toNat / 2 ^ shift < 4096 :=
    Nat.lt_of_le_of_lt (Nat.div_le_self _ _) small
  rw [made]
  simp (disch := decide) only [extractLsb'_or, extract_and_mask, extract_placed, zero_or]
  exact Nat.mod_eq_of_lt smaller

end

theorem loadStoreKind_scale : ∀ (size opc : BitVec 2) (vector : BitVec 1),
    ∀ kind ∈ loadStoreKind (placed 32 26 vector ≠ 0#32) (placed 32 30 size ||| placed 32 22 opc),
      kind.1 = 2 ^ (if size = 0#2 then
        if (placed 32 26 vector ||| placed 32 22 opc) &&& 0x04800000#32 = 0x04800000#32 then 4
        else 0
      else size.toNat) := by
  decide +kernel

theorem size_bits (word : BitVec 32) :
    word >>> 30 &&& 0x3#32 = (word.extractLsb' 30 2).setWidth 32 := by
  apply eq_of_toNat_eq
  rw [toNat_and, toNat_ushiftRight, toNat_setWidth, extractLsb'_toNat]
  have masked := Nat.and_two_pow_sub_one_eq_mod (word.toNat >>> 30) 2
  have small := Nat.mod_lt (word.toNat >>> 30) (show 0 < 2 ^ 2 by decide)
  rw [Nat.mod_eq_of_lt (Nat.lt_trans small (by decide))]
  exact masked

theorem vector_opc_bits (word : BitVec 32) : word &&& 0x04800000#32 =
      (placed 32 26 (word.extractLsb' 26 1) ||| placed 32 22 (word.extractLsb' 22 2)) &&&
        0x04800000#32 := by
  rw [← and_ones, ← and_ones, ← and_or_distrib_left, BitVec.and_assoc]
  congr 1

theorem masked_zero_dvd {offset : BitVec 32} (shift : Nat) {mask : BitVec 32}
    (ones : mask.toNat = 2 ^ shift - 1) (clear : offset &&& mask = 0#32) :
    2 ^ shift ∣ offset.toNat := by
  have value := congrArg BitVec.toNat clear
  rw [toNat_and, ones, Nat.and_two_pow_sub_one_eq_mod] at value
  exact Nat.dvd_of_mod_eq_zero value

theorem add_class {info : AddInfo} (parsed : parseADD word = some info) :
    word &&& 0xFFC00000#32 = 0x91000000#32 := by
  unfold parseADD at parsed
  split at parsed
  · cases parsed
  next masked =>
    exact not_ne_iff.mp masked

section

variable (parsed : parseLoadOrStore word = some info)
include parsed

theorem implicitShift_transfer {offset : BitVec 32} {shift : Nat}
    (found : implicitShift word offset = some shift) :
    info.size = 2 ^ shift ∧ 2 ^ shift ∣ offset.toNat := by
  unfold parseLoadOrStore at parsed
  split at parsed
  · cases parsed
  rename_i masked
  have scaled : word &&& 0x08000000#32 ≠ 0#32 := masked_ne (not_ne_iff.mp masked) (by decide)
  obtain ⟨⟨bytes, isStore, signEx⟩, kind, made⟩ := map_eq_some_iff.mp parsed
  rw [size_opc_bits, vector_bit] at kind
  have size := loadStoreKind_scale _ _ _ _ kind
  have bytesEq : info.size = bytes := by rw [← made]
  rw [bytesEq]
  unfold implicitShift at found
  rw [if_pos scaled, size_bits, vector_opc_bits] at found
  generalize word.extractLsb' 30 2 = sizeBits at size found
  generalize (placed 32 26 (word.extractLsb' 26 1) ||| placed 32 22 (word.extractLsb' 22 2)) &&&
    0x04800000#32 = wide at size found
  rcases two_bits sizeBits with rfl | rfl | rfl | rfl
  · by_cases vector : wide = 0x04800000#32
    · simp [vector] at size found
      obtain ⟨clear, rfl⟩ := found
      exact ⟨size, masked_zero_dvd 4 (by decide) clear⟩
    · simp [vector] at size found
      subst found
      exact ⟨size, Nat.one_dvd _⟩
  · simp at size found
    obtain ⟨clear, rfl⟩ := found
    exact ⟨size, masked_zero_dvd 1 (by decide) clear⟩
  · simp at size found
    obtain ⟨clear, rfl⟩ := found
    exact ⟨size, masked_zero_dvd 2 (by decide) clear⟩
  · simp at size found
    obtain ⟨clear, rfl⟩ := found
    exact ⟨size, masked_zero_dvd 3 (by decide) clear⟩

theorem parsed_offset : info.offset = (word.extractLsb' 10 12).toNat * info.size := by
  unfold parseLoadOrStore at parsed
  split at parsed
  · cases parsed
  · obtain ⟨kind, _, made⟩ := map_eq_some_iff.mp parsed
    rw [← made, immediate12_toNat]

theorem transfer_class : word &&& 0x3B000000#32 = 0x39000000#32 := by
  unfold parseLoadOrStore at parsed
  split at parsed
  · cases parsed
  next masked =>
    exact not_ne_iff.mp masked

theorem add_not_transfer : parseADD word = none := by
  cases parsedAdd : parseADD word with
  | none => rfl
  | some add =>
    exact absurd (add_class parsedAdd) (masked_ne (transfer_class parsed) (by decide))

end

theorem storeOffset12_transfer (stored : storeOffset12 raw target = some word)
    (parsed : parseLoadOrStore word = some info) : info.offset = (pageOffset target).toNat := by
  obtain ⟨shift, found, made⟩ := storeOffset12_word stored
  have field := storeOffset12_field stored found
  have sizeKept : word.extractLsb' 30 2 = raw.extractLsb' 30 2 := by
    have mask : (0xFFC003FF#32).extractLsb' 30 2 = BitVec.allOnes 2 := by decide
    rw [made, extractLsb'_or, extractLsb'_and, mask, and_allOnes,
      extract_placed_elsewhere _ _ _ (by decide), or_zero]
  have kept (offset : BitVec 32) : implicitShift word offset = implicitShift raw offset := by
    unfold implicitShift
    rw [storeOffset12_kept stored (by decide) (by decide),
      storeOffset12_kept stored (by decide) (by decide), size_bits, size_bits, sizeKept]
  rw [← kept] at found
  obtain ⟨size, whole⟩ := implicitShift_transfer parsed found
  have small := pageOffset_lt target
  rw [toNat_setWidth, Nat.mod_eq_of_lt (Nat.lt_trans small (by decide))] at whole
  rw [parsed_offset parsed, field, size, Nat.div_mul_cancel whole]

theorem storeOffset12_add {info : AddInfo} (stored : storeOffset12 raw target = some word)
    (parsed : parseADD word = some info) : info.addend = (pageOffset target).toNat := by
  have unscaled : raw &&& 0x08000000#32 = 0#32 := by
    rw [← storeOffset12_kept stored (by decide) (by decide)]
    have masked := congrArg (· &&& 0x08000000#32) (add_class parsed)
    simpa [BitVec.and_assoc] using masked
  have found : implicitShift raw ((pageOffset target).setWidth 32) = some 0 := by
    unfold implicitShift
    rw [if_neg (not_ne_iff.mpr unscaled)]
  rw [(parsed_add parsed).2, storeOffset12_field stored found, Nat.pow_zero, Nat.div_one]

theorem storeLea12_add (stored : storeLea12 raw target = some word) :
    word &&& 0xFFC00000#32 = 0x91000000#32 ∧
      (word.extractLsb' 10 12).toNat = (pageOffset target).toNat := by
  unfold storeLea12 at stored
  split at stored
  · cases stored
  have small := pageOffset_lt target
  have field : ((pageOffset target).setWidth 32 : BitVec 32) <<< 10 =
      placed 32 10 (BitVec.ofNat 12 (pageOffset target).toNat) := by
    congr 1
    apply eq_of_toNat_eq
    rw [toNat_setWidth, toNat_setWidth, toNat_ofNat, Nat.mod_eq_of_lt small]
  cases stored
  rw [field]
  constructor
  · simp (disch := decide) only [and_or_distrib_right, placed_and_mask]
    rw [BitVec.and_assoc]
    simp
  · simp (disch := decide) only [extractLsb'_or, extract_and_mask, extract_placed, or_zero]
    rw [toNat_or, toNat_ofNat, Nat.mod_eq_of_lt small]
    simp

theorem converted_load {made : BitVec 32} (stored : convertAddToLoad word = some made) :
    ∃ (add : AddInfo) (info : LoadStoreInfo), parseADD word = some add ∧
      info.offset = add.addend ∧
      decode made = some (.transfer info.shape info.baseReg info.offset) := by
  obtain ⟨add, parsed, load⟩ := bind_eq_some_iff.mp stored
  have whole : add.addend % 8 = 0 := by
    by_contra rest
    simp [makeLoadOrStore, sizeAndOpc, rest] at load
  have small : add.addend / 8 < 4096 := by
    by_contra large
    simp [makeLoadOrStore, sizeAndOpc, whole, large] at load
  have encodable : LoadStoreInfo.Encodable
      { reg := add.destReg, baseReg := add.srcReg, offset := add.addend
        size := 8, isStore := false, isFloat := false, signEx := .signedNot } := by
    refine ⟨⟨3#2, 0#1, 1#2, rfl⟩, ⟨BitVec.ofNat 12 (add.addend / 8), ?_⟩⟩
    rw [toNat_ofNat, Nat.mod_eq_of_lt small]
    exact (Nat.div_mul_cancel (Nat.dvd_of_mod_eq_zero whole)).symm
  obtain ⟨other, again, decoded⟩ := made_loadOrStore encodable
  rw [load] at again
  cases again
  exact ⟨add, _, parsed, rfl, decoded⟩

theorem decode_cleared (parsed : parseLoadOrStore word = some info) (valid : decode word ≠ none) :
    decode (word &&& 0xFFC003FF#32) = some (.transfer info.shape info.baseReg 0) := by
  have inClass := transfer_class parsed
  have masked : word &&& 0xFFC003FF#32 &&& 0x3B000000#32 = 0x39000000#32 := by
    rw [BitVec.and_assoc]
    exact inClass
  have decoded := (parsed_transfer parsed valid).1
  rw [decode_of_transfer_class _ inClass] at decoded
  obtain ⟨shape, found, made⟩ := map_eq_some_iff.mp decoded
  rw [Instruction.transfer.injEq] at made
  have kept (start length : Nat)
      (ones : (0xFFC003FF#32).extractLsb' start length = BitVec.allOnes length) :
      (word &&& 0xFFC003FF#32).extractLsb' start length = word.extractLsb' start length := by
    rw [extractLsb'_and, ones, and_allOnes]
  rw [decode_of_transfer_class _ masked, kept 30 2 (by decide), kept 26 1 (by decide),
    kept 22 2 (by decide), kept 0 5 (by decide), kept 5 5 (by decide), found, map_some,
    extract_and_mask _ _ _ (by decide), made.1, made.2.1]
  simp

theorem LoadStoreInfo.Encodable.size_dvd (encodable : info.Encodable) : info.size ∣ 4096 := by
  have sizes : ∀ size ∈ [1, 2, 4, 8, 16], size ∣ 4096 := by decide
  exact sizes _ encodable.size_mem

theorem encodable_offset (encodable : info.Encodable) (baseReg : BitVec 5) (offset : Nat)
    (whole : offset % info.size = 0) (small : offset < 4096) :
    LoadStoreInfo.Encodable { info with baseReg, offset } := by
  have quotient : offset / info.size < 4096 := Nat.lt_of_le_of_lt (Nat.div_le_self _ _) small
  refine ⟨encodable.exists_, ⟨BitVec.ofNat 12 (offset / info.size), ?_⟩⟩
  rw [toNat_ofNat, Nat.mod_eq_of_lt quotient]
  exact (Nat.div_mul_cancel (Nat.dvd_of_mod_eq_zero whole)).symm

theorem LoadStoreInfo.Encodable.offset_lt (encodable : info.Encodable) : info.offset < 2 ^ 16 := by
  obtain ⟨immediate, scaled⟩ := encodable.scaled
  have sizes : ∀ size ∈ [1, 2, 4, 8, 16], size ≤ 16 := by decide
  have size := sizes _ encodable.size_mem
  calc
    info.offset = immediate.toNat * info.size := scaled
    _ ≤ 4095 * 16 := Nat.mul_le_mul (by omega) size
    _ < 2 ^ 16 := by decide

end DeveloperTools.Ld64.Arm64Instructions
