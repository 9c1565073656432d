import DeveloperTools.Ld64.OptimizationHints

/-!
What the checks of a hint say about the words it finds, how far apart its
instructions and its target are, and which machines tell two ways of forming an
address apart.
-/

namespace DeveloperTools.Ld64.OptimizationHints

open Aarch64 Arm64Instructions
open BitVec

/-- The word is the one its fixup stored, unless an earlier hint has replaced it. -/
def InstructionInfo.Holds (info : InstructionInfo) : Prop :=
  ∀ fixup, info.fixup = some fixup →
    match fixup.store with
    | .page21 _ =>
      parseADRP info.instruction = none ∨
        ∃ raw, storePage21 raw info.instructionAddress fixup.targetAddress = some info.instruction
    | .pageOff12 kind =>
      parseADD info.instruction = none ∧ parseLoadOrStore info.instruction = none ∨
        ∃ raw, storePageOff12 kind raw fixup.targetAddress = some info.instruction
    | .other => True

structure Site.Ready (site : Site) : Prop where
  holds : ∀ info ∈ site.instructions, info.Holds
  valid : ∀ info ∈ site.instructions, decode info.instruction ≠ none

theorem page_and_offset (address : BitVec 64) : pageOf address + pageOffset address = address := by
  have disjoint : pageOf address &&& pageOffset address = 0#64 := by
    unfold pageOf pageOffset
    rw [BitVec.and_assoc, ← BitVec.and_assoc (~~~0xFFF#64), BitVec.and_comm (~~~0xFFF#64),
      BitVec.and_assoc, show ~~~0xFFF#64 &&& 0xFFF#64 = 0#64 by decide]
    simp
  rw [add_eq_or_of_and_eq_zero _ _ disjoint]
  unfold pageOf pageOffset
  rw [← and_or_distrib_left, show ~~~0xFFF#64 ||| 0xFFF#64 = BitVec.allOnes 64 by decide,
    and_allOnes]

section

variable (left right : BitVec 64) (leftSmall : -2 ^ 62 ≤ left.toInt ∧ left.toInt < 2 ^ 62)
    (rightSmall : -2 ^ 62 ≤ right.toInt ∧ right.toInt < 2 ^ 62)

include left right leftSmall rightSmall

theorem toInt_add_small : (left + right).toInt = left.toInt + right.toInt := by
  rw [toInt_add]
  apply Int.bmod_eq_of_le_mul_two
  · omega
  · omega

theorem toInt_sub_small : (left - right).toInt = left.toInt - right.toInt := by
  rw [toInt_sub]
  apply Int.bmod_eq_of_le_mul_two
  · omega
  · omega

end

theorem toInt_of_small (value : BitVec 64) (small : value.toNat < 2 ^ 62) :
    value.toInt = value.toNat := by
  rw [toInt_eq_toNat_cond, if_pos (by omega)]

theorem page_near {target address : BitVec 64}
    (low : -2 ^ 40 ≤ (target - address).toInt) (high : (target - address).toInt < 2 ^ 31) :
    (pageOf target - pageOf address).toInt ≠ 2 ^ 32 := by
  have rearranged (page offset page' offset' : BitVec 64) :
      page - page' = (page + offset - (page' + offset')) + (offset' - offset) := by ring
  have apart := rearranged (pageOf target) (pageOffset target) (pageOf address) (pageOffset address)
  rw [page_and_offset, page_and_offset] at apart
  have targetOffset := pageOffset_lt target
  have addressOffset := pageOffset_lt address
  have targetInt := toInt_of_small (pageOffset target) (by omega)
  have addressInt := toInt_of_small (pageOffset address) (by omega)
  have offsets := toInt_sub_small (pageOffset address) (pageOffset target) (by omega) (by omega)
  have sum := toInt_add_small (target - address) (pageOffset address - pageOffset target)
    (by omega) (by omega)
  rw [apart, sum]
  omega

structure Site.Close (site : Site) : Prop where
  nearB : -2 ^ 16 < (site.infoB.instructionAddress - site.infoA.instructionAddress).toInt ∧
    (site.infoB.instructionAddress - site.infoA.instructionAddress).toInt < 2 ^ 16
  nearC : -2 ^ 16 < (site.infoC.instructionAddress - site.infoA.instructionAddress).toInt ∧
    (site.infoC.instructionAddress - site.infoA.instructionAddress).toInt < 2 ^ 16

theorem setInfo_near (atom : Atom) (offset : Nat) (delta other : BitVec 14) :
    -2 ^ 16 < ((setInfo atom offset other).instructionAddress -
        (setInfo atom offset delta).instructionAddress).toInt ∧
      ((setInfo atom offset other).instructionAddress -
        (setInfo atom offset delta).instructionAddress).toInt < 2 ^ 16 := by
  have difference : (setInfo atom offset other).instructionAddress -
      (setInfo atom offset delta).instructionAddress =
        BitVec.ofNat 64 (4 * other.toNat) - BitVec.ofNat 64 (4 * delta.toNat) := by
    simp only [setInfo, ofNat_add]
    ring
  have otherNat : (BitVec.ofNat 64 (4 * other.toNat)).toNat = 4 * other.toNat := by
    rw [toNat_ofNat]
    omega
  have deltaNat : (BitVec.ofNat 64 (4 * delta.toNat)).toNat = 4 * delta.toNat := by
    rw [toNat_ofNat]
    omega
  have otherInt := toInt_of_small (BitVec.ofNat 64 (4 * other.toNat)) (by omega)
  have deltaInt := toInt_of_small (BitVec.ofNat 64 (4 * delta.toNat)) (by omega)
  rw [difference, toInt_sub_small _ _ (by omega) (by omega)]
  omega

theorem target_near (address : BitVec 64) {origin target : BitVec 64} (offset : Nat)
    (within : withinOneMeg origin (target + BitVec.ofNat 64 offset))
    (close : -2 ^ 16 < (origin - address).toInt ∧ (origin - address).toInt < 2 ^ 16)
    (small : offset < 2 ^ 20) :
    -2 ^ 40 ≤ (target - address).toInt ∧ (target - address).toInt < 2 ^ 31 := by
  obtain ⟨low, high⟩ := within_bounds within
  have offsetNat : (BitVec.ofNat 64 offset).toNat = offset := by
    rw [toNat_ofNat]
    omega
  have offsetInt := toInt_of_small (BitVec.ofNat 64 offset) (by omega)
  have rearranged : target - address =
      target + BitVec.ofNat 64 offset - origin + (origin - address) - BitVec.ofNat 64 offset := by
    ring
  have sum := toInt_add_small (target + BitVec.ofNat 64 offset - origin) (origin - address)
    (by omega) (by omega)
  rw [rearranged, toInt_sub_small _ _ (by omega) (by omega), sum]
  omega

theorem targetAt_of_multiple {site : Site} {offset : Nat} (multiple : 4 ∣ offset)
    (aligned : fourByteAligned site.infoA.targetAddress) :
    fourByteAligned (site.targetAt offset) := by
  have masked (address : BitVec 64) : fourByteAligned address ↔ address.toNat % 4 = 0 := by
    rw [fourByteAligned, ← toNat_inj, toNat_and]
    exact iff_of_eq (congrArg (· = 0) (Nat.and_two_pow_sub_one_eq_mod address.toNat 2))
  rw [masked] at aligned ⊢
  rw [Site.targetAt, toNat_add, toNat_ofNat]
  omega

def machineWith (x : BitVec 5 → BitVec 64) (memory : BitVec 64 → BitVec 8) : Machine :=
  { x, sp := x 31#5, v := fun _ => 0#128, memory }

theorem machineWith_address (x : BitVec 5 → BitVec 64) (memory : BitVec 64 → BitVec 8)
    (reg : BitVec 5) : (machineWith x memory).address reg = x reg := by
  unfold Machine.address machineWith
  split
  next stack =>
    rw [stack]
  · rfl

theorem add_one_ne (value : BitVec 64) : value + 1#64 ≠ value := by
  intro same
  have zero : 1#64 = 0#64 := add_eq_left.mp same
  exact absurd zero (by decide)

theorem address_varies (reg : BitVec 5) (added value : BitVec 64) :
    ∃ m : Machine, m.address reg + added ≠ value := by
  refine ⟨machineWith (fun _ => value + 1#64 - added) fun _ => 0#8, ?_⟩
  rw [machineWith_address, BitVec.sub_add_cancel]
  exact add_one_ne value

theorem addresses_vary {reg other : BitVec 5} (apart : reg ≠ other) (added added' : BitVec 64) :
    ∃ m : Machine, m.address reg + added ≠ m.address other + added' := by
  refine ⟨machineWith (fun r => if r = reg then added' + 1#64 - added else 0#64) fun _ => 0#8, ?_⟩
  rw [machineWith_address, machineWith_address, if_pos rfl, if_neg apart.symm,
    BitVec.sub_add_cancel, BitVec.zero_add]
  exact add_one_ne added'

section Comparisons

variable (destination source reg : BitVec 5) (page added value : BitVec 64)

theorem written_iff (formed : page + added = value) :
    (∀ m : Machine, (m.write destination page).address reg + added = value) ↔
      reg = destination ∧ destination ≠ 31#5 := by
  constructor
  · intro always
    by_contra other
    obtain ⟨m, differs⟩ := address_varies reg added value
    apply differs
    have here := always m
    rw [Machine.write_address] at here
    by_cases zero : destination = 31#5
    · rwa [if_pos zero] at here
    · have notSame : reg ≠ destination := fun same => other ⟨same, zero⟩
      rwa [if_neg zero, if_neg notSame] at here
  · intro through m
    rw [Machine.write_address, if_neg through.2, if_pos through.1, formed]

theorem merged_iff :
    (∀ m : Machine, (m.write destination page).address reg + added =
      (m.write destination page).address destination + added) ↔ reg = destination := by
  constructor
  · intro always
    by_contra apart
    by_cases zero : destination = 31#5
    · obtain ⟨m, differs⟩ := addresses_vary apart added added
      have here := always m
      rw [Machine.write_address, Machine.write_address, if_pos zero, if_pos zero] at here
      exact differs here
    obtain ⟨m, differs⟩ := address_varies reg added (page + added)
    have here := always m
    rw [Machine.write_address, Machine.write_address, if_neg zero, if_neg zero,
      if_neg apart, if_pos rfl] at here
    exact differs here
  · intro same m
    rw [same]

theorem adr_iff (rest rest' : BitVec 64) (formed : page + (added + rest') = value + rest) :
    (∀ m : Machine, (m.write reg value).address reg + rest =
      (m.write destination page).address source + (added + rest')) ↔
      source = destination ∧ destination ≠ 31#5 ∧ reg ≠ 31#5 ∨
        source = 31#5 ∧ reg = 31#5 ∧ added + rest' = rest := by
  by_cases through : source = destination ∧ destination ≠ 31#5
  · have fixed (m : Machine) : (m.write destination page).address source + (added + rest') =
        value + rest := by
      rw [Machine.write_address, if_neg through.2, if_pos through.1, formed]
    simp only [fixed]
    by_cases stack : reg = 31#5
    · constructor
      · intro always
        obtain ⟨m, differs⟩ := address_varies reg rest (value + rest)
        have here := always m
        rw [Machine.write_address, if_pos stack] at here
        exact absurd here differs
      · intro either
        rcases either with ⟨_, _, notStack⟩ | ⟨fromStack, _, _⟩
        · exact absurd stack notStack
        · exact absurd (through.1.symm.trans fromStack) through.2
    · constructor
      · intro _
        exact Or.inl ⟨through.1, through.2, stack⟩
      · intro _ m
        rw [Machine.write_address, if_neg stack, if_pos rfl]
  · have free (m : Machine) : (m.write destination page).address source = m.address source := by
      rw [Machine.write_address]
      by_cases zero : destination = 31#5
      · rw [if_pos zero]
      · rw [if_neg zero, if_neg fun same => through ⟨same, zero⟩]
    have notThrough : ¬ (source = destination ∧ destination ≠ 31#5 ∧ reg ≠ 31#5) :=
      fun all => through ⟨all.1, all.2.1⟩
    simp only [free, notThrough, false_or]
    by_cases stack : reg = 31#5
    · subst stack
      by_cases fromStack : source = 31#5
      · subst fromStack
        simp only [Machine.write_address, if_true, true_and]
        constructor
        · intro always
          have here := always (machineWith (fun _ => 0#64) fun _ => 0#8)
          rw [machineWith_address, BitVec.zero_add, BitVec.zero_add] at here
          exact here.symm
        · intro same m
          rw [same]
      · simp only [fromStack, false_and, iff_false]
        intro always
        obtain ⟨m, differs⟩ := addresses_vary (Ne.symm fromStack) rest (added + rest')
        have here := always m
        exact differs here
    · simp only [stack, false_and, and_false, iff_false]
      intro always
      obtain ⟨m, differs⟩ := address_varies source (added + rest') (value + rest)
      have here := always m
      rw [Machine.write_address, if_neg stack, if_pos rfl] at here
      exact differs here.symm

end Comparisons

theorem loaded_low_byte (extension : Extension) (memory : BitVec 64 → BitVec 8)
    (address : BitVec 64) (size : Nat) (positive : 0 < size) :
    (extended extension size (bytesAt memory address size)).setWidth 8 = memory address := by
  obtain ⟨more, rfl⟩ := Nat.exists_eq_succ_of_ne_zero (Nat.ne_of_gt positive)
  have low : BitVec.ofNat 8 (bytesAt memory address (more + 1)) = memory address := by
    apply eq_of_toNat_eq
    rw [toNat_ofNat, bytesAt]
    omega
  generalize bytesAt memory address (more + 1) = value at low
  have bits (i : Nat) (bound : i < 8) : value.testBit i = (memory address).getLsbD i := by
    rw [← low, getLsbD_ofNat]
    simp [bound]
  have inside (i : Nat) (bound : i < 8) : i < 8 * (more + 1) := by omega
  apply eq_of_getLsbD_eq
  intro i bound
  have wide : i < 8 * more.succ := inside i bound
  have below : i < 32 := by omega
  have small : i < 64 := by omega
  cases extension with
  | zero =>
    simp only [extended, getLsbD_setWidth, getLsbD_ofNat]
    simp [bound, small, bits i bound]
  | signed32 =>
    simp only [extended, getLsbD_setWidth, getLsbD_signExtend, getLsbD_ofNat]
    simp [bound, below, small, wide, bits i bound]
  | signed64 =>
    simp only [extended, getLsbD_setWidth, getLsbD_signExtend, getLsbD_ofNat]
    simp [bound, small, wide, bits i bound]

/-- A load of the same shape from elsewhere gives the same address in its register only when
that is the stack pointer, which it does not write. -/
theorem loaded_iff (shape : Transfer) (integer : shape.isFloat = false) (positive : 0 < shape.size)
    (destination base : BitVec 5) (page added value rest : BitVec 64)
    (formed : page + added = value) :
    (∀ m : Machine, (m.load shape value).address shape.reg + rest =
      ((m.write destination page).load shape
        ((m.write destination page).address base + added)).address shape.reg + rest) ↔
      shape.reg = 31#5 ∨ base = destination ∧ destination ≠ 31#5 := by
  have loads (m : Machine) (address : BitVec 64) : (m.load shape address).address shape.reg =
      if shape.reg = 31#5 then m.address shape.reg
      else extended shape.extension shape.size (bytesAt m.memory address shape.size) := by
    unfold Machine.load
    rw [if_neg (by simp [integer]), Machine.write_address]
    simp
  by_cases stack : shape.reg = 31#5
  · have kept (m : Machine) : (m.write destination page).address shape.reg =
        m.address shape.reg := by
      rw [Machine.write_address]
      by_cases zero : destination = 31#5
      · rw [if_pos zero]
      · rw [if_neg zero, if_neg fun same => zero (same.symm.trans stack)]
    constructor
    · intro _
      exact Or.inl stack
    · intro _ m
      rw [loads, loads, if_pos stack, if_pos stack, kept]
  · simp only [loads, stack, if_false, Machine.write_memory, false_or]
    constructor
    · intro always
      by_contra other
      let m := machineWith (fun _ => value + 1#64 - added)
        fun cell => if cell = value then 1#8 else 0#8
      have elsewhere : (m.write destination page).address base + added = value + 1#64 := by
        have free : (m.write destination page).address base = m.address base := by
          rw [Machine.write_address]
          by_cases zero : destination = 31#5
          · rw [if_pos zero]
          · rw [if_neg zero, if_neg fun same => other ⟨same, zero⟩]
        rw [free, machineWith_address, BitVec.sub_add_cancel]
      have same := add_right_cancel (always m)
      have low := congrArg (BitVec.setWidth 8) same
      rw [loaded_low_byte _ _ _ _ positive, loaded_low_byte _ _ _ _ positive, elsewhere] at low
      have one : m.memory value = 1#8 := if_pos rfl
      have zero : m.memory (value + 1#64) = 0#8 := if_neg (add_one_ne value)
      rw [one, zero] at low
      exact absurd low (by decide)
    · intro through m
      rw [Machine.write_address, if_neg through.2, if_pos through.1, formed]

structure Site.Of (site : Site) (atom : Atom) : Prop where
  wordA : site.infoA.instruction = atom.content site.infoA.offsetInAtom
  wordB : site.infoB.instruction = atom.content site.infoB.offsetInAtom
  wordC : site.infoC.instruction = atom.content site.infoC.offsetInAtom
  fixupA : site.infoA.fixup = atom.usedByHints site.infoA.offsetInAtom
  fixupB : site.infoB.fixup = atom.usedByHints site.infoB.offsetInAtom
  fixupC : site.infoC.fixup = atom.usedByHints site.infoC.offsetInAtom

theorem mem_instructions_A (site : Site) : site.infoA ∈ site.instructions := by
  unfold Site.instructions
  split
  · simp
  · simp

theorem mem_instructions_B (site : Site) : site.infoB ∈ site.instructions := by
  unfold Site.instructions
  split
  · simp
  · simp

theorem mem_instructions_C {site : Site} (count : site.count = 2#2) :
    site.infoC ∈ site.instructions := by
  unfold Site.instructions
  rw [count]
  simp

variable {fixup : Option Fixup} {mustBeGOT : Bool}

theorem isPageKind_store (page : isPageKind fixup mustBeGOT) :
    ∃ found kind, fixup = some found ∧ found.store = .page21 kind := by
  unfold isPageKind at page
  split at page
  · cases page
  rename_i found
  split at page
  next store =>
    exact ⟨found, _, rfl, store⟩
  next store =>
    exact ⟨found, _, rfl, store⟩
  · cases page
  · cases page

theorem isPageOffsetKind_store (offset : isPageOffsetKind fixup mustBeGOT) :
    ∃ found kind, fixup = some found ∧ found.store = .pageOff12 kind := by
  unfold isPageOffsetKind at offset
  split at offset
  · cases offset
  rename_i found
  split at offset
  next store =>
    exact ⟨found, _, rfl, store⟩
  next store =>
    exact ⟨found, _, rfl, store⟩
  next store =>
    exact ⟨found, _, rfl, store⟩
  · cases offset
  · cases offset

def InstructionInfo.pageFormed (info : InstructionInfo) : BitVec 64 :=
  pageOf info.instructionAddress + (immediate21 info.instruction).signExtend 64 <<< 12

section Facts

variable {site : Site} {atom : Atom} {count : BitVec 2} {mustBeGOT : Bool}

section

variable (fixups : FixupsMatch site count mustBeGOT)
include fixups

theorem FixupsMatch.apart (of : site.Of atom) : site.infoA.offsetInAtom ≠ site.infoB.offsetInAtom ∧
      (count = 2#2 → site.infoA.offsetInAtom ≠ site.infoC.offsetInAtom ∧
        site.infoB.offsetInAtom ≠ site.infoC.offsetInAtom) := by
  obtain ⟨_, page, offset, third, _, _⟩ := fixups
  obtain ⟨foundA, kindA, fixupA, storeA⟩ := isPageKind_store page
  obtain ⟨foundB, kindB, fixupB, storeB⟩ := isPageOffsetKind_store offset
  constructor
  · intro same
    have both : site.infoA.fixup = site.infoB.fixup := by
      rw [of.fixupA, of.fixupB, same]
    rw [fixupA, fixupB, Option.some_inj] at both
    rw [both, storeB] at storeA
    cases storeA
  · intro two
    have none := third two
    constructor
    · intro same
      rw [of.fixupA, same, ← of.fixupC, none] at fixupA
      cases fixupA
    · intro same
      rw [of.fixupB, same, ← of.fixupC, none] at fixupB
      cases fixupB

theorem FixupsMatch.offset_stored (ready : site.Ready) :
    parseADD site.infoB.instruction = none ∧ parseLoadOrStore site.infoB.instruction = none ∨
      ∃ raw, storeOffset12 raw site.infoA.targetAddress = some site.infoB.instruction ∨
        storeLea12 raw site.infoA.targetAddress = some site.infoB.instruction ∨
        ∃ middle, storeOffset12 raw site.infoA.targetAddress = some middle ∧
          convertAddToLoad middle = some site.infoB.instruction := by
  obtain ⟨found, kind, fixup, store⟩ := isPageOffsetKind_store fixups.2.2.1
  have holds := ready.holds _ (mem_instructions_B site) found fixup
  rw [store] at holds
  rcases holds with replaced | ⟨raw, stored⟩
  · exact Or.inl replaced
  have target : found.targetAddress = site.infoA.targetAddress := by
    rw [fixups.2.2.2.2.2]
    simp [InstructionInfo.targetAddress, fixup]
  rw [target] at stored
  refine Or.inr ⟨raw, ?_⟩
  cases kind with
  | pageOff | gotLoad | tlvpLoad => exact Or.inl stored
  | gotLea | tlvpLoadNowLea => exact Or.inr (Or.inl stored)
  | convertAddToLoad => exact Or.inr (Or.inr (Option.bind_eq_some_iff.mp stored))

theorem FixupsMatch.add_offset (ready : site.Ready)
    {add : AddInfo} (parsed : parseADD site.infoB.instruction = some add) :
    add.addend = (pageOffset site.infoA.targetAddress).toNat := by
  rcases fixups.offset_stored ready with replaced | ⟨raw, stored | lea | ⟨middle, first, second⟩⟩
  · rw [parsed] at replaced
    cases replaced.1
  · exact storeOffset12_add stored parsed
  · rw [(parsed_add parsed).2, (storeLea12_add lea).2]
  · obtain ⟨add, load, parsedAdd, offset, decoded⟩ := converted_load second
    have again := (parsed_add parsed).1
    rw [decoded] at again
    cases again

theorem FixupsMatch.ldr_offset (ready : site.Ready)
    {ldr : LoadStoreInfo} (parsed : parseLoadOrStore site.infoB.instruction = some ldr) :
    ldr.offset = (pageOffset site.infoA.targetAddress).toNat := by
  rcases fixups.offset_stored ready with replaced | ⟨raw, stored | lea | ⟨middle, first, second⟩⟩
  · rw [parsed] at replaced
    cases replaced.2
  · exact storeOffset12_transfer stored parsed
  · exact absurd (transfer_class parsed)
      (BitFields.masked_ne (storeLea12_add lea).1 (by decide))
  · obtain ⟨add, load, parsedAdd, offset, decoded⟩ := converted_load second
    have again := (parsed_transfer parsed (by simp [decoded])).1
    rw [decoded, Option.some_inj, Instruction.transfer.injEq] at again
    rw [← again.2.2, offset, storeOffset12_add first parsedAdd]

end

end Facts

end DeveloperTools.Ld64.OptimizationHints
