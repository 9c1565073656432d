import DeveloperTools.Ld64.HintSites

/-!
A hint that passes its checks is compared with the instructions it replaces, on
every machine: for each kind, the condition on registers and addresses under which
the linker goes through and the rewritten instructions do the same.
-/

namespace DeveloperTools.Ld64.OptimizationHints

open Aarch64 Arm64Instructions
open List Option BitVec Nat

/-- A literal load in place of one that reads through the ADRP's register. -/
def LiteralFaithful (adrp : AdrpInfo) (ldr : LoadStoreInfo) (address : BitVec 64) : Prop :=
  ldr.isStore = false ∧ fourByteAligned address ∧ adrp.destReg ≠ 31#5

/-- An ADR in place of the ADRP and the ADD. Number 31 is the stack pointer for the ADD and the
zero register for the ADR and ADRP. -/
def AdrFaithful (site : Site) (adrp : AdrpInfo) (add : AddInfo) (rest : Nat) : Prop :=
  fourByteAligned site.infoA.instructionAddress ∧
    (add.srcReg = adrp.destReg ∧ adrp.destReg ≠ 31#5 ∧ add.destReg ≠ 31#5 ∨
      add.srcReg = 31#5 ∧ add.destReg = 31#5 ∧ pageOffset site.infoA.targetAddress = 0#64 ∧
        rest = 0)

def GotLiteralMakes (site : Site) (ldr : LoadStoreInfo) : Prop :=
  ldr.isStore = false ∧ literalableSize ldr ∧ fourByteAligned site.infoA.targetAddress ∧
    fourByteAligned site.infoB.instructionAddress ∧
    withinOneMeg site.infoB.instructionAddress site.infoA.targetAddress

def ThroughAdrp (adrp : AdrpInfo) (ldr : LoadStoreInfo) : Prop :=
  ldr.baseReg = adrp.destReg ∧ adrp.destReg ≠ 31#5

section Conditions

variable (site : Site) (adrp : AdrpInfo)

def adrpLdrCondition (ldr : LoadStoreInfo) : Prop :=
  literalableSize ldr ∧ site.usableSegment ∧ fourByteAligned site.infoA.targetAddress ∧
      withinOneMeg site.infoB.instructionAddress site.infoA.targetAddress →
    LiteralFaithful adrp ldr site.infoB.instructionAddress

def adrpAddCondition (add : AddInfo) : Prop :=
  site.usableSegment ∧ withinOneMeg site.infoA.instructionAddress site.infoA.targetAddress →
    AdrFaithful site adrp add 0

def adrpAddLdrCondition (add : AddInfo) (ldr : LoadStoreInfo) : Prop :=
  if literalableSize ldr ∧ site.usableSegment ∧ fourByteAligned (site.targetAt ldr.offset) ∧
      withinOneMeg site.infoC.instructionAddress (site.targetAt ldr.offset) then
    LiteralFaithful adrp ldr site.infoC.instructionAddress
  else
    site.usableSegment ∧ withinOneMeg site.infoA.instructionAddress (site.targetAt ldr.offset) →
      AdrFaithful site adrp add ldr.offset

def adrpAddStrCondition (add : AddInfo) (ldr : LoadStoreInfo) : Prop :=
  if site.usableSegment ∧
      withinOneMeg site.infoA.instructionAddress (site.targetAt ldr.offset) then
    AdrFaithful site adrp add ldr.offset
  else
    site.infoB.targetAddress.toNat % ldr.size = 0 ∧ ldr.offset = 0 → add.destReg = adrp.destReg

def gotLoadCondition (ldrB ldrC : LoadStoreInfo) : Prop :=
  site.usableSegment ∧ fourByteAligned (site.targetAt ldrC.offset) ∧
      withinOneMeg site.infoB.instructionAddress (site.targetAt ldrC.offset) →
    GotLiteralMakes site ldrB ∧ (ldrB.reg = 31#5 ∨ ThroughAdrp adrp ldrB)

def adrpLdrGotLdrCondition (add : AddInfo) (ldr : LoadStoreInfo) : Prop :=
  if site.usableSegment ∧ literalableSize ldr ∧ fourByteAligned site.infoA.targetAddress ∧
      withinOneMeg site.infoC.instructionAddress (site.targetAt ldr.offset) then
    LiteralFaithful adrp ldr site.infoC.instructionAddress
  else
    site.usableSegment ∧ withinOneMeg site.infoA.instructionAddress site.infoA.targetAddress →
      AdrFaithful site adrp add 0

def adrpLdrGotCondition (ldr : LoadStoreInfo) : Prop :=
  site.usableSegment ∧ withinOneMeg site.infoB.instructionAddress site.infoA.targetAddress →
    GotLiteralMakes site ldr ∧ ThroughAdrp adrp ldr

end Conditions

/-- The condition on a hint, in terms of its instructions as the linker parses them. -/
def Faithful (site : Site) (kind : HintKind) : Prop :=
  ∀ adrp, parseADRP site.infoA.instruction = some adrp →
    match kind with
    | .adrpLdr =>
      ∀ ldr, parseLoadOrStore site.infoB.instruction = some ldr → adrpLdrCondition site adrp ldr
    | .adrpAdd =>
      ∀ add, parseADD site.infoB.instruction = some add → adrpAddCondition site adrp add
    | .adrpAddLdr =>
      ∀ add, parseADD site.infoB.instruction = some add →
        ∀ ldr, parseLoadOrStore site.infoC.instruction = some ldr →
          adrpAddLdrCondition site adrp add ldr
    | .adrpAddStr =>
      ∀ add, parseADD site.infoB.instruction = some add →
        ∀ ldr, parseLoadOrStore site.infoC.instruction = some ldr →
          adrpAddStrCondition site adrp add ldr
    | .adrpLdrGotLdr =>
      ∀ ldrC, parseLoadOrStore site.infoC.instruction = some ldrC →
        (∀ ldrB, parseLoadOrStore site.infoB.instruction = some ldrB →
          gotLoadCondition site adrp ldrB ldrC) ∧
        ∀ add, parseADD site.infoB.instruction = some add →
          adrpLdrGotLdrCondition site adrp add ldrC
    | .adrpLdrGotStr =>
      ∀ ldrC, parseLoadOrStore site.infoC.instruction = some ldrC →
        (∀ ldrB, parseLoadOrStore site.infoB.instruction = some ldrB →
          gotLoadCondition site adrp ldrB ldrC) ∧
        ∀ add, parseADD site.infoB.instruction = some add → adrpAddCondition site adrp add
    | .adrpLdrGot =>
      (∀ ldr, parseLoadOrStore site.infoB.instruction = some ldr →
        adrpLdrGotCondition site adrp ldr) ∧
      ∀ add, parseADD site.infoB.instruction = some add → adrpAddCondition site adrp add

section Running

variable {last wordA wordB wordC : BitVec 32} {a b c : BitVec 64}
  {instructionA instructionB instructionC : Instruction}

theorem meaning_add {destination source : BitVec 5} {immediate : BitVec 12}
    (ending : decode last = some (.add destination source immediate))
    (decodeA : decode wordA = some instructionA) (decodeB : decode wordB = some instructionB)
    (m : Machine) : meaning last [(a, wordA), (b, wordB)] m =
      some (.forms (((m.step a instructionA).step b instructionB).address destination)) := by
  simp [meaning, ending, Machine.run, decodeA, decodeB]

section

variable {shape : Transfer} {base : BitVec 5} {offset : Nat}
    (ending : decode last = some (.transfer shape base offset))
    (decodeA : decode wordA = some instructionA) (decodeB : decode wordB = some instructionB)

include ending decodeA decodeB

theorem meaning_two
    (m : Machine) : meaning last [(a, wordA), (b, wordB)] m =
      ((m.step a instructionA).transferred b instructionB).map fun moved =>
        .moves moved.1 moved.2 := by
  simp [meaning, ending, Machine.lastTransfer, decodeA, decodeB]

theorem meaning_three
    (decodeC : decode wordC = some instructionC) (m : Machine) :
    meaning last [(a, wordA), (b, wordB), (c, wordC)] m =
      (((m.step a instructionA).step b instructionB).transferred c instructionC).map fun moved =>
        .moves moved.1 moved.2 := by
  simp [meaning, ending, Machine.lastTransfer, decodeA, decodeB, decodeC]

end

theorem decode_nop : decode makeNOP = some .nop := by
  decide

end Running

variable {site : Site}

theorem program_two (count : site.count = 1#2) (content : Nat → BitVec 32) :
    site.program content =
      [(site.infoA.instructionAddress, content site.infoA.offsetInAtom),
        (site.infoB.instructionAddress, content site.infoB.offsetInAtom)] := by
  simp [Site.program, Site.instructions, count]

theorem program_three (count : site.count = 2#2) (content : Nat → BitVec 32) :
    site.program content =
      [(site.infoA.instructionAddress, content site.infoA.offsetInAtom),
        (site.infoB.instructionAddress, content site.infoB.offsetInAtom),
        (site.infoC.instructionAddress, content site.infoC.offsetInAtom)] := by
  simp [Site.program, Site.instructions, count]

/-- The linker goes through and the hint leaves the meaning. -/
def Goes (result : Result) (site : Site) (content : Nat → BitVec 32) : Prop :=
  ∃ edits, result = .ok edits ∧ Preserves site content edits

section Outcomes

variable {site : Site} {content : Nat → BitVec 32}

theorem goes_ok (edits : Edits) : Goes (.ok edits) site content ↔ Preserves site content edits := by
  constructor
  · rintro ⟨_, same, preserves⟩
    cases same
    exact preserves
  · intro preserves
    exact ⟨edits, rfl, preserves⟩

theorem edited_pair {first second : Nat} (apart : first ≠ second) (word next : BitVec 32) :
    edited content [(first, word), (second, next)] first = word ∧
      edited content [(first, word), (second, next)] second = next := by
  simp [edited, apart]

theorem goes_untouched : Goes (.ok []) site content := by
  rw [goes_ok]
  intro m
  rfl

theorem goes_asserted (made : Option (BitVec 32)) (rest : BitVec 32 → Result) :
    Goes (asserted made rest) site content ↔
      ∃ word, made = some word ∧ Goes (rest word) site content := by
  cases made with
  | none =>
    constructor
    · rintro ⟨_, stopped, _⟩
      cases stopped
    · rintro ⟨_, nothing, _⟩
      cases nothing
  | some word => simp [asserted]

variable {info : LoadStoreInfo}

theorem goes_literal (encodable : info.Encodable) (target address : BitVec 64)
    (rest : BitVec 32 → Result) (meant : Prop)
    (each : ∀ word, withinOneMeg address target → fourByteAligned target →
      fourByteAligned address → info.isStore = false →
      decode word = some (.literal info.shape ((target - address).extractLsb' 2 19)) →
        (Goes (rest word) site content ↔ meant)) :
    Goes (asserted (makeLDRLiteral info target address) rest) site content ↔
      (withinOneMeg address target ∧ fourByteAligned target ∧ fourByteAligned address ∧
        info.isStore = false ∧ literalableSize info) ∧ meant := by
  rw [goes_asserted]
  constructor
  · rintro ⟨word, made, goes⟩
    obtain ⟨within, targetAligned, addressAligned, load, large⟩ := makeLDRLiteral_some made
    obtain ⟨other, again, decoded⟩ := made_literal encodable within targetAligned addressAligned
      load large
    rw [made, some_inj] at again
    subst again
    exact ⟨⟨within, targetAligned, addressAligned, load, large⟩,
      (each word within targetAligned addressAligned load decoded).mp goes⟩
  · rintro ⟨⟨within, targetAligned, addressAligned, load, large⟩, meant⟩
    obtain ⟨word, made, decoded⟩ := made_literal encodable within targetAligned addressAligned
      load large
    exact ⟨word, made, (each word within targetAligned addressAligned load decoded).mpr meant⟩

theorem goes_adr (destination : BitVec 5) (target address : BitVec 64)
    (within : withinOneMeg address target) (rest : BitVec 32 → Result) (meant : Prop)
    (each : ∀ word, decode word = some (.adr destination ((target - address).setWidth 21)) →
        (Goes (rest word) site content ↔ meant)) :
    Goes (asserted (makeADR destination target address) rest) site content ↔
      fourByteAligned address ∧ meant := by
  rw [goes_asserted, makeADR_eq]
  have decoded := decode_adrWord destination ((target - address).setWidth 21)
  by_cases aligned : fourByteAligned address
  · rw [if_pos ⟨aligned, within⟩]
    simp [aligned, each _ decoded]
  · rw [if_neg fun both => aligned both.1]
    simp [aligned]

theorem goes_transfer (encodable : info.Encodable) (rest : BitVec 32 → Result) (meant : Prop)
    (each : ∀ word, decode word = some (.transfer info.shape info.baseReg info.offset) →
      (Goes (rest word) site content ↔ meant)) :
    Goes (asserted (makeLoadOrStore info) rest) site content ↔ meant := by
  obtain ⟨word, made, decoded⟩ := made_loadOrStore encodable
  rw [goes_asserted, made]
  simp [each _ decoded]

end Outcomes

section Checks

variable {P : Result → Prop} {condition : Prop} [Decidable condition] {result rest : Result}

@[elab_as_elim]
theorem lohAssert_elim (passed : lohAssert condition rest ≠ .error .ignored)
    (each : condition → rest ≠ .error .ignored → P rest) : P (lohAssert condition rest) := by
  by_cases holds : condition
  · rw [lohAssert, if_pos holds] at passed ⊢
    exact each holds passed
  · exact absurd (if_neg holds) passed

@[elab_as_elim]
theorem lohParse_elim {α : Type} {parsed : Option α} {rest : α → Result}
    (passed : lohParse parsed rest ≠ .error .ignored)
    (each : ∀ info, parsed = some info → rest info ≠ .error .ignored → P (rest info)) :
    P (lohParse parsed rest) := by
  cases parsed with
  | none => exact absurd rfl passed
  | some info => exact each info rfl passed

@[elab_as_elim]
theorem start_elim {α : Type} {parsed : Option α} {rest : α → Result}
    (passed : lohAssert condition (lohParse parsed rest) ≠ .error .ignored)
    (each : condition → ∀ info, parsed = some info → rest info ≠ .error .ignored →
      P (rest info)) : P (lohAssert condition (lohParse parsed rest)) :=
  lohAssert_elim passed fun holds passed => lohParse_elim passed (each holds)

@[elab_as_elim]
theorem checked_elim {α : Type} {parsed : Option α} {check : α → Prop}
    [∀ info, Decidable (check info)] {rest : α → Result}
    (passed : (lohParse parsed fun info => lohAssert (check info) (rest info)) ≠ .error .ignored)
    (each : ∀ info, parsed = some info → check info → rest info ≠ .error .ignored →
      P (rest info)) : P (lohParse parsed fun info => lohAssert (check info) (rest info)) :=
  lohParse_elim passed fun info isInfo passed => lohAssert_elim passed (each info isInfo)

theorem guarded_iff {meant : Prop} (untouched : P (.ok []))
    (each : condition → (P result ↔ meant)) :
    P (if condition then result else .ok []) ↔ (condition → meant) := by
  split
  next holds =>
    simp [each holds, holds]
  next fails =>
    simp [untouched, fails]

theorem branches_iff {yes no : Prop} (then_ : condition → (P result ↔ yes))
    (else_ : ¬ condition → (P rest ↔ no)) :
    P (if condition then result else rest) ↔ if condition then yes else no := by
  split
  · exact then_ ‹_›
  · exact else_ ‹_›

theorem got_iff {word : BitVec 32} {load : LoadStoreInfo → Result} {addition : AddInfo → Result}
    {ifLoad : LoadStoreInfo → Prop} {ifAdd : AddInfo → Prop} (untouched : P (.ok []))
    (loads : ∀ ldr, parseLoadOrStore word = some ldr → load ldr ≠ .error .ignored →
      (P (load ldr) ↔ ifLoad ldr))
    (adds : ∀ add, parseADD word = some add → addition add ≠ .error .ignored →
      (P (addition add) ↔ ifAdd add))
    (matched : result = match parseLoadOrStore word, parseADD word with
      | some ldr, _ => load ldr
      | none, some add => addition add
      | none, none => .ok []) (passed : result ≠ .error .ignored) :
    P result ↔ (∀ ldr, parseLoadOrStore word = some ldr → ifLoad ldr) ∧
      ∀ add, parseADD word = some add → ifAdd add := by
  subst matched
  cases parsed : parseLoadOrStore word with
  | some ldr =>
    rw [parsed] at passed
    simp [loads ldr parsed passed, add_not_transfer parsed]
  | none =>
    rw [parsed] at passed
    cases parsedAdd : parseADD word with
    | none => simp [untouched]
    | some add =>
      rw [parsedAdd] at passed
      simp [adds add parsedAdd passed]

end Checks

section Instructions

variable {site : Site} {atom : Atom} {count : BitVec 2} {mustBeGOT : Bool} {adrp : AdrpInfo}

theorem formed_target (fixups : FixupsMatch site count mustBeGOT) (ready : site.Ready)
    (parsed : parseADRP site.infoA.instruction = some adrp)
    (near : -2 ^ 40 ≤ (site.infoA.targetAddress - site.infoA.instructionAddress).toInt ∧
      (site.infoA.targetAddress - site.infoA.instructionAddress).toInt < 2 ^ 31) :
    site.infoA.pageFormed +
      BitVec.ofNat 64 (pageOffset site.infoA.targetAddress).toNat = site.infoA.targetAddress := by
  obtain ⟨found, kind, fixup, store⟩ := isPageKind_store fixups.2.1
  have holds := ready.holds _ (mem_instructions_A site) found fixup
  rw [store] at holds
  rw [parsed] at holds
  rcases holds with replaced | ⟨raw, stored⟩
  · cases replaced
  have target : found.targetAddress = site.infoA.targetAddress := by
    simp [InstructionInfo.targetAddress, fixup]
  rw [target] at stored
  have formed : site.infoA.pageFormed = pageOf site.infoA.targetAddress :=
    page_value stored (page_near near.1 near.2)
  rw [formed, ofNat_toNat, setWidth_eq, page_and_offset]

theorem added_offset (fixups : FixupsMatch site count mustBeGOT) (ready : site.Ready)
    {add : AddInfo} (parsedB : parseADD site.infoB.instruction = some add) :
    (BitVec.ofNat 12 add.addend).setWidth 64 = pageOffset site.infoA.targetAddress := by
  have small := pageOffset_lt site.infoA.targetAddress
  apply eq_of_toNat_eq
  rw [toNat_setWidth, toNat_ofNat, fixups.add_offset ready parsedB,
    mod_eq_of_lt small, mod_eq_of_lt (lt_trans small (by decide))]

theorem preserves_two (count : site.count = 1#2) (of : site.Of atom) (edits : Edits) :
    Preserves site atom.content edits ↔
      ∀ m, meaning site.infoB.instruction
          [(site.infoA.instructionAddress, edited atom.content edits site.infoA.offsetInAtom),
            (site.infoB.instructionAddress, edited atom.content edits site.infoB.offsetInAtom)] m =
        meaning site.infoB.instruction
          [(site.infoA.instructionAddress, site.infoA.instruction),
            (site.infoB.instructionAddress, site.infoB.instruction)] m := by
  unfold Preserves
  rw [program_two count, program_two count, Site.last, if_pos count, of.wordA, of.wordB]

theorem literal_makes_iff (ldr : LoadStoreInfo) :
    (withinOneMeg site.infoB.instructionAddress site.infoA.targetAddress ∧
      fourByteAligned site.infoA.targetAddress ∧ fourByteAligned site.infoB.instructionAddress ∧
      ldr.isStore = false ∧ literalableSize ldr) ↔ GotLiteralMakes site ldr := by
  unfold GotLiteralMakes
  tauto

theorem literal_two_iff (fixups : FixupsMatch site 1#2 mustBeGOT) (of : site.Of atom)
    (close : site.Close) (ready : site.Ready)
    (parsed : parseADRP site.infoA.instruction = some adrp) {ldr : LoadStoreInfo}
    (parsedB : parseLoadOrStore site.infoB.instruction = some ldr) :
    Goes (makeGotLiteral site ldr) site atom.content ↔
      GotLiteralMakes site ldr ∧ ThroughAdrp adrp ldr := by
  have apart := (fixups.apart of).1
  obtain ⟨decodedB, encodable, _⟩ := parsed_transfer parsedB
    (ready.valid _ (mem_instructions_B site))
  rw [← literal_makes_iff]
  apply goes_literal encodable
  intro word within targetAligned addressAligned _ decoded
  have near := target_near _ 0 (by simpa using within) close.nearB (by decide)
  have formed := formed_target fixups ready parsed near
  rw [← fixups.ldr_offset ready parsedB] at formed
  rw [goes_ok, preserves_two fixups.1 of, (edited_pair apart _ _).1, (edited_pair apart _ _).2,
    ThroughAdrp, ← written_iff _ _ _ _ _ formed]
  apply forall_congr'
  intro m
  rw [meaning_two decodedB decode_nop decoded, meaning_two decodedB (parsed_adrp parsed) decodedB]
  simp only [Machine.step, Machine.transferred, map_some, some_inj,
    Meaning.moves.injEq, true_and, literal_value within targetAligned addressAligned]
  exact eq_comm

theorem adr_two_iff (fixups : FixupsMatch site 1#2 mustBeGOT) (of : site.Of atom)
    (ready : site.Ready) (parsed : parseADRP site.infoA.instruction = some adrp) {add : AddInfo}
    (parsedB : parseADD site.infoB.instruction = some add)
    (within : withinOneMeg site.infoA.instructionAddress site.infoA.targetAddress) :
    Goes (asserted (makeADR add.destReg site.infoA.targetAddress site.infoA.instructionAddress)
        fun adr =>
          .ok [(site.infoA.offsetInAtom, adr), (site.infoB.offsetInAtom, makeNOP)])
        site atom.content ↔
      AdrFaithful site adrp add 0 := by
  have apart := (fixups.apart of).1
  have near := target_near site.infoA.instructionAddress 0
    (by simpa using within) (by simp) (by decide)
  have formed := formed_target fixups ready parsed near
  have decodedB := (parsed_add parsedB).1
  apply goes_adr _ _ _ within
  intro word decoded
  rw [ofNat_toNat, setWidth_eq] at formed
  have compared := adr_iff adrp.destReg add.srcReg add.destReg site.infoA.pageFormed
    (pageOffset site.infoA.targetAddress) site.infoA.targetAddress 0#64 0#64
    (by rw [BitVec.add_zero, BitVec.add_zero, formed])
  simp only [BitVec.add_zero] at compared
  rw [goes_ok, preserves_two fixups.1 of, (edited_pair apart _ _).1, (edited_pair apart _ _).2,
    and_iff_left rfl, ← compared]
  apply forall_congr'
  intro m
  rw [meaning_add decodedB decoded decode_nop, meaning_add decodedB (parsed_adrp parsed) decodedB]
  simp only [Machine.step, some_inj, Meaning.forms.injEq, Machine.setAddress_address,
    if_true, added_offset fixups ready parsedB, adr_value within]
  rfl

end Instructions

/-- The ADRP, the ADD to its result, and a load or store through that. -/
structure Formed (site : Site) (atom : Atom) (mustBeGOT : Bool) (adrp : AdrpInfo)
    (add : AddInfo) (ldr : LoadStoreInfo) : Prop where
  fixups : FixupsMatch site 2#2 mustBeGOT
  of : site.Of atom
  close : site.Close
  ready : site.Ready
  parsedA : parseADRP site.infoA.instruction = some adrp
  parsedB : parseADD site.infoB.instruction = some add
  parsedC : parseLoadOrStore site.infoC.instruction = some ldr
  source : add.srcReg = adrp.destReg
  base : add.destReg = ldr.baseReg

theorem preserves_three {atom : Atom} (count : site.count = 2#2) (of : site.Of atom)
    (edits : Edits) : Preserves site atom.content edits ↔
      ∀ m, meaning site.infoC.instruction
          [(site.infoA.instructionAddress, edited atom.content edits site.infoA.offsetInAtom),
            (site.infoB.instructionAddress, edited atom.content edits site.infoB.offsetInAtom),
            (site.infoC.instructionAddress, edited atom.content edits site.infoC.offsetInAtom)] m =
        meaning site.infoC.instruction
          [(site.infoA.instructionAddress, site.infoA.instruction),
            (site.infoB.instructionAddress, site.infoB.instruction),
            (site.infoC.instructionAddress, site.infoC.instruction)] m := by
  have notOne : ¬ site.count = 1#2 := by
    rw [count]
    decide
  unfold Preserves
  rw [program_three count, program_three count, Site.last, if_neg notOne, of.wordA, of.wordB,
    of.wordC]

namespace Formed

variable {site : Site} {atom : Atom} {mustBeGOT : Bool} {adrp : AdrpInfo} {add : AddInfo}
  {ldr : LoadStoreInfo}

section

variable (formed : Formed site atom mustBeGOT adrp add ldr)
include formed

theorem decodedC :
    decode site.infoC.instruction = some (.transfer ldr.shape ldr.baseReg ldr.offset) ∧
      ldr.Encodable := by
  have parsed := parsed_transfer formed.parsedC
    (formed.ready.valid _ (mem_instructions_C formed.fixups.1))
  exact ⟨parsed.1, parsed.2.1⟩

theorem original (m : Machine) : meaning site.infoC.instruction
        [(site.infoA.instructionAddress, site.infoA.instruction),
          (site.infoB.instructionAddress, site.infoB.instruction),
          (site.infoC.instructionAddress, site.infoC.instruction)] m =
      some (.moves ldr.shape
        ((m.write adrp.destReg site.infoA.pageFormed).address adrp.destReg +
          (pageOffset site.infoA.targetAddress + BitVec.ofNat 64 ldr.offset))) := by
  rw [meaning_three formed.decodedC.1 (parsed_adrp formed.parsedA)
    (parsed_add formed.parsedB).1 formed.decodedC.1]
  simp only [Machine.step, Machine.transferred, map_some, Machine.setAddress_address,
    formed.base, formed.source, if_true,
    added_offset formed.fixups formed.ready formed.parsedB, BitVec.add_assoc]
  rfl

theorem address_formed
    (near : -2 ^ 40 ≤ (site.infoA.targetAddress - site.infoA.instructionAddress).toInt ∧
      (site.infoA.targetAddress - site.infoA.instructionAddress).toInt < 2 ^ 31) :
    site.infoA.pageFormed + (pageOffset site.infoA.targetAddress + BitVec.ofNat 64 ldr.offset) =
      site.targetAt ldr.offset := by
  have target := formed_target formed.fixups formed.ready formed.parsedA near
  rw [ofNat_toNat, setWidth_eq] at target
  rw [← BitVec.add_assoc, target, Site.targetAt]

theorem goes_three {edits : Edits}
    {wordA wordB wordC : BitVec 32} {instructionA instructionB instructionC : Instruction}
    (first : edited atom.content edits site.infoA.offsetInAtom = wordA)
    (second : edited atom.content edits site.infoB.offsetInAtom = wordB)
    (third : edited atom.content edits site.infoC.offsetInAtom = wordC)
    (decodeA : decode wordA = some instructionA) (decodeB : decode wordB = some instructionB)
    (decodeC : decode wordC = some instructionC) : Goes (.ok edits) site atom.content ↔
      ∀ m : Machine, ((m.step site.infoA.instructionAddress instructionA).step
          site.infoB.instructionAddress instructionB).transferred
            site.infoC.instructionAddress instructionC =
        some (ldr.shape, (m.write adrp.destReg site.infoA.pageFormed).address adrp.destReg +
          (pageOffset site.infoA.targetAddress + BitVec.ofNat 64 ldr.offset)) := by
  rw [goes_ok, preserves_three formed.fixups.1 formed.of, first, second, third]
  apply forall_congr'
  intro m
  rw [formed.original, meaning_three formed.decodedC.1 decodeA decodeB decodeC]
  cases ((m.step site.infoA.instructionAddress instructionA).step
    site.infoB.instructionAddress instructionB).transferred
      site.infoC.instructionAddress instructionC with
  | none => simp
  | some moved => simp [Prod.ext_iff]

theorem addend_lt : add.addend < 4096 := by
  rw [formed.fixups.add_offset formed.ready formed.parsedB]
  exact pageOffset_lt _

theorem apart : site.infoA.offsetInAtom ≠ site.infoB.offsetInAtom ∧
      site.infoA.offsetInAtom ≠ site.infoC.offsetInAtom ∧
      site.infoB.offsetInAtom ≠ site.infoC.offsetInAtom := by
  have apart := formed.fixups.apart formed.of
  exact ⟨apart.1, apart.2 rfl⟩

theorem makeLiteral_iff : Goes (makeLiteral site ldr) site atom.content ↔
      (withinOneMeg site.infoC.instructionAddress (site.targetAt ldr.offset) ∧
        fourByteAligned (site.targetAt ldr.offset) ∧
        fourByteAligned site.infoC.instructionAddress ∧ ldr.isStore = false ∧
        literalableSize ldr) ∧ adrp.destReg ≠ 31#5 := by
  obtain ⟨apartAB, apartAC, apartBC⟩ := formed.apart
  obtain ⟨decodedC, encodable⟩ := formed.decodedC
  apply goes_literal encodable
  intro word within targetAligned addressAligned _ decoded
  have near := target_near site.infoA.instructionAddress ldr.offset within formed.close.nearC
    (lt_trans encodable.offset_lt (by decide))
  have through := written_iff adrp.destReg adrp.destReg site.infoA.pageFormed
    (pageOffset site.infoA.targetAddress + BitVec.ofNat 64 ldr.offset)
    (site.targetAt ldr.offset) (formed.address_formed near)
  rw [formed.goes_three (by simp [edited, apartAB, apartAC]) (by simp [edited, apartBC])
    (by simp [edited]) decode_nop decode_nop decoded]
  simp only [Machine.transferred, some_inj, Prod.mk.injEq, true_and,
    literal_value within targetAligned addressAligned, eq_comm (a := site.targetAt ldr.offset)]
  rw [through]
  exact and_iff_right rfl

theorem targetAt_aligned
    (large : literalableSize ldr) (aligned : fourByteAligned site.infoA.targetAddress) :
    fourByteAligned (site.targetAt ldr.offset) := by
  have sizes : ∀ size ∈ [1, 2, 4, 8, 16], size ≠ 1 → size ≠ 2 → 4 ∣ size := by decide
  have encodable := formed.decodedC.2
  have four := sizes _ encodable.size_mem large.1 large.2
  obtain ⟨immediate, scaled⟩ := encodable.scaled
  have multiple : 4 ∣ ldr.offset := by
    rw [scaled]
    exact Nat.dvd_mul_left_of_dvd four _
  exact targetAt_of_multiple multiple aligned

theorem adrFaithful_iff (rest : Nat) : AdrFaithful site adrp add rest ↔
      fourByteAligned site.infoA.instructionAddress ∧
        (adrp.destReg = adrp.destReg ∧ adrp.destReg ≠ 31#5 ∧ ldr.baseReg ≠ 31#5 ∨
          adrp.destReg = 31#5 ∧ ldr.baseReg = 31#5 ∧
            pageOffset site.infoA.targetAddress = 0#64 ∧ rest = 0) := by
  rw [AdrFaithful, formed.source, formed.base]

theorem moveOffset_iff
    (within : withinOneMeg site.infoA.instructionAddress (site.targetAt ldr.offset)) :
    Goes (moveOffset site ldr) site atom.content ↔ AdrFaithful site adrp add ldr.offset := by
  obtain ⟨apartAB, apartAC, apartBC⟩ := formed.apart
  obtain ⟨decodedC, encodable⟩ := formed.decodedC
  have near := target_near site.infoA.instructionAddress ldr.offset within (by simp)
    (lt_trans encodable.offset_lt (by decide))
  have compared := adr_iff adrp.destReg adrp.destReg ldr.baseReg site.infoA.pageFormed
    (pageOffset site.infoA.targetAddress) (site.targetAt ldr.offset) 0#64
    (BitVec.ofNat 64 ldr.offset)
    (by rw [BitVec.add_zero, formed.address_formed near])
  have cleared := decode_cleared formed.parsedC
    (formed.ready.valid _ (mem_instructions_C formed.fixups.1))
  have nothing : pageOffset site.infoA.targetAddress + BitVec.ofNat 64 ldr.offset = 0#64 ↔
      pageOffset site.infoA.targetAddress = 0#64 ∧ ldr.offset = 0 := by
    have page := pageOffset_lt site.infoA.targetAddress
    have offset := encodable.offset_lt
    rw [← toNat_inj, ← toNat_inj, toNat_add, toNat_ofNat]
    simp only [toNat_ofNat]
    omega
  rw [formed.adrFaithful_iff, ← nothing, ← compared]
  apply goes_adr _ _ _ within
  intro adr decodedA
  apply goes_transfer (encodable_offset encodable ldr.baseReg 0 (zero_mod _) (by decide))
  intro access _
  rw [formed.goes_three (by simp [edited, apartAB, apartAC]) (by simp [edited, apartBC])
    (by simp [edited]) decodedA decode_nop cleared]
  simp only [Machine.step, Machine.transferred, some_inj, Prod.mk.injEq, true_and, adr_value within]

theorem keepOffset_iff
    (within : withinOneMeg site.infoA.instructionAddress site.infoA.targetAddress) :
    Goes (keepOffset site ldr) site atom.content ↔ AdrFaithful site adrp add 0 := by
  obtain ⟨apartAB, apartAC, apartBC⟩ := formed.apart
  obtain ⟨decodedC, encodable⟩ := formed.decodedC
  have near := target_near site.infoA.instructionAddress 0 (by simpa using within) (by simp)
    (by decide)
  have compared := adr_iff adrp.destReg adrp.destReg ldr.baseReg site.infoA.pageFormed
    (pageOffset site.infoA.targetAddress) site.infoA.targetAddress (BitVec.ofNat 64 ldr.offset)
    (BitVec.ofNat 64 ldr.offset) (formed.address_formed near)
  have nothing : pageOffset site.infoA.targetAddress + BitVec.ofNat 64 ldr.offset =
        BitVec.ofNat 64 ldr.offset ↔
      pageOffset site.infoA.targetAddress = 0#64 ∧ 0 = 0 := by
    rw [and_iff_left rfl]
    exact add_eq_right
  rw [formed.adrFaithful_iff, ← nothing, ← compared]
  apply goes_adr _ _ _ within
  intro adr decodedA
  apply goes_transfer encodable
  intro access decodedAccess
  rw [formed.goes_three (by simp [edited, apartAB, apartAC]) (by simp [edited, apartBC])
    (by simp [edited]) decodedA decode_nop decodedAccess]
  simp only [Machine.step, Machine.transferred, some_inj, Prod.mk.injEq, true_and, adr_value within]

theorem mergeAdd_iff (baseReg : BitVec 5) (whole : site.infoA.targetAddress.toNat % ldr.size = 0)
    (small : add.addend + ldr.offset < 4096) :
    Goes (mergeAdd site { ldr with offset := ldr.offset + add.addend, baseReg })
        site atom.content ↔ baseReg = adrp.destReg := by
  obtain ⟨apartAB, apartAC, apartBC⟩ := formed.apart
  obtain ⟨decodedC, encodable⟩ := formed.decodedC
  have added := formed.fixups.add_offset formed.ready formed.parsedB
  have multiple : (ldr.offset + add.addend) % ldr.size = 0 := by
    obtain ⟨immediate, scaled⟩ := encodable.scaled
    rw [added, pageOffset_toNat, scaled]
    apply mod_eq_zero_of_dvd
    apply dvd_add
    · exact dvd_mul_left _ _
    · exact (dvd_mod_iff encodable.size_dvd).mpr (dvd_of_mod_eq_zero whole)
  have sum : BitVec.ofNat 64 (ldr.offset + add.addend) =
      pageOffset site.infoA.targetAddress + BitVec.ofNat 64 ldr.offset := by
    rw [added, ofNat_add, ofNat_toNat, setWidth_eq, BitVec.add_comm]
  rw [← merged_iff adrp.destReg baseReg site.infoA.pageFormed
    (pageOffset site.infoA.targetAddress + BitVec.ofNat 64 ldr.offset)]
  apply goes_transfer (encodable_offset encodable baseReg _ multiple (by omega))
  intro access decodedAccess
  have untouched : edited atom.content
      [(site.infoB.offsetInAtom, makeNOP), (site.infoC.offsetInAtom, access)]
      site.infoA.offsetInAtom = site.infoA.instruction := by
    simp [edited, apartAB, apartAC, formed.of.wordA]
  rw [formed.goes_three untouched (by simp [edited, apartBC]) (by simp [edited])
    (parsed_adrp formed.parsedA) decode_nop decodedAccess]
  simp only [Machine.step, Machine.transferred, some_inj, Prod.mk.injEq, sum]
  apply forall_congr'
  intro m
  exact and_iff_right rfl

end

end Formed

variable {ldrB ldrC : LoadStoreInfo}

theorem gotLiteral_iff {atom : Atom} {mustBeGOT : Bool} {adrp : AdrpInfo}
    (fixups : FixupsMatch site 2#2 mustBeGOT) (of : site.Of atom)
    (close : site.Close) (ready : site.Ready)
    (parsedA : parseADRP site.infoA.instruction = some adrp)
    (parsedB : parseLoadOrStore site.infoB.instruction = some ldrB)
    (parsedC : parseLoadOrStore site.infoC.instruction = some ldrC) (integer : ldrB.isFloat = false)
    (base : ldrC.baseReg = ldrB.reg) :
    Goes (makeGotLiteral site ldrB) site atom.content ↔
      GotLiteralMakes site ldrB ∧ (ldrB.reg = 31#5 ∨ ThroughAdrp adrp ldrB) := by
  have apart := fixups.apart of
  obtain ⟨decodedB, encodableB, _⟩ := parsed_transfer parsedB
    (ready.valid _ (mem_instructions_B site))
  have decodedC := (parsed_transfer parsedC (ready.valid _ (mem_instructions_C fixups.1))).1
  rw [← literal_makes_iff]
  apply goes_literal encodableB
  intro word within targetAligned addressAligned load decoded
  have near := target_near _ 0 (by simpa using within) close.nearB (by decide)
  have formed := formed_target fixups ready parsedA near
  rw [← fixups.ldr_offset ready parsedB] at formed
  have compared := loaded_iff ldrB.shape integer encodableB.size_pos adrp.destReg ldrB.baseReg
    site.infoA.pageFormed (BitVec.ofNat 64 ldrB.offset) site.infoA.targetAddress
    (BitVec.ofNat 64 ldrC.offset) formed
  have third : edited atom.content
      [(site.infoA.offsetInAtom, makeNOP), (site.infoB.offsetInAtom, word)]
      site.infoC.offsetInAtom = site.infoC.instruction := by
    simp [edited, (apart.2 rfl).1.symm, (apart.2 rfl).2.symm, of.wordC]
  have loads (m : Machine) (address : BitVec 64) :
      m.move ldrB.shape address = m.load ldrB.shape address := by
    rw [Machine.move, if_neg (by simp [LoadStoreInfo.shape, load])]
  rw [goes_ok, preserves_three fixups.1 of, (edited_pair apart.1 _ _).1,
    (edited_pair apart.1 _ _).2, third]
  apply Iff.trans _ compared
  apply forall_congr'
  intro m
  rw [meaning_three decodedC decode_nop decoded decodedC,
    meaning_three decodedC (parsed_adrp parsedA) decodedB decodedC]
  simp only [Machine.step, Machine.transferred, map_some, some_inj,
    Meaning.moves.injEq, true_and, literal_value within targetAligned addressAligned, loads, base]
  rfl

section Kinds

variable {site : Site} {atom : Atom}

theorem goes_guarded {guard meant : Prop} [Decidable guard] {result : Result}
    (each : guard → (Goes result site atom.content ↔ meant)) :
    Goes (if guard then result else .ok []) site atom.content ↔ (guard → meant) :=
  guarded_iff (P := (Goes · site atom.content)) goes_untouched each

theorem goes_chosen {guard condition meant : Prop} [Decidable guard] [Decidable condition]
    {result merged : Result} (each : guard → (Goes result site atom.content ↔ meant))
    (merges : condition → Goes merged site atom.content) :
    Goes (if guard then result else if condition then merged else .ok []) site atom.content ↔
      (guard → meant) := by
  split
  next holds =>
    rw [each holds]
    simp [holds]
  rename_i fails
  simp only [fails, false_implies, iff_true]
  split
  next whole =>
    exact merges whole
  · exact goes_untouched

theorem withinOneMeg_comm (addr1 addr2 : BitVec 64) :
    withinOneMeg addr1 addr2 = withinOneMeg addr2 addr1 := by
  unfold withinOneMeg
  rw [decide_eq_decide, toInt_eq_toNat_cond, toInt_eq_toNat_cond, toNat_sub, toNat_sub]
  omega

variable (of : site.Of atom) (ready : site.Ready)

include of ready

theorem adrpAdd_iff (passed : adrpAdd site ≠ .error .ignored) :
    Goes (adrpAdd site) site atom.content ↔ Faithful site .adrpAdd := by
  unfold adrpAdd at passed ⊢
  refine start_elim passed fun fixups adrp parsedA passed => ?_
  refine checked_elim passed fun add parsedB source _ => ?_
  simp only [Faithful, parsedA, parsedB, some_inj, forall_eq', adrpAddCondition]
  rw [withinOneMeg_comm]
  exact goes_guarded fun guard =>
    adr_two_iff fixups of ready parsedA parsedB guard.2

variable (close : site.Close)

include close

theorem adrpLdr_iff (passed : adrpLdr site ≠ .error .ignored) :
    Goes (adrpLdr site) site atom.content ↔ Faithful site .adrpLdr := by
  unfold adrpLdr at passed ⊢
  refine start_elim passed fun fixups adrp parsedA passed => ?_
  simp only [Faithful, parsedA, some_inj, forall_eq']
  cases parsedB : parseLoadOrStore site.infoB.instruction with
  | none =>
    rw [parsedB] at passed
    refine lohAssert_elim passed fun _ _ => ?_
    simp [goes_untouched]
  | some ldr =>
    rw [parsedB] at passed
    dsimp only at passed ⊢
    refine lohAssert_elim passed fun ⟨base, _⟩ _ => ?_
    simp only [some_inj, forall_eq', adrpLdrCondition]
    refine goes_guarded fun guard => ?_
    have literal := literal_two_iff fixups of close ready parsedA parsedB
    unfold makeGotLiteral GotLiteralMakes ThroughAdrp at literal
    rw [literal, LiteralFaithful]
    tauto

theorem adrpLdrGot_iff (passed : adrpLdrGot site ≠ .error .ignored) :
    Goes (adrpLdrGot site) site atom.content ↔ Faithful site .adrpLdrGot := by
  unfold adrpLdrGot at passed ⊢
  refine lohAssert_elim passed fun fixups passed => ?_
  cases parsedA : parseADRP site.infoA.instruction with
  | none => simp [Faithful, parsedA, goes_untouched]
  | some adrp =>
    rw [parsedA] at passed
    simp only [Faithful, parsedA, some_inj, forall_eq']
    refine got_iff (P := (Goes · site atom.content)) goes_untouched (fun ldr parsedB _ => ?_)
      (fun add parsedB _ => ?_) rfl passed
    · exact goes_guarded fun _ => literal_two_iff fixups of close ready parsedA parsedB
    · exact goes_guarded fun guard => adr_two_iff fixups of ready parsedA parsedB guard.2

theorem adrpAddLdr_iff (passed : adrpAddLdr site ≠ .error .ignored) :
    Goes (adrpAddLdr site) site atom.content ↔ Faithful site .adrpAddLdr := by
  unfold adrpAddLdr at passed ⊢
  refine start_elim passed fun fixups adrp parsedA passed => ?_
  refine checked_elim passed fun add parsedB source passed => ?_
  refine checked_elim passed fun ldr parsedC base _ => ?_
  have formed : Formed site atom false adrp add ldr :=
    ⟨fixups, of, close, ready, parsedA, parsedB, parsedC, source.symm, base⟩
  simp only [Faithful, parsedA, parsedB, parsedC, some_inj, forall_eq', adrpAddLdrCondition]
  refine branches_iff (P := (Goes · site atom.content)) (fun literal => ?_) fun _ => ?_
  · rw [formed.makeLiteral_iff, LiteralFaithful]
    tauto
  refine goes_chosen (fun guard => formed.moveOffset_iff guard.2) fun whole => ?_
  rw [← fixups.2.2.2.2.2] at whole
  have small := formed.addend_lt
  exact (formed.mergeAdd_iff adrp.destReg whole.1 (by omega)).mpr rfl

theorem adrpAddStr_iff (passed : adrpAddStr site ≠ .error .ignored) :
    Goes (adrpAddStr site) site atom.content ↔ Faithful site .adrpAddStr := by
  unfold adrpAddStr at passed ⊢
  refine start_elim passed fun fixups adrp parsedA passed => ?_
  refine checked_elim passed fun add parsedB source passed => ?_
  refine checked_elim passed fun ldr parsedC _ passed => ?_
  refine lohAssert_elim passed fun base _ => ?_
  have formed : Formed site atom false adrp add ldr :=
    ⟨fixups, of, close, ready, parsedA, parsedB, parsedC, source.symm, base⟩
  simp only [Faithful, parsedA, parsedB, parsedC, some_inj, forall_eq', adrpAddStrCondition]
  refine branches_iff (P := (Goes · site atom.content))
    (fun guard => formed.moveOffset_iff guard.2) fun _ => goes_guarded fun whole => ?_
  rw [← fixups.2.2.2.2.2] at whole
  have small := formed.addend_lt
  rw [formed.mergeAdd_iff ldr.baseReg whole.1 (by omega), base]

theorem gotLoad_iff (fixups : FixupsMatch site 2#2 true) {adrp : AdrpInfo}
    (parsedA : parseADRP site.infoA.instruction = some adrp)
    (parsedB : parseLoadOrStore site.infoB.instruction = some ldrB)
    (parsedC : parseLoadOrStore site.infoC.instruction = some ldrC)
    (passed : gotLoad site ldrB ldrC ≠ .error .ignored) :
    Goes (gotLoad site ldrB ldrC) site atom.content ↔ gotLoadCondition site adrp ldrB ldrC := by
  unfold gotLoad at passed ⊢
  refine lohAssert_elim passed fun ⟨_, integer, base⟩ _ => ?_
  exact goes_guarded fun _ =>
    gotLiteral_iff fixups of close ready parsedA parsedB parsedC (by simpa using integer) base

theorem adrpLdrGotLdr_iff (passed : adrpLdrGotLdr site ≠ .error .ignored) :
    Goes (adrpLdrGotLdr site) site atom.content ↔ Faithful site .adrpLdrGotLdr := by
  unfold adrpLdrGotLdr at passed ⊢
  refine start_elim passed fun fixups adrp parsedA passed => ?_
  refine lohParse_elim passed fun ldr parsedC passed => ?_
  simp only [Faithful, parsedA, parsedC, some_inj, forall_eq']
  refine got_iff (P := (Goes · site atom.content)) goes_untouched (fun ldrB parsedB passed =>
    gotLoad_iff of ready close fixups parsedA parsedB parsedC passed)
    (fun add parsedB passed => ?_) rfl passed
  refine lohAssert_elim passed fun ⟨source, base⟩ _ => ?_
  have formed : Formed site atom true adrp add ldr :=
    ⟨fixups, of, close, ready, parsedA, parsedB, parsedC, source, base⟩
  refine branches_iff (P := (Goes · site atom.content)) (fun literal => ?_) fun _ => ?_
  · have aligned := formed.targetAt_aligned literal.2.1 literal.2.2.1
    rw [formed.makeLiteral_iff, LiteralFaithful]
    tauto
  exact goes_chosen (fun guard => formed.keepOffset_iff guard.2) fun whole =>
    (formed.mergeAdd_iff adrp.destReg whole.1 whole.2).mpr rfl

theorem adrpLdrGotStr_iff (passed : adrpLdrGotStr site ≠ .error .ignored) :
    Goes (adrpLdrGotStr site) site atom.content ↔ Faithful site .adrpLdrGotStr := by
  unfold adrpLdrGotStr at passed ⊢
  refine start_elim passed fun fixups adrp parsedA passed => ?_
  refine checked_elim passed fun ldr parsedC _ passed => ?_
  simp only [Faithful, parsedA, parsedC, some_inj, forall_eq']
  refine got_iff (P := (Goes · site atom.content)) goes_untouched (fun ldrB parsedB passed =>
    gotLoad_iff of ready close fixups parsedA parsedB parsedC passed)
    (fun add parsedB passed => ?_) rfl passed
  refine lohAssert_elim passed fun ⟨source, base⟩ _ => ?_
  have formed : Formed site atom true adrp add ldr :=
    ⟨fixups, of, close, ready, parsedA, parsedB, parsedC, source, base⟩
  have small := formed.addend_lt
  exact goes_chosen (fun guard => formed.keepOffset_iff guard.2) fun whole =>
    (formed.mergeAdd_iff adrp.destReg whole.1 (by omega)).mpr rfl

end Kinds

/-- A hint whose checks pass goes through and leaves the meaning of its instructions exactly when
its registers and addresses meet the condition of its kind. -/
theorem hints_faithful_iff (options : Options) (atom : Atom) (hint : Hint)
    (ready : (siteOf options atom hint).Ready)
    (passed : applyHint options atom hint ≠ .error .ignored) :
    (∃ edits, applyHint options atom hint = .ok edits ∧
        Preserves (siteOf options atom hint) atom.content edits) ↔
      Faithful (siteOf options atom hint) hint.kind := by
  have of : (siteOf options atom hint).Of atom := ⟨rfl, rfl, rfl, rfl, rfl, rfl⟩
  have close : (siteOf options atom hint).Close :=
    ⟨setInfo_near atom hint.offsetInAtom hint.delta1 hint.delta2,
      setInfo_near atom hint.offsetInAtom hint.delta1 hint.delta3⟩
  obtain ⟨kind, count, offsetInAtom, delta1, delta2, delta3⟩ := hint
  cases kind with
  | adrpLdr => exact adrpLdr_iff of ready close passed
  | adrpAddLdr => exact adrpAddLdr_iff of ready close passed
  | adrpLdrGotLdr => exact adrpLdrGotLdr_iff of ready close passed
  | adrpAddStr => exact adrpAddStr_iff of ready close passed
  | adrpLdrGotStr => exact adrpLdrGotStr_iff of ready close passed
  | adrpAdd => exact adrpAdd_iff of ready passed
  | adrpLdrGot => exact adrpLdrGot_iff of ready close passed

def pageFixup (store : StoreKind) (targetAddress : BitVec 64) : Fixup :=
  { clustered := false, store, target := 1, targetSegmentName := "__DATA", targetAddress }

def threeInstructions (targetAddress : BitVec 64) (adrp add access : BitVec 32) : Atom where
  finalAddress := 0x100000000#64
  segmentName := "__TEXT"
  content := fun offset => if offset = 0 then adrp else if offset = 4 then add else access
  usedByHints := fun offset =>
    if offset = 0 then some (pageFixup (.page21 .page) targetAddress)
    else if offset = 4 then some (pageFixup (.pageOff12 .pageOff) targetAddress)
    else none

def executable : Options :=
  { architecture := .arm64, sharedRegionEligible := false, sharedRegionEncodingV2 := false }

def threeInstructionsHint (kind : HintKind) : Hint :=
  { kind, count := 2#2, offsetInAtom := 0, delta1 := 0#14, delta2 := 1#14, delta3 := 2#14 }

theorem threeInstructions_ready {kind : HintKind} {targetAddress : BitVec 64}
    {adrp add access : BitVec 32} (page : storePage21 adrp 0x100000000#64 targetAddress = some adrp)
    (offset : storePageOff12 .pageOff add targetAddress = some add)
    (validA : decode adrp ≠ none) (validB : decode add ≠ none) (validC : decode access ≠ none) :
    (siteOf executable (threeInstructions targetAddress adrp add access)
      (threeInstructionsHint kind)).Ready := by
  constructor
  · intro info among fixup found
    simp only [Site.instructions, siteOf, threeInstructionsHint, setInfo, threeInstructions,
      BitVec.reduceEq, if_false, mem_cons, not_mem_nil, or_false] at among
    rcases among with rfl | rfl | rfl
    · cases found
      exact Or.inr ⟨adrp, page⟩
    · cases found
      exact Or.inr ⟨add, offset⟩
    · cases found
  · intro info among
    simp only [Site.instructions, siteOf, threeInstructionsHint, setInfo, threeInstructions,
      BitVec.reduceEq, if_false, mem_cons, not_mem_nil, or_false] at among
    rcases among with rfl | rfl | rfl
    · exact validA
    · exact validB
    · exact validC

/-- `ldr x0, [x9]` with the target 16K away. -/
def nearLoad : Atom := threeInstructions 0x100004010#64 0x90000028#32 0x91004109#32 0xF9400120#32

/-- `str x0, [x9]` with the target 2M away. -/
def farStore : Atom := threeInstructions 0x100204010#64 0x90001028#32 0x91004109#32 0xF9000120#32

theorem near_load_preserved : applyHint executable nearLoad (threeInstructionsHint .adrpAddLdr) =
        .ok [(0, 0xD503201F#32), (4, 0xD503201F#32), (8, 0x58020040#32)] ∧
      ∃ edits, applyHint executable nearLoad (threeInstructionsHint .adrpAddLdr) = .ok edits ∧
        Preserves (siteOf executable nearLoad (threeInstructionsHint .adrpAddLdr))
          nearLoad.content edits := by
  have applied : applyHint executable nearLoad (threeInstructionsHint .adrpAddLdr) =
      .ok [(0, 0xD503201F#32), (4, 0xD503201F#32), (8, 0x58020040#32)] := by
    decide +kernel
  have ready : (siteOf executable nearLoad (threeInstructionsHint .adrpAddLdr)).Ready :=
    threeInstructions_ready (by decide) (by decide) (by decide) (by decide) (by decide)
  refine ⟨applied, (hints_faithful_iff _ _ _ ready (by rw [applied]; exact nofun)).mpr ?_⟩
  intro adrp parsedA add parsedB ldr parsedC
  cases parsedA
  cases parsedB
  cases parsedC
  exact ⟨rfl, by decide, by decide⟩

/-- The base register of the store is still x9, which nothing sets any more. -/
theorem far_store_misplaced :
    (siteOf executable farStore (threeInstructionsHint .adrpAddStr)).Ready ∧
      applyHint executable farStore (threeInstructionsHint .adrpAddStr) =
        .ok [(4, 0xD503201F#32), (8, 0xF9000920#32)] ∧
      ¬ Preserves (siteOf executable farStore (threeInstructionsHint .adrpAddStr))
        farStore.content [(4, 0xD503201F#32), (8, 0xF9000920#32)] := by
  refine ⟨threeInstructions_ready (by decide) (by decide) (by decide) (by decide) (by decide),
    by decide +kernel, ?_⟩
  intro preserves
  have here := preserves (machineWith (fun _ => 0#64) fun _ => 0#8)
  revert here
  decide +kernel

end DeveloperTools.Ld64.OptimizationHints
