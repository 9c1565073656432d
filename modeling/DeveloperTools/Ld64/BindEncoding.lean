import Mathlib.Data.List.TakeWhile
import DeveloperTools.Ld64.BindOpcodes

/-!
Each phase replaces opcodes by one with the same effect, and the bytes written
carry out the opcodes of the buffer.
-/

namespace DeveloperTools.Ld64.BindOpcodes

open Nibbles
open RebaseOpcodes (padToSize)
open List Option BitVec

/-- An operand that is written into the opcode byte has four bits, and a name
that is written ends at its NUL. -/
def BindingTmp.Encodable (tmp : BindingTmp) : Prop :=
  match tmp.opcode with
  | .setDylibOrdinalImm | .setTypeImm | .setSegmentAndOffsetUleb | .doBindAddAddrImmScaled =>
    tmp.operand1 < 16
  | .setSymbolTrailingFlagsImm => tmp.operand1 < 16 ∧ 0 ∉ tmp.name
  | _ => True

theorem Machine.add_add (machine : Machine) (first second : Nat) :
    (machine.add first).add second = machine.add (first + second) := by
  simp only [Machine.add, Nat.mod_add_mod, Nat.add_assoc]

section Passes

variable (layout : List Segment) (pointerSize : Nat)

theorem bind_then_add (tmp : BindingTmp) (adds : tmp.opcode = .addAddrUleb) :
    bindOnce pointerSize 0 * tmp.meaning layout pointerSize =
      bindOnce pointerSize tmp.operand1 := by
  funext machine
  rw [Transducer.mul_apply, BindingTmp.meaning, adds]
  simp only [bindOnce, Machine.add_add, Nat.add_zero, append_nil]

theorem bind_add_pairs_sound :
    bindAddPairs.Sound (BindingTmp.meaning layout pointerSize) BindingTmp.Encodable := by
  apply InPlacePass.sound_of_rounds fun _ => rfl
  intro src rest old alive
  cases rest with
  | nil => exact .inl rfl
  | cons next rest =>
    dsimp only [bindAddPairs]
    split
    next pair =>
      refine .inr ⟨_, _, rfl, rfl, ?_, ?_, trivial⟩
      · simp [InPlacePass.contents, isDone, pair.2]
      have first : src.meaning layout pointerSize = bindOnce pointerSize 0 := by
        rw [BindingTmp.meaning, pair.1]
      rw [first, take_succ_cons, take_zero, Transducer.program_cons,
        Transducer.program_nil, mul_one, bind_then_add layout pointerSize next pair.2]
      rfl
    · exact .inl rfl

theorem skipping_runs_sound :
    skippingRuns.Sound (BindingTmp.meaning layout pointerSize) BindingTmp.Encodable := by
  apply InPlacePass.sound_of_rounds fun _ => rfl
  intro src rest old alive
  dsimp only [skippingRuns]
  split
  · split
    next second rest pair =>
      refine .inr ⟨_, _, rfl, rfl, ?_, ?_, trivial⟩
      · apply InPlacePass.run_within
        intro slot member
        simp [isDone, (of_decide_eq_true member).1]
      have skips : ∀ tmp ∈ (second :: rest).takeWhile fun tmp =>
          decide (tmp.opcode = .doBindAddAddrUleb ∧ tmp.operand1 = src.operand1),
          tmp.meaning layout pointerSize = bindOnce pointerSize src.operand1 := by
        intro tmp member
        have inside := mem_takeWhile_imp member
        obtain ⟨kind, delta⟩ := of_decide_eq_true inside
        rw [BindingTmp.meaning, kind, delta]
      rw [InPlacePass.take_run, Transducer.program_of_same _ skips]
      simp only [BindingTmp.meaning, pair.1]
      rw [Nat.add_comm, pow_succ']
    · exact .inl rfl
  · exact .inl rfl

variable {tmp : BindingTmp}

theorem scaled_meaning (scalable : tmp.scalable pointerSize = true) :
    bindOnce pointerSize (tmp.operand1 / pointerSize * pointerSize) =
      tmp.meaning layout pointerSize := by
  obtain ⟨kind, -, whole⟩ := of_decide_eq_true scalable
  rw [Nat.div_mul_cancel (Nat.dvd_of_mod_eq_zero whole), BindingTmp.meaning, kind]

theorem scaled_small (scalable : tmp.scalable pointerSize = true) :
    tmp.operand1 / pointerSize < 16 := by
  obtain ⟨-, bound, -⟩ := of_decide_eq_true scalable
  have quotient := Nat.div_lt_of_lt_mul (bound.trans_eq (Nat.mul_comm _ _))
  omega

theorem weak_immediate_meaning (tmp : BindingTmp) :
    (tmp.weakImmediate pointerSize).meaning layout pointerSize =
      tmp.meaning layout pointerSize := by
  unfold BindingTmp.weakImmediate
  split
  next scalable =>
    exact scaled_meaning layout pointerSize scalable
  · rfl

theorem weak_immediate_encodable (encodable : tmp.Encodable) :
    (tmp.weakImmediate pointerSize).Encodable := by
  unfold BindingTmp.weakImmediate
  split
  next scalable =>
    exact scaled_small pointerSize scalable
  · exact encodable

theorem weak_immediate_live (alive : isDone tmp = false) :
    isDone (tmp.weakImmediate pointerSize) = false := by
  unfold BindingTmp.weakImmediate
  split
  · rfl
  · exact alive

theorem immediate_cases (tmp : BindingTmp) :
    tmp.immediate pointerSize = tmp.weakImmediate pointerSize ∨
      (tmp.opcode = .setDylibOrdinalUleb ∧ tmp.operand1 ≤ 15 ∧
        tmp.immediate pointerSize = { tmp with opcode := .setDylibOrdinalImm }) := by
  unfold BindingTmp.immediate BindingTmp.weakImmediate
  split
  · exact Or.inl rfl
  split
  next small =>
    exact Or.inr ⟨small.1, small.2, rfl⟩
  · exact Or.inl rfl

theorem immediate_meaning (tmp : BindingTmp) :
    (tmp.immediate pointerSize).meaning layout pointerSize = tmp.meaning layout pointerSize := by
  rcases immediate_cases pointerSize tmp with same | ⟨kind, -, ordinal⟩
  · rw [same, weak_immediate_meaning]
  · rw [ordinal, BindingTmp.meaning, BindingTmp.meaning, kind]

theorem immediate_encodable (encodable : tmp.Encodable) :
    (tmp.immediate pointerSize).Encodable := by
  rcases immediate_cases pointerSize tmp with same | ⟨-, small, ordinal⟩
  · rw [same]
    exact weak_immediate_encodable pointerSize encodable
  · rw [ordinal]
    exact Nat.lt_succ_of_le small

section

variable (alive : isDone tmp = false)
include alive

theorem immediate_live : isDone (tmp.immediate pointerSize) = false := by
  rcases immediate_cases pointerSize tmp with same | ⟨-, -, ordinal⟩
  · rw [same]
    exact weak_immediate_live pointerSize alive
  · rw [ordinal]
    rfl

theorem read_opcode_bytes (encodable : tmp.Encodable) (rest : Bytes) :
    ∃ read, readOpcode (tmp.bytes ++ rest) = some (read, rest) ∧ isDone read = false ∧
      read.meaning layout pointerSize = tmp.meaning layout pointerSize := by
  obtain ⟨op, operand1, operand2, name⟩ := tmp
  cases op with
  | done => cases alive
  | setDylibOrdinalImm | setTypeImm | setSegmentAndOffsetUleb | doBindAddAddrImmScaled =>
    have small : operand1 < 16 := encodable
    simp [BindingTmp.bytes, Opcode.code, readOpcode, small, Leb128.decode_encode, isDone]
    rfl
  | setDylibSpecialImm =>
    have small : operand1 &&& 0x0F < 16 := Nat.lt_succ_of_le Nat.and_le_right
    simp [BindingTmp.bytes, Opcode.code, readOpcode, small, isDone]
    simp only [BindingTmp.meaning, Nat.and_assoc, Nat.and_self]
    rfl
  | setSymbolTrailingFlagsImm =>
    obtain ⟨small, noNul⟩ : operand1 < 16 ∧ 0 ∉ name := encodable
    simp [BindingTmp.bytes, Opcode.code, readOpcode, small, read_string_written noNul, isDone]
    rfl
  | setAddendSleb =>
    simp [BindingTmp.bytes, Opcode.code, readOpcode, Leb128.decode_signed_encode, isDone]
    simp only [BindingTmp.meaning, signed, unsigned, ofInt_toInt, ofNat_toNat, setWidth_eq]
    rfl
  | threadedApply =>
    have number : opcode (pack 0xD1 0) = 13 := by decide
    have subopcode : immediate (pack 0xD1 0) = 1 := by decide
    simp [BindingTmp.bytes, Opcode.code, readOpcode, number, subopcode, isDone]
    rfl
  | _ =>
    simp [BindingTmp.bytes, Opcode.code, readOpcode, Leb128.decode_encode, isDone]
    rfl

theorem bytes_positive : 0 < tmp.bytes.length := by
  obtain ⟨op, operand1, operand2, name⟩ := tmp
  cases op with
  | done => cases alive
  | _ => exact Nat.succ_pos _

theorem bind_readable (encodable : tmp.Encodable) : (bindCode layout pointerSize).Readable tmp where
  live := alive
  positive := bytes_positive alive
  reads := read_opcode_bytes layout pointerSize alive encodable

theorem weak_bytes_of_live : tmp.weakBytes = tmp.bytes := by
  obtain ⟨op, operand1, operand2, name⟩ := tmp
  cases op with
  | done => cases alive
  | _ => rfl

theorem weak_bind_readable (encodable : tmp.Encodable) :
    (weakBindCode layout pointerSize).Readable tmp where
  live := alive
  positive := by
    change 0 < tmp.weakBytes.length
    rw [weak_bytes_of_live alive]
    exact bytes_positive alive
  reads rest := by
    change ∃ read, readOpcode (tmp.weakBytes ++ rest) = _ ∧ _
    rw [weak_bytes_of_live alive]
    exact read_opcode_bytes layout pointerSize alive encodable rest

end

theorem zero_reads_done (rest : Bytes) :
    ∃ read left, readOpcode (0 :: rest) = some (read, left) ∧ isDone read = true :=
  ⟨doneTmp, rest, rfl, rfl⟩

def Writable (ops : List BindingTmp) : Prop := ∀ tmp ∈ ops, isDone tmp = false ∧ tmp.Encodable

variable {layout pointerSize}

theorem passes_sound {State Seen : Type} {meaning : BindingTmp → Transducer State Seen}
    {valid : BindingTmp → Prop} (pairs : bindAddPairs.Sound meaning valid)
    (runs : skippingRuns.Sound meaning valid)
    {ops : List BindingTmp} (fits : ∀ tmp ∈ ops, isDone tmp = false ∧ valid tmp) :
    ∃ paired skipped out stop left, bindAddPairs.run (ops ++ [doneTmp]) = some paired ∧
      skippingRuns.run paired = some skipped ∧ skipped = out ++ stop :: left ∧
      isDone stop = true ∧ (∀ tmp ∈ out, isDone tmp = false ∧ valid tmp) ∧
      Transducer.program meaning out = Transducer.program meaning ops := by
  have start : bindAddPairs.Holds (ops ++ [doneTmp]) ops :=
    ⟨fun tmp member => (fits tmp member).1, doneTmp, [], rfl, rfl⟩
  obtain ⟨paired, out1, ran1, held1, valid1, meant1⟩ :=
    InPlacePass.run_sound pairs start fun tmp member => (fits tmp member).2
  obtain ⟨skipped, out, ran2, held2, valid2, meant2⟩ := InPlacePass.run_sound runs held1 valid1
  obtain ⟨alive, stop, left, done, content⟩ := held2
  exact ⟨paired, skipped, out, stop, left, ran1, ran2, content, done,
    fun tmp member => ⟨alive tmp member, valid2 tmp member⟩, meant2.trans meant1⟩

end Passes

section Atoms

variable {Pointer : Type} [DecidableEq Pointer] {string : Pointer → CString}
  {sorter : Sorter Pointer} {sections : List FinalSection} {pointerSize : Nat}
  {info : List (BindingInfo Pointer)} {ops : List BindingTmp}

def codeWith {State Seen : Type} (meaning : BindingTmp → Transducer State Seen) :
    Bytecode BindingTmp State Seen where
  done := isDone
  write := BindingTmp.bytes
  read := readOpcode
  meaning := meaning

/-- The phases and the byte stream keep every meaning of the opcodes that the phases keep and
that tells no opcodes of one effect apart. -/
theorem encode_v1_carried {State Seen : Type} {meaning : BindingTmp → Transducer State Seen}
    (pairs : bindAddPairs.Sound meaning BindingTmp.Encodable)
    (runs : skippingRuns.Sound meaning BindingTmp.Encodable)
    (coarse : ∀ first second : BindingTmp, first.meaning (segments sections) pointerSize =
        second.meaning (segments sections) pointerSize → meaning first = meaning second)
    (writable : Writable ops)
    (made : bindingTmps (Encoder.step string sections pointerSize)
      (sorter.sort (BindingInfo.less string) info) {} = some ops) (start : State) :
    ∃ stream, encodeV1 string sorter sections pointerSize info = some stream ∧
      (codeWith meaning).interpret stream.length stream start =
        some (Transducer.program meaning ops start).2 := by
  obtain ⟨paired, skipped, out, stop, left, ran1, ran2, content, done, fits, meant⟩ :=
    passes_sound pairs runs writable
  have encoded : encodeV1 string sorter sections pointerSize info =
      some (padToSize pointerSize (writeBuffer isDone BindingTmp.bytes
        (rewriteBuffer isDone (BindingTmp.immediate pointerSize) skipped))) := by
    rw [encodeV1, made]
    simp only [bind_eq_bind, bind_some, ran1, ran2]
  refine ⟨_, encoded, ?_⟩
  rw [← meant]
  apply Bytecode.interpret_rewritten content (fun tmp member => (fits tmp member).1) done
    (fun _ => immediate_live pointerSize)
    (fun tmp => coarse _ _ (immediate_meaning (segments sections) pointerSize tmp))
  · intro old member
    have alive := immediate_live pointerSize (fits old member).1
    have readable := bind_readable (segments sections) pointerSize alive
      (immediate_encodable pointerSize (fits old member).2)
    refine ⟨alive, readable.positive, fun rest => ?_⟩
    obtain ⟨read, reads, live, same⟩ := readable.reads rest
    exact ⟨read, reads, live, coarse _ _ same⟩
  · have nothing : stop.bytes = [] := by
      rw [BindingTmp.bytes, of_decide_eq_true done]
    change (codeWith meaning).Stops (stop.bytes ++ _)
    rw [nothing, nil_append]
    exact Bytecode.stops_at_zeros zero_reads_done _

theorem encode_v1_interpreted (writable : Writable ops)
    (made : bindingTmps (Encoder.step string sections pointerSize)
      (sorter.sort (BindingInfo.less string) info) {} = some ops) :
    ∃ stream, encodeV1 string sorter sections pointerSize info = some stream ∧
      interpret (segments sections) pointerSize stream =
        some (Transducer.program (BindingTmp.meaning (segments sections) pointerSize) ops {}).2 :=
  encode_v1_carried (bind_add_pairs_sound _ _) (skipping_runs_sound _ _) (fun _ _ => id) writable
    made {}

theorem weak_encode_interpreted (writable : Writable ops) (nonempty : info ≠ [])
    (made : bindingTmps (Encoder.weakStep string sections pointerSize)
      (sorter.sort (BindingInfo.weakLess string) info) {} = some ops) :
    ∃ stream, weakEncode string sorter sections pointerSize info = some stream ∧
      interpret (segments sections) pointerSize stream =
        some (Transducer.program (BindingTmp.meaning (segments sections) pointerSize) ops {}).2 := by
  obtain ⟨paired, skipped, out, stop, left, ran1, ran2, content, done, fits, meant⟩ :=
    passes_sound (bind_add_pairs_sound (segments sections) pointerSize)
      (skipping_runs_sound (segments sections) pointerSize) writable
  have encoded : weakEncode string sorter sections pointerSize info =
      some (padToSize pointerSize (writeBuffer isDone BindingTmp.weakBytes
        (rewriteBuffer isDone (BindingTmp.weakImmediate pointerSize) skipped))) := by
    rw [weakEncode, if_neg nonempty, made]
    simp only [bind_eq_bind, bind_some, ran1, ran2]
  refine ⟨_, encoded, ?_⟩
  rw [← meant, interpret, ← Bytecode.interpret_with_write _ BindingTmp.weakBytes]
  apply Bytecode.interpret_rewritten content (fun tmp member => (fits tmp member).1) done
    (fun _ => weak_immediate_live pointerSize)
    (weak_immediate_meaning (segments sections) pointerSize)
  · intro old member
    exact weak_bind_readable _ _ (weak_immediate_live pointerSize (fits old member).1)
      (weak_immediate_encodable pointerSize (fits old member).2)
  have zero : stop.weakBytes = [0] := by
    rw [BindingTmp.weakBytes, of_decide_eq_true done]
    rfl
  change (weakBindCode (segments sections) pointerSize).Stops (stop.weakBytes ++ _)
  rw [zero, singleton_append, ← List.replicate_succ]
  exact Bytecode.stops_at_zeros zero_reads_done _

end Atoms

end DeveloperTools.Ld64.BindOpcodes
