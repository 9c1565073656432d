import Mathlib.Data.List.TakeWhile
import DeveloperTools.Ld64.RebaseOpcodes

/-!
Each phase of `encodeV1` replaces opcodes by one with the same effect, and the
bytes written carry out the opcodes of the buffer.
-/

namespace DeveloperTools.Ld64.RebaseOpcodes

open Nibbles
open List Transducer

def RebaseTmp.Encodable (tmp : RebaseTmp) : Prop :=
  tmp.opcode = .setTypeImm ∨ tmp.opcode = .setSegmentAndOffsetUleb ∨
    tmp.opcode = .addAddrImmScaled ∨ tmp.opcode = .doRebaseImmTimes → tmp.operand1 < 16

theorem Machine.add_add (machine : Machine) (first second : Nat) :
    (machine.add first).add second = machine.add (first + second) := by
  simp only [Machine.add, Nat.mod_add_mod, Nat.add_assoc]

section Passes

variable (layout : List Segment) (pointerSize : Nat)

theorem program_of_rebases {run : List RebaseTmp}
    (rebases : ∀ tmp ∈ run, tmp.opcode = .doRebaseUlebTimes) :
    Transducer.program (RebaseTmp.meaning layout pointerSize) run =
      rebaseOnce pointerSize 0 ^ (run.map RebaseTmp.operand1).sum := by
  induction run with
  | nil => rfl
  | cons tmp run ih =>
    have first : tmp.meaning layout pointerSize = rebaseOnce pointerSize 0 ^ tmp.operand1 := by
      rw [RebaseTmp.meaning, rebases tmp mem_cons_self]
    rw [program_cons, first,
      ih fun other member => rebases other (.tail _ member),
      map_cons, sum_cons, pow_add]

theorem packed_runs_sound :
    packedRuns.Sound (RebaseTmp.meaning layout pointerSize) RebaseTmp.Encodable := by
  apply InPlacePass.sound_of_rounds fun _ => rfl
  intro src rest old alive
  dsimp only [packedRuns]
  split
  next single =>
    refine .inr ⟨_, _, rfl, alive, ?_, ?_, by simp [RebaseTmp.Encodable, single.1]⟩
    · apply InPlacePass.run_within
      intro slot member
      have rebase : slot.opcode = .doRebaseUlebTimes := of_decide_eq_true member
      simp [isDone, rebase]
    have run : ∀ tmp ∈ rest.takeWhile fun tmp => decide (tmp.opcode = .doRebaseUlebTimes),
        tmp.opcode = .doRebaseUlebTimes := by
      intro tmp member
      have inside := mem_takeWhile_imp member
      exact of_decide_eq_true inside
    rw [InPlacePass.take_run, program_of_rebases layout pointerSize run]
    simp only [RebaseTmp.meaning, single.1, pow_add]
  · exact .inl rfl

theorem rebase_then_add (skip : Nat) (tmp : RebaseTmp) (adds : tmp.opcode = .addAddrUleb)
    (amount : tmp.operand1 = skip) :
    rebaseOnce pointerSize 0 ^ 1 * tmp.meaning layout pointerSize = rebaseOnce pointerSize skip := by
  funext machine
  rw [pow_one, mul_apply, RebaseTmp.meaning, adds]
  simp only [rebaseOnce, Machine.add_add, Nat.add_zero, append_nil, amount]

theorem rebase_add_pairs_sound :
    rebaseAddPairs.Sound (RebaseTmp.meaning layout pointerSize) RebaseTmp.Encodable := by
  apply InPlacePass.sound_of_rounds fun _ => rfl
  intro src rest old alive
  cases rest with
  | nil => exact .inl rfl
  | cons next rest =>
    dsimp only [rebaseAddPairs]
    split
    next pair =>
      refine .inr ⟨_, _, rfl, rfl, ?_, ?_, by simp [RebaseTmp.Encodable]⟩
      · simp [InPlacePass.contents, isDone, pair.2.2]
      have first : src.meaning layout pointerSize = rebaseOnce pointerSize 0 ^ 1 := by
        rw [RebaseTmp.meaning, pair.1, pair.2.1]
      rw [first, take_succ_cons, take_zero, program_cons,
        program_nil, mul_one,
        rebase_then_add layout pointerSize next.operand1 next pair.2.2 rfl]
      rfl
    · exact .inl rfl

theorem skipping_runs_sound :
    skippingRuns.Sound (RebaseTmp.meaning layout pointerSize) RebaseTmp.Encodable := by
  apply InPlacePass.sound_of_rounds fun _ => rfl
  intro src rest old alive
  dsimp only [skippingRuns]
  split
  · split
    next second third rest triple =>
      refine .inr ⟨_, _, rfl, rfl, ?_, ?_, by simp [RebaseTmp.Encodable]⟩
      · apply InPlacePass.run_within
        intro slot member
        simp [isDone, (of_decide_eq_true member).1]
      have skips : ∀ tmp ∈ (second :: third :: rest).takeWhile fun tmp =>
          decide (tmp.opcode = .doRebaseAddAddrUleb ∧ tmp.operand1 = src.operand1),
          tmp.meaning layout pointerSize = rebaseOnce pointerSize src.operand1 := by
        intro tmp member
        have inside := mem_takeWhile_imp member
        obtain ⟨kind, delta⟩ := of_decide_eq_true inside
        rw [RebaseTmp.meaning, kind, delta]
      rw [InPlacePass.take_run, program_of_same _ skips]
      simp only [RebaseTmp.meaning, triple.1]
      rw [Nat.add_comm, pow_succ']
    · exact .inl rfl
  · exact .inl rfl

theorem immediate_meaning (tmp : RebaseTmp) :
    (tmp.immediate pointerSize).meaning layout pointerSize = tmp.meaning layout pointerSize := by
  unfold RebaseTmp.immediate
  split
  next scaled =>
    have whole : tmp.operand1 / pointerSize * pointerSize = tmp.operand1 :=
      Nat.div_mul_cancel (Nat.dvd_of_mod_eq_zero scaled.2.2)
    simp only [RebaseTmp.meaning, scaled.1, whole]
    rfl
  · split
    next small =>
      simp only [RebaseTmp.meaning, small.1]
    · rfl

theorem immediate_encodable {tmp : RebaseTmp}
    (encodable : tmp.Encodable) : (tmp.immediate pointerSize).Encodable := by
  unfold RebaseTmp.immediate
  split
  next scaled =>
    intro _
    have bound := Nat.div_lt_of_lt_mul (scaled.2.1.trans_eq (Nat.mul_comm _ _))
    dsimp only
    omega
  · split
    next small =>
      intro _
      dsimp only
      omega
    · exact encodable

section

variable {tmp : RebaseTmp} (alive : isDone tmp = false)

include alive

theorem immediate_live : isDone (tmp.immediate pointerSize) = false := by
  unfold RebaseTmp.immediate
  split
  · rfl
  · split
    · rfl
    · exact alive

theorem read_opcode_bytes
    (encodable : tmp.Encodable) (rest : Bytes) :
    ∃ read, readOpcode (tmp.bytes ++ rest) = some (read, rest) ∧ isDone read = false ∧
      read.meaning layout pointerSize = tmp.meaning layout pointerSize := by
  obtain ⟨op, operand1, operand2⟩ := tmp
  cases op with
  | done => cases alive
  | setTypeImm | addAddrImmScaled | doRebaseImmTimes =>
    have small : operand1 < 16 := encodable (by simp)
    simp [RebaseTmp.bytes, Opcode.code, readOpcode, small, isDone]
    rfl
  | setSegmentAndOffsetUleb =>
    have small : operand1 < 16 := encodable (by simp)
    simp [RebaseTmp.bytes, Opcode.code, readOpcode, small, Leb128.decode_encode, isDone]
  | addAddrUleb | doRebaseUlebTimes | doRebaseAddAddrUleb =>
    simp [RebaseTmp.bytes, Opcode.code, readOpcode, Leb128.decode_encode, isDone]
    rfl
  | doRebaseUlebTimesSkippingUleb =>
    simp [RebaseTmp.bytes, Opcode.code, readOpcode, Leb128.decode_encode, isDone]

theorem bytes_positive : 0 < tmp.bytes.length := by
  obtain ⟨op, operand1, operand2⟩ := tmp
  cases op with
  | done => cases alive
  | _ => exact Nat.succ_pos _

theorem rebase_readable
    (encodable : tmp.Encodable) : (rebaseCode layout pointerSize).Readable tmp where
  live := alive
  positive := bytes_positive alive
  reads := read_opcode_bytes layout pointerSize alive encodable

end

theorem rebase_padding_stops (count : Nat) :
    (rebaseCode layout pointerSize).Stops (replicate count 0) := by
  apply Bytecode.stops_at_zeros
  intro rest
  exact ⟨⟨.done, 0, 0⟩, rest, rfl, rfl⟩

end Passes

end DeveloperTools.Ld64.RebaseOpcodes
