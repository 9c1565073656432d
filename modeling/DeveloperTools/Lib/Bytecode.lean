import DeveloperTools.Lib.InPlacePass

/-!
Instruction sets that are written as bytes and carried out by a machine that
reads the bytes back. A program ends at an instruction that is done. What is
written needs not be read back as the same instruction, only as one of the same
meaning. `Nibbles` are bytes with an opcode in the high four bits and an immediate operand in
the low four.
-/

namespace DeveloperTools

open List Option

structure Bytecode (Instruction State Event : Type) where
  done : Instruction → Bool
  write : Instruction → List UInt8
  read : List UInt8 → Option (Instruction × List UInt8)
  meaning : Instruction → Transducer State Event

/-- Writes a buffer up to its first done instruction, that one included. -/
def writeBuffer {Instruction : Type} (done : Instruction → Bool)
    (write : Instruction → List UInt8) : List Instruction → List UInt8
  | [] => []
  | instruction :: rest =>
    if done instruction then write instruction
    else write instruction ++ writeBuffer done write rest

/-- Rewrites every instruction of a buffer up to its first done one. -/
def rewriteBuffer {Instruction : Type} (done : Instruction → Bool)
    (rewrite : Instruction → Instruction) : List Instruction → List Instruction
  | [] => []
  | instruction :: rest =>
    if done instruction then instruction :: rest
    else rewrite instruction :: rewriteBuffer done rewrite rest

namespace Bytecode

variable {Instruction State Event : Type} (code : Bytecode Instruction State Event)

/-- Carries out a stream up to its end or the first `done`. Every instruction
takes a byte, so the length of the stream is fuel enough. -/
def interpret : Nat → List UInt8 → State → Option (List Event)
  | _, [], _ => some []
  | 0, _ :: _, _ => none
  | fuel + 1, byte :: stream, state => do
    let (instruction, rest) ← code.read (byte :: stream)
    if code.done instruction then some []
    else do
      let (next, events) := code.meaning instruction state
      let more ← interpret fuel rest next
      some (events ++ more)

/-- The instruction is read back as one that means the same. -/
structure Readable (instruction : Instruction) : Prop where
  live : code.done instruction = false
  positive : 0 < (code.write instruction).length
  reads : ∀ rest, ∃ read, code.read (code.write instruction ++ rest) = some (read, rest) ∧
    code.done read = false ∧ code.meaning read = code.meaning instruction

def Stops (stream : List UInt8) : Prop :=
  ∀ fuel state, stream.length ≤ fuel → code.interpret fuel stream state = some []

theorem interpret_with_write (write : Instruction → List UInt8) :
    ∀ (fuel : Nat) (stream : List UInt8) (state : State),
      { code with write := write }.interpret fuel stream state =
        code.interpret fuel stream state := by
  intro fuel
  induction fuel with
  | zero =>
    intro stream state
    cases stream <;> rfl
  | succ fuel ih =>
    intro stream state
    cases stream with
    | nil => rfl
    | cons byte stream => simp only [interpret, ih]

variable {code} {stop : Instruction} {live : List Instruction} {done : Instruction → Bool}

theorem rewrite_buffer_live (rewrite : Instruction → Instruction) (left : List Instruction)
    (alive : ∀ instruction ∈ live, done instruction = false) (stopped : done stop = true) :
    rewriteBuffer done rewrite (live ++ stop :: left) = live.map rewrite ++ stop :: left := by
  induction live with
  | nil => simp [rewriteBuffer, stopped]
  | cons instruction live ih =>
    have later := ih fun other member => alive other (.tail _ member)
    rw [cons_append, rewriteBuffer, alive instruction mem_cons_self, later]
    rfl

theorem write_buffer_live (write : Instruction → List UInt8) (left : List Instruction)
    (alive : ∀ instruction ∈ live, done instruction = false) (stopped : done stop = true) :
    writeBuffer done write (live ++ stop :: left) = (live.map write).flatten ++ write stop := by
  induction live with
  | nil => simp [writeBuffer, stopped]
  | cons instruction live ih =>
    have later := ih fun other member => alive other (.tail _ member)
    rw [cons_append, writeBuffer, alive instruction mem_cons_self, later,
      map_cons, flatten_cons, append_assoc]
    rfl

variable {rewrite : Instruction → Instruction}

variable (code) in
theorem program_map
    (same : ∀ instruction, code.meaning (rewrite instruction) = code.meaning instruction)
    (program : List Instruction) : Transducer.program code.meaning (program.map rewrite) =
      Transducer.program code.meaning program := by
  rw [Transducer.program, Transducer.program, List.map_map]
  congr 2
  funext instruction
  exact same instruction

section Zero

variable (zero : ∀ rest, ∃ read left, code.read (0 :: rest) = some (read, left) ∧
  code.done read = true)

include zero

theorem stops_at_zero (tail : List UInt8) : code.Stops (0 :: tail) := by
  intro fuel state enough
  obtain ⟨fuel, rfl⟩ : ∃ less, fuel = less + 1 := Nat.exists_eq_add_of_le' (Nat.one_le_of_lt enough)
  obtain ⟨read, left, ran, done⟩ := zero tail
  rw [interpret, ran]
  simp only [bind_eq_bind, bind_some, done, if_true]

theorem stops_at_zeros (count : Nat) : code.Stops (replicate count 0) := by
  cases count with
  | zero =>
    intro fuel state enough
    cases fuel <;> rfl
  | succ count => exact stops_at_zero zero _

end Zero

variable {tail : List UInt8}

theorem interpret_written {program : List Instruction}
    (readable : ∀ instruction ∈ program, code.Readable instruction) (stops : code.Stops tail) :
    ∀ (fuel : Nat) (state : State),
      ((program.map code.write).flatten ++ tail).length ≤ fuel →
      code.interpret fuel ((program.map code.write).flatten ++ tail) state =
        some (Transducer.program code.meaning program state).2 := by
  induction program with
  | nil => exact stops
  | cons instruction program ih =>
    intro fuel state enough
    obtain ⟨-, positive, reads⟩ := readable instruction mem_cons_self
    rw [map_cons, flatten_cons, append_assoc] at enough ⊢
    obtain ⟨read, ran, alive, same⟩ := reads ((program.map code.write).flatten ++ tail)
    obtain ⟨byte, written, shape⟩ := exists_cons_of_length_pos positive
    rw [shape, cons_append] at enough ran ⊢
    obtain ⟨fuel, rfl⟩ : ∃ less, fuel = less + 1 := by
      rw [length_cons] at enough
      exact ⟨fuel - 1, by omega⟩
    have room : ((program.map code.write).flatten ++ tail).length ≤ fuel := by
      rw [length_cons, length_append] at enough
      omega
    have later := ih (fun other member => readable other (.tail _ member))
      fuel (code.meaning instruction state).1 room
    simp only [interpret, ran, bind_eq_bind, bind_some, alive,
      Bool.false_eq_true, if_false, same, later, Transducer.program_cons, Transducer.mul_apply]

theorem interpret_whole {program : List Instruction}
    (readable : ∀ instruction ∈ program, code.Readable instruction) (state : State) :
    code.interpret (program.map code.write).flatten.length (program.map code.write).flatten state =
      some (Transducer.program code.meaning program state).2 := by
  have stops : code.Stops [] := by
    intro fuel state enough
    cases fuel <;> rfl
  have run := interpret_written readable stops _ state le_rfl
  rwa [append_nil] at run

theorem interpret_rewritten {buffer left : List Instruction}
    (content : buffer = live ++ stop :: left)
    (alive : ∀ instruction ∈ live, code.done instruction = false) (done : code.done stop = true)
    (stays : ∀ instruction, code.done instruction = false → code.done (rewrite instruction) = false)
    (same : ∀ instruction, code.meaning (rewrite instruction) = code.meaning instruction)
    (readable : ∀ instruction ∈ live, code.Readable (rewrite instruction))
    (stops : code.Stops (code.write stop ++ tail)) (state : State) :
    let stream := writeBuffer code.done code.write (rewriteBuffer code.done rewrite buffer) ++ tail
    code.interpret stream.length stream state =
      some (Transducer.program code.meaning live state).2 := by
  have aliveAfter : ∀ instruction ∈ live.map rewrite, code.done instruction = false := by
    intro instruction member
    obtain ⟨old, oldMember, rfl⟩ := List.mem_map.mp member
    exact stays old (alive old oldMember)
  rw [content, rewrite_buffer_live rewrite left alive done,
    write_buffer_live code.write left aliveAfter done, append_assoc,
    ← program_map code same live]
  apply interpret_written _ stops _ _ le_rfl
  intro instruction member
  obtain ⟨old, oldMember, rfl⟩ := List.mem_map.mp member
  exact readable old oldMember

end Bytecode

end DeveloperTools

namespace DeveloperTools.Nibbles

/-- The byte a writer makes of an opcode and an operand by a bitwise or. -/
def pack (opcode immediate : Nat) : UInt8 := UInt8.ofNat (opcode ||| immediate)

def opcode (byte : UInt8) : Nat := byte.toNat / 16

def immediate (byte : UInt8) : Nat := byte.toNat % 16

variable {code low : Nat} (high : code % 16 = 0) (fits : code < 256) (lowFits : low < 16)

include high fits lowFits in
theorem pack_value : (pack code low).toNat = code + low := by
  obtain ⟨number, rfl⟩ := Nat.dvd_of_mod_eq_zero high
  have joined : 2 ^ 4 * number + low = 2 ^ 4 * number ||| low :=
    Nat.two_pow_add_eq_or_of_lt lowFits number
  rw [pack, UInt8.toNat_ofNat', show 16 * number ||| low = 16 * number + low from joined.symm]
  omega

include high fits lowFits in
@[simp] theorem opcode_pack : opcode (pack code low) = code / 16 := by
  rw [opcode, pack_value high fits lowFits]
  omega

include high fits lowFits in
@[simp] theorem immediate_pack : immediate (pack code low) = low := by
  rw [immediate, pack_value high fits lowFits]
  omega

end DeveloperTools.Nibbles
