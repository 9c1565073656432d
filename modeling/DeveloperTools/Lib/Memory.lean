import Mathlib.Tactic

/-!
A readable region of memory. Pointers are addresses; the region lies below the
top of the address space, so its end is an address too. A read outside the
region has no value here, and what a program does after such a read is the
program model's business. Numbers of a few bytes have the most or the least significant byte
first.
-/

namespace DeveloperTools.Memory

open List

structure Region where
  start : Nat
  bytes : List UInt8
  fits : start + bytes.length < 2 ^ 64

namespace Region

variable (region : Region)

def finish : Nat := region.start + region.bytes.length

def load (address : Nat) : Option UInt8 :=
  if region.start ≤ address then region.bytes[address - region.start]? else none

def cstringAt (address : Nat) : Option (List UInt8) :=
  if region.start ≤ address then
    let rest := region.bytes.drop (address - region.start)
    let text := rest.takeWhile (· ≠ 0)
    if text.length < rest.length then some text else none
  else none

def Holds (address : Nat) (content : List UInt8) : Prop :=
  region.start ≤ address ∧ content <+: region.bytes.drop (address - region.start)

variable {region} {address : Nat}

theorem holds_append {first second : List UInt8} :
    region.Holds address (first ++ second) ↔
      region.Holds address first ∧ region.Holds (address + first.length) second := by
  have shifted (low : region.start ≤ address) :
      region.bytes.drop (address + first.length - region.start) =
        (region.bytes.drop (address - region.start)).drop first.length := by
    rw [drop_drop]
    congr 1
    omega
  constructor
  · rintro ⟨low, rest, whole⟩
    refine ⟨⟨low, second ++ rest, ?_⟩, by omega, rest, ?_⟩
    · rw [← whole, append_assoc]
    · rw [shifted low, ← whole, append_assoc, drop_left]
  rintro ⟨⟨low, rest, whole⟩, _, tail, remainder⟩
  refine ⟨low, tail, ?_⟩
  rw [shifted low, ← whole, drop_left] at remainder
  rw [← whole, ← remainder, append_assoc]

theorem holds_length {content : List UInt8} (held : region.Holds address content)
    (nonempty : content ≠ []) : address + content.length ≤ region.finish := by
  obtain ⟨low, within⟩ := held
  have bound := within.length_le
  have positive := length_pos_iff.mpr nonempty
  rw [length_drop] at bound
  unfold finish
  omega

theorem load_of_holds {byte : UInt8} {rest : List UInt8}
    (held : region.Holds address (byte :: rest)) : region.load address = some byte := by
  obtain ⟨low, tail, whole⟩ := held
  rw [load, if_pos low]
  have head := congrArg head? whole
  rw [cons_append, head?_cons, head?_drop] at head
  exact head.symm

theorem cstring_of_holds {text rest : List UInt8} (clean : (0 : UInt8) ∉ text)
    (held : region.Holds address (text ++ 0 :: rest)) : region.cstringAt address = some text := by
  obtain ⟨low, tail, whole⟩ := held
  have stops : (text ++ 0 :: rest ++ tail).takeWhile (· ≠ 0) = text := by
    rw [append_assoc, cons_append, takeWhile_append_of_pos]
    · rw [takeWhile_cons_of_neg (by simp), append_nil]
    intro byte member
    simp only [ne_eq, decide_eq_true_eq]
    rintro rfl
    exact clean member
  rw [cstringAt, if_pos low]
  simp only [← whole, stops]
  rw [if_pos]
  simp only [length_append, length_cons]
  omega

theorem cstring_inside {text : List UInt8} (found : region.cstringAt address = some text) :
    region.start ≤ address ∧ address + text.length < region.finish := by
  unfold cstringAt at found
  split at found
  · rename_i low
    dsimp only at found
    split at found
    · rename_i short
      cases found
      rw [length_drop] at short
      unfold finish
      exact ⟨low, by omega⟩
    · cases found
  · cases found

end Region

end DeveloperTools.Memory

namespace DeveloperTools.ByteOrder

abbrev Memory := Nat → UInt8

def big (memory : Memory) : Nat → Nat → Nat
  | 0, _ => 0
  | size + 1, address => (memory address).toNat * 256 ^ size + big memory size (address + 1)

def little (memory : Memory) : Nat → Nat → Nat
  | 0, _ => 0
  | size + 1, address => (memory address).toNat + 256 * little memory size (address + 1)

theorem big_lt (memory : Memory) (size address : Nat) : big memory size address < 256 ^ size := by
  induction size generalizing address with
  | zero => exact Nat.one_pos
  | succ size ih =>
    have byte := (memory address).toNat_lt
    have rest := ih (address + 1)
    have scaled := Nat.mul_le_mul_right (256 ^ size) (Nat.le_of_lt_succ byte)
    rw [big, Nat.pow_succ]
    omega

theorem little_lt (memory : Memory) (size address : Nat) :
    little memory size address < 256 ^ size := by
  induction size generalizing address with
  | zero => exact Nat.one_pos
  | succ size ih =>
    have byte := (memory address).toNat_lt
    have rest := ih (address + 1)
    rw [little, Nat.pow_succ]
    omega

def ofList (bytes : List UInt8) : Memory := fun address => bytes.getD address 0

end DeveloperTools.ByteOrder
