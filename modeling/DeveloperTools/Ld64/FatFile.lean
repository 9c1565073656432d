import DeveloperTools.Lib.Memory

/-!
Fat files, as the linker opens them: a check of the table of slices, and an iterator that hands
out the slices, a hidden one behind the counted ones among them. The check adds offsets and
sizes in the width of the fields.
-/

namespace DeveloperTools.Ld64.FatFile

open ByteOrder
open List

def fatMagic : Nat := 0xCAFEBABE
def fatMagic64 : Nat := 0xCAFEBABF
def cpuTypeArm64 : Nat := 0x0100000C
def cpuSubtypeArm64All : Nat := 0
def cpuSubtypeArm64V8 : Nat := 1

structure Slice where
  cpuType : Nat
  cpuSubType : Nat
  offset : Nat
  size : Nat
deriving DecidableEq, Repr

section Table

variable (memory : Memory)

def magic : Nat := big memory 4 0

def numArchs : Nat := big memory 4 4

def fatArch (i : Nat) : Slice where
  cpuType := big memory 4 (8 + 20 * i)
  cpuSubType := big memory 4 (8 + 20 * i + 4)
  offset := big memory 4 (8 + 20 * i + 8)
  size := big memory 4 (8 + 20 * i + 12)

def fatArch64 (i : Nat) : Slice where
  cpuType := big memory 4 (8 + 32 * i)
  cpuSubType := big memory 4 (8 + 32 * i + 4)
  offset := big memory 8 (8 + 32 * i + 8)
  size := big memory 8 (8 + 32 * i + 16)

def maxArchs : Nat := (4096 - 8) / 20
def maxArchs64 : Nat := (4096 - 8) / 32

/-- The entry behind the counted ones, when it looks like an arm64 slice. -/
def Slice.isHidden (slice : Slice) : Bool :=
  slice.cpuType = cpuTypeArm64 &&
    (slice.cpuSubType = cpuSubtypeArm64All || slice.cpuSubType = cpuSubtypeArm64V8)

def archMagic : List UInt8 := [0x21, 0x3C, 0x61, 0x72, 0x63, 0x68, 0x3E]

/-- The error, if there is one. The slice is read wherever it lies. -/
def isInvalidSlice (slice : Slice) : Option String :=
  let content : Memory := fun i => memory ((slice.offset + i) % 2 ^ 64)
  if (List.range 7).map content = archMagic then none
  else if little content 4 0 = 0x0B17C0DE then none
  else
    let machMagic := little content 4 0
    if machMagic ≠ 0xFEEDFACE ∧ machMagic ≠ 0xFEEDFACF then
      -- can't link any big endian arches, so no need for subtype checks
      if machMagic = 0xCEFAEDFE ∨ machMagic = 0xCFFAEDFE then none
      else some "slice content is not mach-o or a static library"
    else if little content 4 4 ≠ slice.cpuType then
      some "cpu type in slice does not match fat header"
    else if little content 4 8 % 2 ^ 24 ≠ slice.cpuSubType % 2 ^ 24 then
      some "cpu subtype in slice does not match fat header"
    else none

/-- A counted slice; the sum is as wide as the fields. -/
def checkSlice (width fileLen : Nat) (slice : Slice) : Option String :=
  if fileLen < (slice.offset + slice.size) % 2 ^ width then
    some "slice extends beyond end of file"
  else isInvalidSlice memory slice

def checkHidden : Option String :=
  if numArchs memory ≠ maxArchs ∧ (fatArch memory (numArchs memory)).isHidden then
    isInvalidSlice memory (fatArch memory (numArchs memory))
  else none

def isInvalid (fileLen : Nat) : Option String :=
  if magic memory = fatMagic then
    if maxArchs < numArchs memory then some "too many slices"
    else
      ((List.range (numArchs memory)).findSome? fun i =>
        checkSlice memory 32 fileLen (fatArch memory i)).or (checkHidden memory)
  else if magic memory = fatMagic64 then
    if maxArchs64 < numArchs memory then some "too many slices"
    else
      (List.range (numArchs memory)).findSome? fun i =>
        checkSlice memory 64 fileLen (fatArch64 memory i)
  else some "not a fat file"

/-- The calls, the last of which is the first to stop the iteration. -/
def callUntil (stops : Nat → Bool) : Nat → List Slice → List Slice
  | _, [] => []
  | i, slice :: rest => slice :: if stops i then [] else callUntil stops (i + 1) rest

def hiddenSlice : List Slice :=
  if (fatArch memory (numArchs memory)).isHidden then [fatArch memory (numArchs memory)] else []

def forEachSlice (stops : Nat → Bool) : List Slice :=
  if magic memory = fatMagic then
    callUntil stops 0 ((List.range (numArchs memory)).map (fatArch memory) ++ hiddenSlice memory)
  else if magic memory = fatMagic64 then
    callUntil stops 0 ((List.range (numArchs memory)).map (fatArch64 memory))
  else []

end Table

section Statement

variable {memory : Memory} {fileLen : Nat}

def Slice.Inside (fileLen : Nat) (slice : Slice) : Prop := slice.offset + slice.size ≤ fileLen

/-- The end is not taken for another one. -/
def Slice.NoWrap (width fileLen : Nat) (slice : Slice) : Prop :=
  slice.offset + slice.size < 2 ^ width ∨ slice.Inside fileLen

theorem call_until_sublist (stops : Nat → Bool) (i : Nat) (slices : List Slice) :
    (callUntil stops i slices).Sublist slices := by
  induction slices generalizing i with
  | nil => exact List.Sublist.slnil
  | cons slice rest ih =>
    apply List.Sublist.cons_cons
    split
    · exact nil_sublist rest
    · exact ih (i + 1)

theorem call_until_never (i : Nat) (slices : List Slice) :
    callUntil (fun _ => false) i slices = slices := by
  induction slices generalizing i with
  | nil => rfl
  | cons slice rest ih => rw [callUntil, if_neg (by decide), ih]

theorem called_iff (slices : List Slice) (P : Slice → Prop) :
    (∀ stops, ∀ slice ∈ callUntil stops 0 slices, P slice) ↔ ∀ slice ∈ slices, P slice := by
  constructor
  · intro called
    have all := called fun _ => false
    rwa [call_until_never] at all
  · intro all stops slice isIn
    exact all slice ((call_until_sublist stops 0 slices).subset isIn)

theorem checked_iff {width : Nat} {slice : Slice}
    (checked : checkSlice memory width fileLen slice = none) :
    slice.Inside fileLen ↔ slice.NoWrap width fileLen := by
  constructor
  · exact Or.inr
  intro noWrap
  rcases noWrap with small | inside
  · unfold checkSlice at checked
    split at checked
    · cases checked
    next fits =>
      rw [Nat.mod_eq_of_lt small] at fits
      exact Nat.le_of_not_lt fits
  · exact inside

/-- Every slice is inside the file, if and only if no sum of an offset and a size wraps around
the width of the fields and the hidden slice, which is not checked, happens to be inside. -/
theorem slices_inside_iff (valid : isInvalid memory fileLen = none) :
    (∀ stops, ∀ slice ∈ forEachSlice memory stops, slice.Inside fileLen) ↔
      (magic memory = fatMagic → (∀ i < numArchs memory, (fatArch memory i).NoWrap 32 fileLen) ∧
          ∀ slice ∈ hiddenSlice memory, slice.Inside fileLen) ∧
      (magic memory = fatMagic64 →
        ∀ i < numArchs memory, (fatArch64 memory i).NoWrap 64 fileLen) := by
  unfold isInvalid at valid
  split at valid
  next isMagic =>
    split at valid
    · cases valid
    have other : magic memory ≠ fatMagic64 := by
      rw [isMagic]
      decide
    have checked := List.findSome?_eq_none_iff.mp (Option.or_eq_none_iff.mp valid).1
    simp only [forEachSlice, if_pos isMagic, called_iff, forall_mem_append,
      List.forall_mem_map, mem_range]
    rw [and_iff_left fun impossible => absurd impossible other]
    rw [forall_prop_of_true isMagic]
    apply and_congr_left'
    apply forall₂_congr
    intro i inside
    exact checked_iff (checked i (mem_range.mpr inside))
  next other =>
    split at valid
    next isMagic =>
      split at valid
      · cases valid
      have checked := List.findSome?_eq_none_iff.mp valid
      simp only [forEachSlice, if_neg other, if_pos isMagic, called_iff,
        List.forall_mem_map, mem_range]
      rw [and_iff_right fun impossible => absurd impossible other]
      rw [forall_prop_of_true isMagic]
      apply forall₂_congr
      intro i inside
      exact checked_iff (checked i (mem_range.mpr inside))
    · cases valid

def fatHeader (count : UInt8) : List UInt8 := [0xCA, 0xFE, 0xBA, 0xBE, 0, 0, 0, count]

def arm64Entry (offset : UInt8) (size : List UInt8) : List UInt8 :=
  [1, 0, 0, 0x0C, 0, 0, 0, 0, 0, 0, 0, offset] ++ size ++ [0, 0, 0, 0]

def arm64Slice : List UInt8 := [0xCF, 0xFA, 0xED, 0xFE, 0x0C, 0, 0, 1, 0, 0, 0, 0]

/-- A counted slice, and a hidden one behind it. -/
def twoSlices : List UInt8 :=
  fatHeader 1 ++ arm64Entry 48 [0, 0, 0, 12] ++ arm64Entry 60 [0, 0, 0, 12] ++ arm64Slice ++
    arm64Slice

theorem two_slices_inside :
    forEachSlice (ofList twoSlices) (fun _ => false) =
        [⟨cpuTypeArm64, 0, 48, 12⟩, ⟨cpuTypeArm64, 0, 60, 12⟩] ∧
      ∀ stops, ∀ slice ∈ forEachSlice (ofList twoSlices) stops, slice.Inside twoSlices.length := by
  have valid : isInvalid (ofList twoSlices) twoSlices.length = none := by decide +kernel
  refine ⟨by decide +kernel, (slices_inside_iff valid).mpr ⟨fun _ => ⟨?_, ?_⟩, ?_⟩⟩
  · intro i below
    have first : i = 0 := Nat.lt_one_iff.mp below
    subst first
    exact .inl (by decide +kernel)
  · unfold Slice.Inside
    decide +kernel
  · exact fun other => absurd other (by decide +kernel)

def wrappingFile : List UInt8 :=
  fatHeader 1 ++ arm64Entry 48 [0xFF, 0xFF, 0xFF, 0xF0] ++ List.replicate 20 0 ++ arm64Slice

def hiddenFile : List UInt8 := fatHeader 0 ++ arm64Entry 28 [0, 0, 0x10, 0] ++ arm64Slice

theorem slices_outside :
    (isInvalid (ofList wrappingFile) wrappingFile.length = none ∧
      ⟨cpuTypeArm64, 0, 48, 0xFFFFFFF0⟩ ∈ forEachSlice (ofList wrappingFile) (fun _ => false) ∧
      wrappingFile.length < 48 + 0xFFFFFFF0) ∧
    (isInvalid (ofList hiddenFile) hiddenFile.length = none ∧
      ⟨cpuTypeArm64, 0, 28, 0x1000⟩ ∈ forEachSlice (ofList hiddenFile) (fun _ => false) ∧
      hiddenFile.length < 28 + 0x1000) := by
  refine ⟨⟨?_, ?_, ?_⟩, ?_, ?_, ?_⟩ <;> decide +kernel

end Statement

end DeveloperTools.Ld64.FatFile
