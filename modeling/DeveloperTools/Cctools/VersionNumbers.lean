import Mathlib.Algebra.Group.Nat.Defs
import Mathlib.Data.List.TakeWhile
import Mathlib.Data.Nat.Notation

/-!
The parsers of version numbers: `get_version_number`, `parse_version_xyz` and `parse_version_abcde`
of cctools and `parseVersionNumber32` of ld. A field is converted to 64 bits, where it stays at the
greatest number, and in three of them cut to 32 bits before its range is checked.
-/

namespace DeveloperTools.Cctools.VersionNumbers
open List

def value (digits : List Char) : Nat :=
  digits.foldl (fun number digit => 10 * number + (digit.toNat - '0'.toNat)) 0

/-- `strtoul` and `strtoull` to the base 10 on a text that starts with a digit: the number and
what `endp` points to. -/
def strtoul (text : List Char) : Nat × List Char :=
  (min (value (text.takeWhile Char.isDigit)) (2 ^ 64 - 1), text.dropWhile Char.isDigit)

/-- The text before the first dot, and the text behind it. -/
def cut (text : List Char) : List Char × Option (List Char) :=
  (text.takeWhile (· ≠ '.'), (text.dropWhile (· ≠ '.')).tail?)

def getField (text : List Char) (maximum : Nat) : Option Nat :=
  let (number, endp) := strtoul text
  if endp ≠ [] ∨ number % 2 ^ 32 > maximum then none else some (number % 2 ^ 32)

def getFields (x : List Char) (y z : Option (List Char)) : Option Nat := do
  let x ← getField x 0xffff
  let y ← y.elim (some 0) (getField · 0xff)
  let z ← z.elim (some 0) (getField · 0xff)
  some (x <<< 16 ||| y <<< 8 ||| z)

/-- A dot with nothing behind it does not end the first or the second field. -/
def getVersionNumber (argument : List Char) : Option Nat :=
  match cut argument with
  | (_, none) => getFields argument none none
  | (x, some behind) =>
    if behind = [] then getFields argument none none
    else match cut behind with
      | (_, none) => getFields x (some behind) none
      | (y, some z) => if z = [] then getFields x (some behind) none
        else getFields x (some y) (some (cut z).1)

/-- The fields that the two parsers of `vtool` read one after another, and what is behind the dot
after the last of them. -/
def components : Nat → Option (List Char) → List Nat × Option (List Char)
  | 0, start => ([], start)
  | count + 1, none =>
    let (more, last) := components count none
    (0 :: more, last)
  | count + 1, some start =>
    let (field, behind) := cut start
    let (more, last) := components count behind
    ((strtoul field).1 :: more, last)

def parseVersionXyz (text : List Char) : Option Nat :=
  match components 3 (some text) with
  | ([x, y, z], none) =>
    let (x, y, z) := (x % 2 ^ 32, y % 2 ^ 32, z % 2 ^ 32)
    if x > 0xFFFF ∨ y > 0xFF ∨ z > 0xFF then none else some (x <<< 16 ||| y <<< 8 ||| z)
  | _ => none

def parseVersionAbcde (text : List Char) : Option Nat :=
  match components 5 (some text) with
  | ([a, b, c, d, e], none) =>
    if a > 0xFFFFFF ∨ b > 0x3FF ∨ c > 0x3FF ∨ d > 0x3FF ∨ e > 0x3FF then none
    else some (a <<< 40 ||| b <<< 30 ||| c <<< 20 ||| d <<< 10 ||| e)
  | _ => none

/-- `if (*end == '.')` the field behind it. -/
def nextNumber : List Char → Nat × List Char
  | '.' :: field => strtoul field
  | rest => (0, rest)

def parseVersionNumber32 (text : List Char) : Option Nat :=
  let (x, rest) := strtoul text
  let (y, rest) := nextNumber rest
  let (z, rest) := nextNumber rest
  let (x, y, z) := (x % 2 ^ 32, y % 2 ^ 32, z % 2 ^ 32)
  if rest ≠ [] ∨ x > 0xffff ∨ y > 0xff ∨ z > 0xff then none else some (x <<< 16 ||| y <<< 8 ||| z)

structure Field where
  digits : List Char
  nonempty : digits ≠ []
  areDigits : ∀ digit ∈ digits, digit.isDigit = true

def dotted (fields : List Field) : List Char := fields.flatMap fun field => '.' :: field.digits

def spelled (first : Field) (rest : List Field) : List Char := first.digits ++ dotted rest

def number (fields : List Field) (i : Nat) : Nat := fields[i]?.elim 0 fun field => value field.digits

def Exact (fields : List Field) (result : Option Nat) : Prop :=
  let field := number fields
  ∀ version ∈ result, field 0 ≤ 65535 ∧ field 1 ≤ 255 ∧ field 2 ≤ 255 ∧
    version = field 0 <<< 16 ||| field 1 <<< 8 ||| field 2

def ExactAbcde (fields : List Field) (result : Option Nat) : Prop :=
  let field := number fields
  ∀ version ∈ result, field 0 ≤ 2 ^ 24 - 1 ∧ field 1 ≤ 1023 ∧ field 2 ≤ 1023 ∧ field 3 ≤ 1023 ∧
    field 4 ≤ 1023 ∧ version =
      field 0 <<< 40 ||| field 1 <<< 30 ||| field 2 <<< 20 ||| field 3 <<< 10 ||| field 4

/-- What is accepted has fields in range, and is put together from them. -/
structure NeverWraps (first : Field) (rest : List Field) : Prop where
  get : Exact (first :: rest) (getVersionNumber (spelled first rest))
  xyz : Exact (first :: rest) (parseVersionXyz (spelled first rest))
  number32 : Exact (first :: rest) (parseVersionNumber32 (spelled first rest))
  abcde : ExactAbcde (first :: rest) (parseVersionAbcde (spelled first rest))

/-- A field is beyond 32 bits, and what is left of the three in 32 bits is in range. -/
def Wraps (fields : List Field) : Prop :=
  let field := number fields
  (2 ^ 32 ≤ field 0 ∨ 2 ^ 32 ≤ field 1 ∨ 2 ^ 32 ≤ field 2) ∧
    (field 0 < 2 ^ 64 ∧ field 1 < 2 ^ 64 ∧ field 2 < 2 ^ 64) ∧
    field 0 % 2 ^ 32 ≤ 65535 ∧ field 1 % 2 ^ 32 ≤ 255 ∧ field 2 % 2 ^ 32 ≤ 255

section Reading
variable (field : Field) (rest : List Field)

theorem strtoul_spelled : strtoul (spelled field rest) =
    (min (value field.digits) (2 ^ 64 - 1), dotted rest) := by
  rw [strtoul, spelled, takeWhile_append_of_pos field.areDigits,
    dropWhile_append_of_pos field.areDigits]
  cases rest <;> simp [dotted]

theorem strtoul_field : strtoul field.digits = (min (value field.digits) (2 ^ 64 - 1), []) := by
  have whole := strtoul_spelled field []
  rwa [spelled, dotted, flatMap_nil, append_nil] at whole

def textOf : List Field → Option (List Char)
  | [] => none
  | first :: rest => some (spelled first rest)

theorem cut_spelled : cut (spelled field rest) = (field.digits, textOf rest) := by
  have noDot : ∀ c ∈ field.digits, decide (c ≠ '.') = true := by
    intro c isIn
    have digit := field.areDigits c isIn
    rw [decide_eq_true_iff]
    rintro rfl
    contradiction
  rw [cut, spelled, takeWhile_append_of_pos noDot, dropWhile_append_of_pos noDot]
  cases rest <;> simp [dotted, textOf, spelled]

theorem spelled_ne_nil : spelled field rest ≠ [] := by simp [spelled, field.nonempty]

theorem next_number (fields : List Field) : nextNumber (dotted fields) =
    (min (number fields 0) (2 ^ 64 - 1), dotted fields.tail) := by
  cases fields with
  | nil => rfl
  | cons field rest => exact strtoul_spelled field rest

theorem components_fields (count : Nat) (fields : List Field) :
    components count (textOf fields) =
      ((range count).map fun i => min (number fields i) (2 ^ 64 - 1),
        textOf (fields.drop count)) := by
  induction count generalizing fields with
  | zero => rfl
  | succ count ih =>
    rw [range_succ_eq_map, map_cons, map_map]
    cases fields with
    | nil =>
      have more := ih []
      rw [drop_nil] at more
      rw [drop_nil, textOf, components, ← textOf, more]
      rfl
    | cons first rest =>
      rw [textOf, components, cut_spelled]
      dsimp only
      rw [strtoul_field, ih rest]
      rfl

end Reading

def narrow (number : Nat) : Nat := min number (2 ^ 64 - 1) % 2 ^ 32

def packed (fields : List Field) : Option Nat :=
  let low (i : Nat) := narrow (number fields i)
  if low 0 > 65535 ∨ low 1 > 255 ∨ low 2 > 255 then none
  else some (low 0 <<< 16 ||| low 1 <<< 8 ||| low 2)

theorem packed_exact_iff (fields : List Field) : Exact fields (packed fields) ↔ ¬ Wraps fields := by
  unfold Exact packed Wraps narrow
  generalize number fields = field
  dsimp only
  split
  next refused =>
    exact iff_of_true (fun _ impossible => nomatch impossible) (by omega)
  next accepted =>
    by_cases small : field 0 < 2 ^ 32 ∧ field 1 < 2 ^ 32 ∧ field 2 < 2 ^ 32
    · have same {number : Nat} (small : number < 2 ^ 32) :
          min number (2 ^ 64 - 1) % 2 ^ 32 = number := by omega
      rw [same small.1, same small.2.1, same small.2.2] at accepted ⊢
      refine iff_of_true ?_ (by omega)
      rintro _ ⟨⟩
      exact ⟨by omega, by omega, by omega, rfl⟩
    · refine iff_of_false (fun exact => ?_) (by omega)
      have inRange := exact _ rfl
      omega

theorem get_field (field : Field) (maximum : Nat) : getField field.digits maximum =
    if narrow (value field.digits) > maximum then none else some (narrow (value field.digits)) := by
  rw [getField, strtoul_field]
  simp [narrow]

theorem get_field_or_none (field : Option Field) (maximum : Nat) :
    (field.map Field.digits).elim (some 0) (getField · maximum) =
      let low := narrow (field.elim 0 fun field => value field.digits)
      if low > maximum then none else some low := by
  cases field with
  | none => rfl
  | some field => exact get_field field maximum

section Parsers
variable (first : Field) (rest : List Field)

theorem xyz_packed : parseVersionXyz (spelled first rest) =
    if rest.length ≤ 2 then packed (first :: rest) else none := by
  have read := components_fields 3 (first :: rest)
  rw [textOf] at read
  rw [parseVersionXyz, read]
  rcases rest with _ | ⟨y, _ | ⟨z, _ | ⟨more, rest⟩⟩⟩
  all_goals rfl

theorem number32_packed : parseVersionNumber32 (spelled first rest) =
    if rest.length ≤ 2 then packed (first :: rest) else none := by
  rw [parseVersionNumber32, strtoul_spelled]
  dsimp only
  rw [next_number]
  rw [next_number]
  rcases rest with _ | ⟨y, _ | ⟨z, _ | ⟨more, rest⟩⟩⟩
  all_goals simp [packed, number, dotted, narrow]

theorem get_fields : getFields first.digits (rest[0]?.map Field.digits)
    (rest[1]?.map Field.digits) = packed (first :: rest) := by
  rw [getFields, get_field, get_field_or_none, get_field_or_none]
  simp only [packed, number, getElem?_cons_zero, getElem?_cons_succ, Option.elim_some]
  split_ifs <;> simp <;> omega

theorem get_packed : getVersionNumber (spelled first rest) = packed (first :: rest) := by
  rw [← get_fields, getVersionNumber, cut_spelled]
  rcases rest with _ | ⟨y, rest⟩
  · rw [show spelled first [] = first.digits from append_nil _]
    rfl
  rw [textOf]
  dsimp only
  rw [if_neg (spelled_ne_nil y rest), cut_spelled]
  rcases rest with _ | ⟨z, rest⟩
  · rw [show spelled y [] = y.digits from append_nil _]
    rfl
  rw [textOf]
  dsimp only
  rw [if_neg (spelled_ne_nil z rest), cut_spelled]
  rfl

theorem abcde_exact : ExactAbcde (first :: rest) (parseVersionAbcde (spelled first rest)) := by
  have read := components_fields 5 (first :: rest)
  rw [textOf] at read
  rw [parseVersionAbcde, read, ExactAbcde]
  generalize number (first :: rest) = field
  cases textOf (drop 5 (first :: rest)) with
  | some behind => exact fun _ impossible => nomatch impossible
  | none =>
    simp only [range, range.loop, map_cons, map_nil]
    split
    · exact fun _ impossible => nomatch impossible
    next small =>
      have same (i : Nat) (small : min (field i) (2 ^ 64 - 1) < 2 ^ 24) :
          min (field i) (2 ^ 64 - 1) = field i := by omega
      rintro _ ⟨⟩
      refine ⟨by omega, by omega, by omega, by omega, by omega, ?_⟩
      rw [same 0 (by omega), same 1 (by omega), same 2 (by omega), same 3 (by omega),
        same 4 (by omega)]
end Parsers

/-- Version numbers are read as they are written exactly if no field wraps into its range. -/
theorem never_wraps_iff (first : Field) (rest : List Field) :
    NeverWraps first rest ↔ ¬ Wraps (first :: rest) := by
  rw [← packed_exact_iff]
  constructor
  · intro exact
    rw [← get_packed]
    exact exact.get
  intro exact
  have orNone : Exact (first :: rest)
      (if rest.length ≤ 2 then packed (first :: rest) else none) := by
    split
    · exact exact
    · exact fun _ impossible => nomatch impossible
  rw [← get_packed] at exact
  exact ⟨exact, xyz_packed first rest ▸ orNone, number32_packed first rest ▸ orNone,
    abcde_exact first rest⟩

/-- The version 4294967296 is taken for 0. -/
theorem long_version_wraps :
    let first : Field := ⟨"4294967296".toList, by decide, all_eq_true.mp (by decide)⟩
    getVersionNumber (spelled first []) = some 0 ∧ ¬ NeverWraps first [] := by
  have read : getVersionNumber "4294967296".toList = some 0 := by decide +kernel
  refine ⟨read, fun exact => ?_⟩
  have inRange := (exact.get 0 read).1
  revert inRange
  decide +kernel

/-- The parsers agree; of more than three fields `get_version_number` reads the first three, and
the others refuse them. -/
theorem parsers_agree (first : Field) (rest : List Field) :
    parseVersionXyz (spelled first rest) = parseVersionNumber32 (spelled first rest) ∧
      (2 < rest.length → parseVersionXyz (spelled first rest) = none) ∧
      getVersionNumber (spelled first rest) = parseVersionXyz (spelled first (rest.take 2)) := by
  have short : (rest.take 2).length ≤ 2 := length_take_le 2 rest
  rw [xyz_packed, number32_packed, xyz_packed, if_pos short, get_packed]
  refine ⟨rfl, fun more => ?_, by simp [packed, number]⟩
  rw [if_neg (by omega)]

end DeveloperTools.Cctools.VersionNumbers
