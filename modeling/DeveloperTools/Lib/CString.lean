import Mathlib.Tactic

/-!
C strings: bytes other than NUL, of which a NUL marks the end.
-/

namespace DeveloperTools

structure CString where
  chars : List UInt8
  noNul : 0 ∉ chars
deriving DecidableEq, Repr

/-- `strcmp(left, right) < 0`, on strings without a NUL inside. -/
def StrcmpLess : List UInt8 → List UInt8 → Prop
  | [], [] => False
  | [], _ :: _ => True
  | _ :: _, [] => False
  | left :: leftRest, right :: rightRest =>
    left < right ∨ (left = right ∧ StrcmpLess leftRest rightRest)

instance decidableStrcmpLess : (left right : List UInt8) → Decidable (StrcmpLess left right)
  | [], [] => .isFalse id
  | [], _ :: _ => .isTrue trivial
  | _ :: _, [] => .isFalse id
  | left :: leftRest, right :: rightRest =>
    have := decidableStrcmpLess leftRest rightRest
    inferInstanceAs (Decidable (left < right ∨ (left = right ∧ StrcmpLess leftRest rightRest)))

theorem not_strcmp_less_front (name rest : List UInt8) : ¬ StrcmpLess (name ++ rest) name := by
  induction name with
  | nil => cases rest <;> exact id
  | cons byte name ih =>
    intro less
    rcases less with below | same
    · exact UInt8.lt_irrefl byte below
    · exact ih same.2

def readString : List UInt8 → Option (List UInt8 × List UInt8)
  | [] => none
  | byte :: rest =>
    if byte = 0 then some ([], rest)
    else (readString rest).map fun read => (byte :: read.1, read.2)

theorem read_string_written {chars : List UInt8} (noNul : 0 ∉ chars) (rest : List UInt8) :
    readString (chars ++ 0 :: rest) = some (chars, rest) := by
  induction chars with
  | nil => rfl
  | cons byte chars ih =>
    rw [List.mem_cons, not_or] at noNul
    have nonzero : byte ≠ 0 := fun zero => noNul.1 zero.symm
    rw [List.cons_append, readString, if_neg nonzero, ih noNul.2]
    rfl

end DeveloperTools
