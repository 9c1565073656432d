import Mathlib.Algebra.Group.Nat.Defs
import Mathlib.Data.List.Basic

/-!
The order in which `lipo` writes the slices of a fat file: subtypes decide inside one cputype,
`arm64` comes last, and alignments decide otherwise.
-/

namespace DeveloperTools.Cctools.SliceOrder

open List

structure ThinFile where
  cputype : BitVec 32
  cpusubtype : BitVec 32
  align : BitVec 32
  /-- `MAXSECTALIGN` -/
  bounded : align.toNat ≤ 15

def cpuTypeARM64 : BitVec 32 := 0x0100000c

def cpuSubtypeMask : BitVec 32 := 0xff000000

def ThinFile.subtype (file : ThinFile) : BitVec 32 := file.cpusubtype &&& ~~~cpuSubtypeMask

/-- The differences are unsigned and are returned as an `int`. -/
def cmpQsort (thin1 thin2 : ThinFile) : Int :=
  if thin1.cputype = thin2.cputype then (thin1.subtype - thin2.subtype).toInt
  else if thin1.cputype = cpuTypeARM64 then 1
  else if thin2.cputype = cpuTypeARM64 then -1
  else (thin1.align - thin2.align).toInt

abbrev Tie (thin1 thin2 : ThinFile) : Prop :=
  ¬ cmpQsort thin1 thin2 < 0 ∧ ¬ cmpQsort thin2 thin1 < 0

structure IsStrictWeakOrder (files : List ThinFile) : Prop where
  irrefl : ∀ file ∈ files, ¬ cmpQsort file file < 0
  asymm : ∀ x ∈ files, ∀ y ∈ files, cmpQsort x y < 0 → ¬ cmpQsort y x < 0
  trans : ∀ x ∈ files, ∀ y ∈ files, ∀ z ∈ files,
    cmpQsort x y < 0 → cmpQsort y z < 0 → cmpQsort x z < 0
  tie_trans : ∀ x ∈ files, ∀ y ∈ files, ∀ z ∈ files, Tie x y → Tie y z → Tie x z

/-- The alignment of `z` lies between those of two files of another cputype, which their subtypes
do not order the same way. -/
def Between (x y z : ThinFile) : Prop :=
  x.cputype = y.cputype ∧ x.cputype ≠ z.cputype ∧ x.cputype ≠ cpuTypeARM64 ∧
    z.cputype ≠ cpuTypeARM64 ∧ x.subtype.toNat ≤ y.subtype.toNat ∧
    y.align.toNat ≤ z.align.toNat ∧ z.align.toNat ≤ x.align.toNat ∧
    (x.subtype.toNat < y.subtype.toNat ∨ y.align.toNat < x.align.toNat)

theorem difference_negative {left right : BitVec 32} (leftSmall : left.toNat < 2 ^ 31)
    (rightSmall : right.toNat < 2 ^ 31) : (left - right).toInt < 0 ↔ left.toNat < right.toNat := by
  rw [BitVec.toInt_eq_toNat_cond, BitVec.toNat_sub]
  split <;> omega

theorem subtype_small (file : ThinFile) : file.subtype.toNat < 2 ^ 31 := by
  have small : file.subtype.toNat ≤ (~~~cpuSubtypeMask).toNat := by
    rw [ThinFile.subtype, BitVec.toNat_and]
    exact Nat.and_le_right
  exact Nat.lt_of_le_of_lt small (by decide)

theorem before_iff (x y : ThinFile) : cmpQsort x y < 0 ↔
    if x.cputype = y.cputype then x.subtype.toNat < y.subtype.toNat
    else x.cputype ≠ cpuTypeARM64 ∧
      (y.cputype = cpuTypeARM64 ∨ x.align.toNat < y.align.toNat) := by
  have leftBound := x.bounded
  have rightBound := y.bounded
  unfold cmpQsort
  split
  · exact difference_negative (subtype_small x) (subtype_small y)
  split
  · simp_all
  split
  · simp_all
  rw [difference_negative (by omega) (by omega)]
  simp_all

theorem arm64_last {sorted : List ThinFile}
    (order : sorted.Pairwise fun earlier later => ¬ cmpQsort later earlier < 0) :
    sorted.Pairwise fun earlier later =>
      earlier.cputype = cpuTypeARM64 → later.cputype = cpuTypeARM64 := by
  refine order.imp fun notBefore isArm => ?_
  rw [before_iff] at notBefore
  grind

theorem before_asymm {x y : ThinFile} (before : cmpQsort x y < 0) : ¬ cmpQsort y x < 0 := by
  rw [before_iff] at before ⊢
  grind

variable {files : List ThinFile}

/-- One law stands for the four: what comes before a file has every other file before or behind. -/
theorem strict_weak_iff : IsStrictWeakOrder files ↔ ∀ x ∈ files, ∀ y ∈ files, ∀ z ∈ files,
    cmpQsort x z < 0 → cmpQsort x y < 0 ∨ cmpQsort y z < 0 := by
  constructor
  · intro order x hx y hy z hz before
    by_contra neither
    rw [not_or] at neither
    obtain ⟨notFirst, notSecond⟩ := neither
    have firstTie : Tie x y :=
      ⟨notFirst, fun back => notSecond (order.trans y hy x hx z hz back before)⟩
    have secondTie : Tie y z :=
      ⟨notSecond, fun back => notFirst (order.trans x hx z hz y hy before back)⟩
    exact (order.tie_trans x hx y hy z hz firstTie secondTie).1 before
  · intro law
    constructor
    · intro file _ before
      exact before_asymm before before
    · intro x _ y _
      exact before_asymm
    · intro x hx y hy z hz first second
      exact (law x hx z hz y hy first).resolve_right (before_asymm second)
    · intro x hx y hy z hz first second
      constructor
      · intro before
        exact (law x hx y hy z hz before).elim first.1 second.1
      · intro before
        exact (law z hz y hy x hx before).elim second.2 first.2

theorem not_between_of_law {x y z : ThinFile}
    (first : cmpQsort x y < 0 → cmpQsort x z < 0 ∨ cmpQsort z y < 0)
    (second : cmpQsort y z < 0 → cmpQsort y x < 0 ∨ cmpQsort x z < 0)
    (third : cmpQsort z x < 0 → cmpQsort z y < 0 ∨ cmpQsort y x < 0) : ¬ Between x y z := by
  rintro ⟨same, other, notArm, notArmOther, subtypes, lower, upper, differ⟩
  have otherY : y.cputype ≠ z.cputype := same ▸ other
  simp only [before_iff, same, otherY, otherY.symm, if_true, if_false, same ▸ notArm, notArmOther,
    not_false_eq_true, ne_eq, true_and, false_or] at first second third
  omega

theorem law_of_not_between {x y z : ThinFile} (outer : ¬ Between x z y) (left : ¬ Between y x z)
    (right : ¬ Between z y x) (before : cmpQsort x z < 0) :
    cmpQsort x y < 0 ∨ cmpQsort y z < 0 := by
  simp only [before_iff] at before ⊢
  unfold Between at outer left right
  grind

/-- `qsort` gets a strict weak ordering, which puts `arm64` last, exactly when no alignment lies
between those of two files of one other cputype that their subtypes do not order the same way. -/
theorem slice_order_iff (files : List ThinFile) :
    (IsStrictWeakOrder files ∧ ∀ sorted : List ThinFile, sorted.Perm files →
      sorted.Pairwise (fun earlier later => ¬ cmpQsort later earlier < 0) →
      sorted.Pairwise fun earlier later =>
        earlier.cputype = cpuTypeARM64 → later.cputype = cpuTypeARM64) ↔
      ∀ x ∈ files, ∀ y ∈ files, ∀ z ∈ files, ¬ Between x y z := by
  rw [strict_weak_iff]
  constructor
  · rintro ⟨law, _⟩ x hx y hy z hz
    exact not_between_of_law (law x hx z hz y hy) (law y hy x hx z hz) (law z hz y hy x hx)
  · intro apart
    refine ⟨fun x hx y hy z hz => ?_, fun _ _ => arm64_last⟩
    exact law_of_not_between (apart x hx z hz y hy) (apart y hy x hx z hz) (apart z hz y hy x hx)

/-- Slices for `x86_64` and `x86_64h` and one for `i386` of the same alignment: `i386` may stand
on either side of both. -/
theorem haswell_slice_unordered :
    let x86_64 : ThinFile := ⟨0x01000007, 3, 12, by decide⟩
    let x86_64h : ThinFile := ⟨0x01000007, 8, 12, by decide⟩
    let i386 : ThinFile := ⟨7, 3, 12, by decide⟩
    Tie x86_64h i386 ∧ Tie i386 x86_64 ∧ cmpQsort x86_64 x86_64h < 0 ∧
      ¬ IsStrictWeakOrder [x86_64, x86_64h, i386] := by
  intro x86_64 x86_64h i386
  have first : Tie x86_64h i386 := by decide
  have second : Tie i386 x86_64 := by decide
  refine ⟨first, second, by decide, fun order => ?_⟩
  have tie := order.tie_trans x86_64h (by simp) i386 (by simp) x86_64 (by simp) first second
  exact tie.2 (by decide)

end DeveloperTools.Cctools.SliceOrder
