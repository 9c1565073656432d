import DeveloperTools.Lib.Memory

/-!
`check_archive_toc`. A table of contents is a size word, the ranlibs, a second size word and the
strings; both forms are checked alike, with words of four or eight bytes. The checks leave the
two size words out of what has to fit.
-/

namespace DeveloperTools.Cctools.ArchiveToc

structure Toc where
  isArchive : Bool
  -- a name of a 64-bit table
  wide : Bool
  -- `get_toc_byte_sex`, which may find no object file
  bigEndian : Option Bool
  size : Nat
  -- a `uint32_t`
  sizeFits : size < 2 ^ 32
  fileSize : Nat
  host386 : Bool
  -- what is at `toc_addr` and behind it
  memory : ByteOrder.Memory

inductive Outcome
  | bad | empty | checked (nranlibs strsize : Nat)
  deriving DecidableEq

namespace Toc

variable (toc : Toc)

/-- `sizeof(uint32_t)` or `sizeof(uint64_t)`; a ranlib has two of them. -/
def word : Nat := if toc.wide then 8 else 4

def number (big : Bool) (address : Nat) : Nat :=
  if big then ByteOrder.big toc.memory toc.word address
  else ByteOrder.little toc.memory toc.word address

def nranlibs (big : Bool) : Nat := toc.number big 0 / (2 * toc.word)

def strsize (big : Bool) : Nat := toc.number big (toc.word + 2 * toc.word * toc.nranlibs big)

def strx (big : Bool) (i : Nat) : Nat := toc.number big (toc.word + 2 * toc.word * i)

def off (big : Bool) (i : Nat) : Nat := toc.number big (toc.word + 2 * toc.word * i + toc.word)

def goodRanlib (big : Bool) (i : Nat) : Bool :=
  toc.strx big i < toc.strsize big && toc.off big i < toc.fileSize &&
    toc.off big i % (if toc.host386 then 2 else toc.word) = 0

/-- `offset - (2 * sizeof(uint32_t)) > symdef_length`, with 64-bit numbers. -/
def pastEnd (offset : Nat) : Bool := (offset % 2 ^ 64 + 2 ^ 64 - 2 * toc.word) % 2 ^ 64 > toc.size

def check : Outcome :=
  if !toc.isArchive then .empty
  else if toc.size < 2 * toc.word then .bad
  else match toc.bigEndian with
  | none => .bad
  | some big =>
    let offset := toc.word + 2 * toc.word * toc.nranlibs big
    if toc.nranlibs big = 0 then .empty
    else if toc.pastEnd offset then .bad
    else if toc.pastEnd (offset + toc.word + toc.strsize big) then .bad
    else if toc.size = 2 * toc.word then .empty
    else if (List.range (toc.nranlibs big)).all (toc.goodRanlib big) then
      .checked (toc.nranlibs big) (toc.strsize big)
    else .bad

def stop (nranlibs strsize : Nat) : Nat := toc.word + 2 * toc.word * nranlibs + toc.word + strsize

/-- What is accepted is inside the member, and its indices inside the strings and the file. -/
def Sound : Prop :=
  ∀ nranlibs strsize, toc.check = .checked nranlibs strsize →
    toc.stop nranlibs strsize ≤ toc.size ∧
    ∃ big, toc.bigEndian = some big ∧
      ∀ i < nranlibs, toc.strx big i < strsize ∧ toc.off big i < toc.fileSize

/-- The table has ranlibs and none of them is bad. -/
structure Filled (big : Bool) : Prop where
  archive : toc.isArchive = true
  long : 2 * toc.word < toc.size
  sex : toc.bigEndian = some big
  some : toc.nranlibs big ≠ 0
  good : ∀ i < toc.nranlibs big, toc.goodRanlib big i = true

/-- The ranlibs and the strings, without the two size words. -/
def content (big : Bool) : Nat := 2 * toc.word * toc.nranlibs big + toc.strsize big

/-- Ranlibs and strings leave less than the two size words of the member. -/
def Crowded (big : Bool) : Prop :=
  toc.size < toc.content big + 2 * toc.word ∧ toc.content big ≤ toc.size

/-- The size of the strings is so large that 64-bit sums come out small again. -/
def Wraps (big : Bool) : Prop :=
  2 * toc.word * toc.nranlibs big ≤ toc.size + toc.word ∧ 2 ^ 64 ≤ toc.content big ∧
    toc.content big ≤ toc.size + 2 ^ 64

variable {toc}

theorem word_cases : toc.word = 4 ∨ toc.word = 8 := by
  unfold word
  split
  · exact .inr rfl
  · exact .inl rfl

theorem number_lt (big : Bool) (address : Nat) : toc.number big address < 256 ^ toc.word := by
  unfold number
  split
  · exact ByteOrder.big_lt toc.memory toc.word address
  · exact ByteOrder.little_lt toc.memory toc.word address

theorem number_lt_word (big : Bool) (address : Nat) : toc.number big address < 2 ^ 64 := by
  have small : toc.number big address < 256 ^ toc.word := number_lt big address
  obtain four | eight : toc.word = 4 ∨ toc.word = 8 := word_cases
  · rw [four] at small
    omega
  · rwa [eight] at small

theorem ranlibs_pass_iff {big : Bool} (filled : toc.nranlibs big ≠ 0) :
    toc.pastEnd (toc.word + 2 * toc.word * toc.nranlibs big) = false ↔
      2 * toc.word * toc.nranlibs big ≤ toc.size + toc.word := by
  have small : toc.number big 0 < 2 ^ 64 := number_lt_word big 0
  have whole : 2 * toc.word * toc.nranlibs big ≤ toc.number big 0 := Nat.mul_div_le ..
  have sizeFits := toc.sizeFits
  unfold pastEnd
  rw [decide_eq_false_iff_not]
  obtain word | word : toc.word = 4 ∨ toc.word = 8 := word_cases
  all_goals
    rw [word] at whole ⊢
    omega

theorem strings_pass_iff (big : Bool) :
    toc.pastEnd (toc.stop (toc.nranlibs big) (toc.strsize big)) = false ↔
      toc.content big ≤ toc.size ∨
        2 ^ 64 ≤ toc.content big ∧ toc.content big ≤ toc.size + 2 ^ 64 := by
  have small : toc.number big 0 < 2 ^ 64 := number_lt_word big 0
  have strings : toc.strsize big < 2 ^ 64 := number_lt_word big _
  have whole : 2 * toc.word * toc.nranlibs big ≤ toc.number big 0 := Nat.mul_div_le ..
  have sizeFits := toc.sizeFits
  unfold pastEnd stop content
  rw [decide_eq_false_iff_not]
  obtain word | word : toc.word = 4 ∨ toc.word = 8 := word_cases
  all_goals
    rw [word] at whole ⊢
    omega

theorem check_checked_iff {nranlibs strsize : Nat} :
    toc.check = .checked nranlibs strsize ↔ ∃ big, toc.Filled big ∧
      2 * toc.word * toc.nranlibs big ≤ toc.size + toc.word ∧
      (toc.content big ≤ toc.size ∨
        2 ^ 64 ≤ toc.content big ∧ toc.content big ≤ toc.size + 2 ^ 64) ∧
      nranlibs = toc.nranlibs big ∧ strsize = toc.strsize big := by
  constructor
  · intro checked
    unfold check at checked
    split at checked
    · cases checked
    next archive =>
    split at checked
    · cases checked
    next short =>
    split at checked
    · cases checked
    next big sex =>
    dsimp only at checked
    split_ifs at checked with none ranlibs strings least good
    cases checked
    refine ⟨big, ⟨by simpa using archive, by omega, sex, none, by simpa using good⟩, ?_, ?_, rfl,
      rfl⟩
    · exact (ranlibs_pass_iff none).mp (by simpa using ranlibs)
    · exact (strings_pass_iff big).mp (by simpa [stop] using strings)
  · rintro ⟨big, filled, ranlibs, strings, rfl, rfl⟩
    have enough : ¬ toc.size < 2 * toc.word := by have := filled.long; omega
    have more : toc.size ≠ 2 * toc.word := filled.long.ne'
    have strings := (strings_pass_iff big).mpr strings
    rw [stop] at strings
    simpa [check, filled.archive, enough, filled.sex, filled.some,
      (ranlibs_pass_iff filled.some).mpr ranlibs, strings, more] using filled.good

end Toc

def cutOff : Toc where
  isArchive := true
  wide := false
  bigEndian := some false
  size := 9
  sizeFits := by decide
  fileSize := 100
  host386 := false
  memory := ByteOrder.ofList [8, 0, 0, 0, 0, 0, 0, 0, 0, 0, 0, 0, 1, 0, 0, 0]

end DeveloperTools.Cctools.ArchiveToc
