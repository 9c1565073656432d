import DeveloperTools.Ld64.FixupKinds
import Mathlib.Tactic

/-!
`DataInCodeAtom` writes the ranges of data inside functions as entries with an offset of 32 bits
and a length of 16 bits. A long range is cut into pieces of 0xFFF8 bytes, but every entry is
given the length of all that is left.
-/

namespace DeveloperTools.Ld64.DataInCode

open List Option

structure Entry where
  offset : BitVec 32
  length : BitVec 16
  kind : BitVec 16
deriving DecidableEq, Repr

/-- The kind of an entry; `none` stands for the assertion. -/
def diceKind : Kind → Option (BitVec 16)
  | .dataInCodeStartData => some 1
  | .dataInCodeStartJT8 => some 2
  | .dataInCodeStartJT16 => some 3
  | .dataInCodeStartJT32 => some 4
  | .dataInCodeStartJTA32 => some 5
  | _ => none

/-- The loop of `encodeEntry`, which is entered with every length. -/
def encodeLoop (startImageOffset : BitVec 32) (len : Int) (kind : BitVec 16) : List Entry :=
  ⟨startImageOffset, BitVec.ofInt 16 len, kind⟩ ::
    -- in rare case data range is huge, create multiple entries
    if 0 < len - 0xFFF8 then encodeLoop (startImageOffset + 0xFFF8) (len - 0xFFF8) kind else []
termination_by len.toNat

def encodeEntry (startImageOffset : BitVec 32) (len : Int) (kind : Kind) : Option (List Entry) :=
  (diceKind kind).map (encodeLoop startImageOffset len)

structure Label where
  kind : Kind
  offsetInAtom : BitVec 32
deriving DecidableEq

def Label.offset (label : Label) : Nat := label.offsetInAtom.toNat

structure CodeAtom where
  finalAddress : BitVec 64
  size : BitVec 64
  fixups : List Label

def isLabel : Kind → Bool
  | .dataInCodeStartData | .dataInCodeStartJT8 | .dataInCodeStartJT16 | .dataInCodeStartJT32
  | .dataInCodeStartJTA32 | .dataInCodeEnd => true
  | _ => false

/-- `FixupByAddressSorter`, made reflexive; `rank` is the number of a kind. -/
def Label.notAfter (rank : Kind → Nat) (left right : Label) : Bool :=
  if left.offset ≠ right.offset then left.offset < right.offset
  else rank right.kind ≤ rank left.kind

def CodeAtom.dataInCodeLabels (rank : Kind → Nat) (atom : CodeAtom) : List Label :=
  (atom.fixups.filter fun fixup => isLabel fixup.kind).mergeSort (Label.notAfter rank)

/-- What the loop over the labels passes to `encodeEntry`: where the data begins in the atom, the
length as the `int` it is made, and the kind. -/
def ranges (size : BitVec 64) : Kind → BitVec 32 → List Label → List (BitVec 32 × Int × Kind)
  | prevKind, prevOffset, [] =>
    -- add entry if function ends with data
    if prevKind ≠ .dataInCodeEnd then
      [(prevOffset, ((size - prevOffset.setWidth 64).setWidth 32).toInt, prevKind)]
    else []
  | prevKind, prevOffset, label :: rest =>
    let here :=
      if label.kind ≠ prevKind ∧ prevKind ≠ .dataInCodeEnd then
        [(prevOffset, (label.offsetInAtom - prevOffset).toInt, prevKind)]
      else []
    here ++ ranges size label.kind label.offsetInAtom rest

def encodeRange (mhAddress : BitVec 64) (atom : CodeAtom) (range : BitVec 32 × Int × Kind) :
    Option (List Entry) :=
  encodeEntry ((atom.finalAddress + range.1.setWidth 64 - mhAddress).setWidth 32) range.2.1
    range.2.2

def encodeAtom (rank : Kind → Nat) (mhAddress : BitVec 64) (atom : CodeAtom) :
    Option (List Entry) :=
  ((ranges atom.size .dataInCodeEnd 0 (atom.dataInCodeLabels rank)).mapM
    (encodeRange mhAddress atom)).map flatten

/-- Entries of the kind, one behind the other, that cover the range and nothing else. -/
def Tiles (kind : BitVec 16) : Nat → Nat → List Entry → Prop
  | start, finish, [] => start = finish
  | start, finish, entry :: rest =>
    entry.offset.toNat = start ∧ entry.kind = kind ∧
      Tiles kind (start + entry.length.toNat) finish rest

variable {kind : BitVec 16} {start : BitVec 32} {len : Int}

theorem encode_loop_short (short : len ≤ 0xFFF8) :
    encodeLoop start len kind = [⟨start, BitVec.ofInt 16 len, kind⟩] := by
  rw [encodeLoop, if_neg (by omega)]

theorem encode_loop_long (long : 0xFFF8 < len) : encodeLoop start len kind =
      ⟨start, BitVec.ofInt 16 len, kind⟩ :: encodeLoop (start + 0xFFF8) (len - 0xFFF8) kind := by
  rw [encodeLoop, if_pos (by omega)]

theorem length_toNat : ((BitVec.ofInt 16 len).toNat : Int) = len % 65536 := by
  rw [BitVec.toNat_ofInt]
  omega

/-- The last piece but one is never as long as the step. -/
theorem long_range_not_tiled (long : 0xFFF8 < len) {finish : Nat} :
    ¬ Tiles kind start.toNat finish (encodeLoop start len kind) := by
  induction size : len.toNat using Nat.strong_induction_on generalizing len start with
  | _ size ih =>
    intro tiled
    rw [encode_loop_long long] at tiled
    obtain ⟨_, _, tail⟩ := tiled
    have length := @length_toNat len
    have next : (start + 0xFFF8).toNat = start.toNat + (BitVec.ofInt 16 len).toNat := by
      rw [encodeLoop] at tail
      exact tail.1
    have wraps : (start + 0xFFF8).toNat = (start.toNat + 0xFFF8) % 2 ^ 32 :=
      BitVec.toNat_add start 0xFFF8
    -- an entry that is followed by another one is as long as the step
    rw [← next] at tail
    by_cases more : 0xFFF8 < len - 0xFFF8
    · exact ih (len - 0xFFF8).toNat (by omega) more rfl tail
    · omega

/-- The entries cover the range, if and only if it is not longer than one step. -/
theorem entries_tile_iff {start : BitVec 32} {len : Int} {kind : Kind} {code : BitVec 16}
    (positive : 0 < len) (isCode : diceKind kind = some code) :
    (∃ entries, encodeEntry start len kind = some entries ∧
        Tiles code start.toNat (start.toNat + len.toNat) entries) ↔ len ≤ 0xFFF8 := by
  rw [encodeEntry, isCode, map_some]
  constructor
  · rintro ⟨entries, isEntries, tiled⟩
    cases isEntries
    exact Int.not_lt.mp fun long => long_range_not_tiled long tiled
  intro short
  refine ⟨_, rfl, ?_⟩
  rw [encode_loop_short short]
  have length := @length_toNat len
  refine ⟨rfl, rfl, ?_⟩
  change start.toNat + (BitVec.ofInt 16 len).toNat = start.toNat + len.toNat
  omega

theorem one_step_tiles :
    (∃ entries, encodeEntry 0x1000 0xFFF8 .dataInCodeStartData = some entries ∧
        Tiles 1 (0x1000 : BitVec 32).toNat ((0x1000 : BitVec 32).toNat + (0xFFF8 : Int).toNat)
          entries) ↔ (0xFFF8 : Int) ≤ 0xFFF8 :=
  entries_tile_iff (by decide) rfl

/-- One byte more: two entries that overlap. One of 64K: an empty entry, and a gap. -/
theorem long_ranges_not_covered :
    (encodeEntry 0x1000 0xFFF9 .dataInCodeStartData =
        some [⟨0x1000, 0xFFF9, 1⟩, ⟨0x10FF8, 1, 1⟩] ∧
      ¬ Tiles 1 0x1000 (0x1000 + 0xFFF9) [⟨0x1000, 0xFFF9, 1⟩, ⟨0x10FF8, 1, 1⟩]) ∧
    encodeEntry 0x1000 0x10000 .dataInCodeStartData =
        some [⟨0x1000, 0, 1⟩, ⟨0x10FF8, 8, 1⟩] ∧
      ¬ Tiles 1 0x1000 (0x1000 + 0x10000) [⟨0x1000, 0, 1⟩, ⟨0x10FF8, 8, 1⟩] := by
  have first : (0xFFF9 : Int) - 0xFFF8 ≤ 0xFFF8 := by decide
  have second : (0x10000 : Int) - 0xFFF8 ≤ 0xFFF8 := by decide
  refine ⟨⟨?_, by simp [Tiles]⟩, ?_, by simp [Tiles]⟩
  · rw [encodeEntry, diceKind, map_some, encode_loop_long (by decide), encode_loop_short first]
    rfl
  · rw [encodeEntry, diceKind, map_some, encode_loop_long (by decide), encode_loop_short second]
    rfl

/-- The last label before the byte starts data of the kind, and the label behind it is not of the
same kind: of two labels of one kind only the second is seen. -/
def MarkedBy (labels : List Label) (offset : Nat) (kind : Kind) : Prop :=
  kind ≠ .dataInCodeEnd ∧ ∃ before label after, labels = before ++ label :: after ∧
    label.kind = kind ∧ label.offset ≤ offset ∧ (∀ later ∈ after, offset < later.offset) ∧
    ∀ next ∈ after.head?, next.kind ≠ kind

/-- A range that lies in the atom, not before `start`. -/
structure InAtom (size start : Nat) (range : BitVec 32 × Int × Kind) : Prop where
  behind : start ≤ range.1.toNat
  length : 0 ≤ range.2.1
  inside : range.1.toNat + range.2.1 ≤ size
  kind : isLabel range.2.2 = true
  data : range.2.2 ≠ .dataInCodeEnd

def Before (left right : BitVec 32 × Int × Kind) : Prop := left.1.toNat + left.2.1 ≤ right.1.toNat

def Covers (range : BitVec 32 × Int × Kind) (offset : Nat) : Prop :=
  range.1.toNat ≤ offset ∧ (offset : Int) < range.1.toNat + range.2.1

section Marks

variable {first label : Label} {rest : List Label} {offset : Nat} {kind : Kind}

theorem marked_by_last : MarkedBy [first] offset kind ↔
    kind ≠ .dataInCodeEnd ∧ first.kind = kind ∧ first.offset ≤ offset := by
  constructor
  · rintro ⟨data, before, label, after, split, isKind, reached, _⟩
    obtain ⟨rfl, rfl, rfl⟩ : before = [] ∧ first = label ∧ after = [] := by
      cases before <;> simp_all
    exact ⟨data, isKind, reached⟩
  · rintro ⟨data, isKind, reached⟩
    exact ⟨data, [], first, [], rfl, isKind, reached, by simp, by simp⟩

theorem marked_by_cons (sorted : ∀ later ∈ rest, label.offset ≤ later.offset) :
    MarkedBy (first :: label :: rest) offset kind ↔
      (kind ≠ .dataInCodeEnd ∧ first.kind = kind ∧ label.kind ≠ kind ∧ first.offset ≤ offset ∧
        offset < label.offset) ∨ MarkedBy (label :: rest) offset kind := by
  constructor
  · rintro ⟨data, before, marking, after, split, isKind, reached, later, next⟩
    cases before with
    | nil =>
      cases split
      exact .inl ⟨data, isKind, next label rfl, reached, later label mem_cons_self⟩
    | cons _ before =>
      exact .inr ⟨data, before, marking, after, (cons.inj split).2, isKind, reached, later, next⟩
  · rintro (⟨data, isKind, other, reached, ahead⟩ | ⟨data, before, marking, after, split, marks⟩)
    · refine ⟨data, [], first, label :: rest, rfl, isKind, reached, ?_, ?_⟩
      · intro later isLater
        rcases mem_cons.mp isLater with rfl | isLater
        · exact ahead
        · exact ahead.trans_le (sorted later isLater)
      · rintro next ⟨⟩
        exact other
    · exact ⟨data, first :: before, marking, after, by rw [split, cons_append], marks⟩

theorem marked_by_end {labels : List Label} : MarkedBy (⟨.dataInCodeEnd, 0⟩ :: labels) offset kind ↔
    MarkedBy labels offset kind := by
  constructor
  · rintro ⟨data, before, marking, after, split, isKind, marks⟩
    cases before with
    | nil =>
      cases split
      exact absurd isKind.symm data
    | cons _ before =>
      exact ⟨data, before, marking, after, (cons.inj split).2, isKind, marks⟩
  · rintro ⟨data, before, marking, after, split, marks⟩
    exact ⟨data, _ :: before, marking, after, by rw [split, cons_append], marks⟩

end Marks

section Ranges

variable {size : BitVec 64} (small : size.toNat < 2 ^ 31)

include small in
theorem last_length {start : BitVec 32} (inside : start.toNat ≤ size.toNat) :
    ((size - start.setWidth 64).setWidth 32).toInt = size.toNat - start.toNat := by
  rw [BitVec.toInt_eq_toNat_of_lt]
  all_goals
    rw [BitVec.toNat_setWidth, BitVec.toNat_sub, BitVec.toNat_setWidth]
    omega

theorem middle_length {start stop : BitVec 32} (ordered : start.toNat ≤ stop.toNat)
    (inside : stop.toNat < 2 ^ 31) : (stop - start).toInt = stop.toNat - start.toNat := by
  rw [BitVec.toInt_eq_toNat_of_lt]
  all_goals
    rw [BitVec.toNat_sub]
    omega

/-- What the loop needs of the labels before it: they are in the atom and in order. -/
structure Sorted (size start : Nat) (labels : List Label) : Prop where
  inside : ∀ label ∈ labels, start ≤ label.offset ∧ label.offset ≤ size
  kinds : ∀ label ∈ labels, isLabel label.kind = true
  ordered : labels.Pairwise fun left right => left.offset ≤ right.offset

theorem Sorted.tail {start : Nat} {label : Label} {rest : List Label}
    (sorted : Sorted size.toNat start (label :: rest)) :
    Sorted size.toNat label.offset rest where
  inside later isLater := ⟨(pairwise_cons.mp sorted.ordered).1 later isLater,
    (sorted.inside later (.tail _ isLater)).2⟩
  kinds later isLater := sorted.kinds later (.tail _ isLater)
  ordered := (pairwise_cons.mp sorted.ordered).2

include small in
theorem ranges_in_order : ∀ {labels : List Label} {kind : Kind} {start : BitVec 32},
    start.toNat ≤ size.toNat → isLabel kind = true → Sorted size.toNat start.toNat labels →
      (∀ range ∈ ranges size kind start labels, InAtom size.toNat start.toNat range) ∧
        (ranges size kind start labels).Pairwise Before
  | [], kind, start, inside, isKind, _ => by
    rw [ranges]
    split
    next data =>
      refine ⟨fun range isIn => ?_, pairwise_singleton _ _⟩
      rw [mem_singleton.mp isIn, last_length small inside]
      exact ⟨Nat.le_refl _, by dsimp only; omega, by dsimp only; omega, isKind, data⟩
    · exact ⟨fun range isIn => absurd isIn not_mem_nil, List.Pairwise.nil⟩
  | label :: rest, kind, start, inside, isKind, sorted => by
    have here : start.toNat ≤ label.offsetInAtom.toNat ∧ label.offsetInAtom.toNat ≤ size.toNat :=
      sorted.inside label mem_cons_self
    obtain ⟨restIn, restSorted⟩ :=
      ranges_in_order here.2 (sorted.kinds label mem_cons_self) sorted.tail
    have behind (range) (isIn : range ∈ ranges size label.kind label.offsetInAtom rest) :
        InAtom size.toNat start.toNat range :=
      { restIn range isIn with behind := here.1.trans (restIn range isIn).behind }
    rw [ranges]
    split
    next both =>
      rw [middle_length here.1 (by omega)]
      constructor
      · intro range isIn
        rcases mem_append.mp isIn with isHere | isRest
        · rw [mem_singleton.mp isHere]
          exact ⟨Nat.le_refl _, by dsimp only; omega, by dsimp only; omega, isKind, both.2⟩
        · exact behind range isRest
      · refine pairwise_append.mpr ⟨pairwise_singleton _ _, restSorted, ?_⟩
        intro left isLeft right isRight
        have := (restIn right isRight).behind
        rw [mem_singleton.mp isLeft, Before]
        dsimp only
        omega
    · exact ⟨behind, restSorted⟩

include small in
theorem ranges_mark {offset : Nat} {kind : Kind} : ∀ {labels : List Label} {first : Label},
    first.offset ≤ size.toNat → Sorted size.toNat first.offset labels →
      ((∃ range ∈ ranges size first.kind first.offsetInAtom labels,
          range.2.2 = kind ∧ Covers range offset) ↔
        offset < size.toNat ∧ MarkedBy (first :: labels) offset kind)
  | [], first, inside, _ => by
    have length := last_length small inside
    rw [ranges, marked_by_last]
    split
    next data =>
      rw [length]
      simp only [mem_singleton, exists_eq_left, Covers]
      constructor
      · rintro ⟨rfl, from_, below⟩
        exact ⟨by omega, data, rfl, from_⟩
      · rintro ⟨below, _, rfl, reached⟩
        exact ⟨rfl, reached, by omega⟩
    next code =>
      simp only [not_mem_nil, false_and, exists_false, false_iff]
      rintro ⟨_, data, rfl, _⟩
      exact code data
  | label :: rest, first, inside, sorted => by
    have here := sorted.inside label mem_cons_self
    have length : (label.offsetInAtom - first.offsetInAtom).toInt = label.offset - first.offset :=
      middle_length here.1 (here.2.trans_lt small)
    rw [ranges, marked_by_cons (fun later isLater => (sorted.tail.inside later isLater).1),
      and_or_left, ← ranges_mark here.2 sorted.tail]
    simp only [mem_append, or_and_right, exists_or]
    refine or_congr_left ?_
    split
    next both =>
      rw [length]
      simp only [mem_singleton, exists_eq_left, Covers, Label.offset] at here ⊢
      constructor
      · rintro ⟨rfl, reached, below⟩
        exact ⟨by omega, both.2, rfl, both.1, reached, by omega⟩
      · rintro ⟨_, _, rfl, _, reached, below⟩
        exact ⟨rfl, reached, by omega⟩
    next code =>
      simp only [not_mem_nil, false_and, exists_false, false_iff]
      rintro ⟨_, data, rfl, other, _⟩
      exact code ⟨other, data⟩

end Ranges

section Entries

def Entry.Covers (entry : Entry) (address : Nat) : Prop :=
  entry.offset.toNat ≤ address ∧ address < entry.offset.toNat + entry.length.toNat

theorem dice_kind_of_data : ∀ {kind : Kind}, isLabel kind = true → kind ≠ .dataInCodeEnd →
    diceKind kind = some ((diceKind kind).getD 0) := by
  intro kind isKind data
  cases kind <;> first | rfl | exact absurd rfl data | cases isKind

theorem dice_kind_inj {left right : Kind} {code : BitVec 16} (isLeft : diceKind left = some code)
    (isRight : diceKind right = some code) : left = right := by
  unfold diceKind at isLeft isRight
  split at isLeft <;> split at isRight <;> simp_all <;> cases isLeft <;> cases isRight

variable (rank : Kind → Nat) {mhAddress : BitVec 64} {atom : CodeAtom}

/-- The one entry of a short range. -/
def entryOf (mhAddress : BitVec 64) (atom : CodeAtom) (range : BitVec 32 × Int × Kind) : Entry :=
  ⟨(atom.finalAddress + range.1.setWidth 64 - mhAddress).setWidth 32, BitVec.ofInt 16 range.2.1,
    (diceKind range.2.2).getD 0⟩

theorem map_m_flatten {Item Made : Type} {make : Item → Option (List Made)} {one : Item → Made} :
    ∀ {items : List Item}, (∀ item ∈ items, make item = some [one item]) →
      (items.mapM make).map flatten = some (items.map one)
  | [], _ => rfl
  | item :: rest, made => by
    have later := map_m_flatten fun other isIn => made other (.tail _ isIn)
    rw [mapM_cons, made item mem_cons_self]
    cases isMade : rest.mapM make with
    | none => simp [isMade] at later
    | some others => simp_all

structure Placed (mhAddress : BitVec 64) (atom : CodeAtom) : Prop where
  short : atom.size.toNat ≤ 0xFFF8
  labels : ∀ fixup ∈ atom.fixups, isLabel fixup.kind = true → fixup.offset ≤ atom.size.toNat
  behind : mhAddress.toNat ≤ atom.finalAddress.toNat
  reached : atom.finalAddress.toNat - mhAddress.toNat + atom.size.toNat < 2 ^ 32

variable (placed : Placed mhAddress atom)

include placed in
theorem labels_sorted : Sorted atom.size.toNat 0 (atom.dataInCodeLabels rank) where
  inside label isIn := by
    obtain ⟨isFixup, isKind⟩ := mem_filter.mp (mem_mergeSort.mp isIn)
    exact ⟨Nat.zero_le _, placed.labels label isFixup isKind⟩
  kinds label isIn := (mem_filter.mp (mem_mergeSort.mp isIn)).2
  ordered := by
    refine (pairwise_mergeSort ?_ ?_ _).imp fun {left right} ordered => ?_
    all_goals grind [Label.notAfter]

include placed in
theorem entry_of_in_atom {range : BitVec 32 × Int × Kind} (isIn : InAtom atom.size.toNat 0 range) :
    (entryOf mhAddress atom range).offset.toNat =
        atom.finalAddress.toNat - mhAddress.toNat + range.1.toNat ∧
      ((entryOf mhAddress atom range).length.toNat : Int) = range.2.1 ∧
      diceKind range.2.2 = some (entryOf mhAddress atom range).kind := by
  obtain ⟨short, _, behind, reached⟩ := placed
  obtain ⟨_, length, inside, kind, data⟩ := isIn
  refine ⟨?_, ?_, dice_kind_of_data kind data⟩
  · simp only [entryOf, BitVec.toNat_setWidth, BitVec.toNat_sub, BitVec.toNat_add]
    omega
  · rw [entryOf, length_toNat]
    omega

include placed in
theorem encode_atom_eq (inAtom : ∀ range ∈ ranges atom.size .dataInCodeEnd 0
      (atom.dataInCodeLabels rank), InAtom atom.size.toNat 0 range) :
    encodeAtom rank mhAddress atom = some ((ranges atom.size .dataInCodeEnd 0
      (atom.dataInCodeLabels rank)).map (entryOf mhAddress atom)) := by
  apply map_m_flatten
  intro range isIn
  have short := (inAtom range isIn).inside
  rw [encodeRange, encodeEntry, (entry_of_in_atom placed (inAtom range isIn)).2.2, map_some,
    encode_loop_short (by have := placed.short; omega)]
  rfl

include placed in
/-- The entries of an atom do not overlap, and together say of each byte of the image which data
it is, as the labels do. -/
theorem entries_mark_exactly : ∃ entries, encodeAtom rank mhAddress atom = some entries ∧
    (entries.Pairwise fun left right =>
      left.offset.toNat + left.length.toNat ≤ right.offset.toNat) ∧
    ∀ address kind code, diceKind kind = some code →
      ((∃ entry ∈ entries, entry.kind = code ∧ entry.Covers address) ↔
        ∃ offset < atom.size.toNat,
          address = atom.finalAddress.toNat - mhAddress.toNat + offset ∧
            MarkedBy (atom.dataInCodeLabels rank) offset kind) := by
  have small : atom.size.toNat < 2 ^ 31 := by have := placed.short; omega
  have sorted := labels_sorted rank placed
  obtain ⟨inAtom, ordered⟩ := @ranges_in_order atom.size small (atom.dataInCodeLabels rank)
    .dataInCodeEnd 0 (Nat.zero_le _) rfl sorted
  refine ⟨_, encode_atom_eq rank placed inAtom, ?_, fun address kind code isCode => ?_⟩
  · refine pairwise_map.mpr (ordered.imp_of_mem fun isLeft isRight before => ?_)
    have left := entry_of_in_atom placed (inAtom _ isLeft)
    have right := entry_of_in_atom placed (inAtom _ isRight)
    unfold Before at before
    omega
  have marks (offset : Nat) := @ranges_mark atom.size small offset kind
    (atom.dataInCodeLabels rank) ⟨.dataInCodeEnd, 0⟩ (Nat.zero_le _) sorted
  simp only [marked_by_end] at marks
  constructor
  · rintro ⟨entry, isEntry, isKind, reached⟩
    obtain ⟨range, isRange, rfl⟩ := mem_map.mp isEntry
    obtain ⟨start, length, ofKind⟩ := entry_of_in_atom placed (inAtom range isRange)
    unfold Entry.Covers at reached
    rw [isKind] at ofKind
    obtain ⟨inside, marked⟩ := (marks (address - (atom.finalAddress.toNat - mhAddress.toNat))).mp
      ⟨range, isRange, dice_kind_inj ofKind isCode, by unfold Covers; omega⟩
    exact ⟨_, inside, by omega, marked⟩
  · rintro ⟨offset, inside, rfl, marked⟩
    obtain ⟨range, isRange, rfl, covers⟩ := (marks offset).mpr ⟨inside, marked⟩
    obtain ⟨start, length, ofKind⟩ := entry_of_in_atom placed (inAtom range isRange)
    unfold Covers at covers
    exact ⟨_, mem_map_of_mem isRange, some.inj (ofKind.symm.trans isCode), by
      unfold Entry.Covers; omega⟩

def twoTables : CodeAtom where
  finalAddress := 0x2000
  size := 32
  fixups := [⟨.storeARM64Branch26, 0⟩, ⟨.dataInCodeStartData, 4⟩, ⟨.dataInCodeStartJT8, 12⟩,
    ⟨.dataInCodeEnd, 20⟩]

theorem two_tables_marked : ∃ entries,
    encodeAtom (fun _ => 0) 0x1000 twoTables = some entries ∧
      (∃ entry ∈ entries, entry.kind = 1 ∧ entry.Covers 0x100B) ∧
      (∃ entry ∈ entries, entry.kind = 2 ∧ entry.Covers 0x100C) ∧
      ¬ ∃ entry ∈ entries, entry.kind = 2 ∧ entry.Covers 0x1014 := by
  have placed : Placed 0x1000 twoTables := ⟨by decide, by decide, by decide, by decide⟩
  have labels : twoTables.dataInCodeLabels (fun _ => 0) = [⟨.dataInCodeStartData, 4⟩,
      ⟨.dataInCodeStartJT8, 12⟩, ⟨.dataInCodeEnd, 20⟩] := mergeSort_of_pairwise (by decide)
  obtain ⟨entries, isEntries, _, marks⟩ := entries_mark_exactly (fun _ => 0) placed
  rw [labels] at marks
  refine ⟨entries, isEntries, (marks _ .dataInCodeStartData _ rfl).mpr ⟨11, by decide, rfl, ?_⟩,
    (marks _ .dataInCodeStartJT8 _ rfl).mpr ⟨12, by decide, rfl, ?_⟩, fun covered => ?_⟩
  · exact ⟨by decide, [], _, _, rfl, rfl, by decide, by decide, by decide⟩
  · exact ⟨by decide, [_], _, _, rfl, rfl, by decide, by decide, by decide⟩
  · obtain ⟨offset, _, isOffset, _, before, marking, after, split, isKind, _, later, _⟩ :=
      (marks _ .dataInCodeStartJT8 _ rfl).mp covered
    obtain rfl : offset = 20 := by
      change 0x1014 = 0x2000 - 0x1000 + offset at isOffset
      omega
    rcases before with _ | ⟨_, _ | ⟨_, _ | ⟨_, before⟩⟩⟩
    · cases split
      cases isKind
    · cases split
      exact absurd (later _ mem_cons_self) (by decide)
    · cases split
      cases isKind
    · simp at split

end Entries

end DeveloperTools.Ld64.DataInCode
