import DeveloperTools.Lib.CountedRuns
import DeveloperTools.Lib.OrderedMap
import DeveloperTools.Ld64.RebaseOpcodes

/-!
`SplitSegInfoV2Atom`: the references between sections that the builder of the shared cache has to
adjust. The entries are sorted into maps of maps by sections, target offset and kind, and the
maps are written from the outside in, each behind its size; offsets are written as differences.
A reader of the grammar gets every entry back as often as it was given.
-/

namespace DeveloperTools.Ld64.SplitSegV2

open CountedRuns
open RebaseOpcodes (padToSize)
open List Option

structure SplitSegInfoV2Entry where
  fixupSectionOffset : UInt64
  targetSectionOffset : UInt64
  fixupSectionIndex : UInt8
  targetSectionIndex : UInt8
  referenceKind : UInt8
deriving DecidableEq, Repr

abbrev FromOffsetMap := OrderedMap Nat (List Nat)

abbrev ToOffsetMap := OrderedMap Nat FromOffsetMap

abbrev WholeMap := OrderedMap Nat ToOffsetMap

def sectionIndexes (entry : SplitSegInfoV2Entry) : Nat :=
  entry.fixupSectionIndex.toNat <<< 16 ||| entry.targetSectionIndex.toNat

/-- Sort into group by adjustment kind. -/
def addEntry (whole : WholeMap) (entry : SplitSegInfoV2Entry) : WholeMap :=
  whole.modify (sectionIndexes entry) .empty fun toOffsets =>
    toOffsets.modify entry.targetSectionOffset.toNat .empty fun fromOffsets =>
      fromOffsets.modify entry.referenceKind.toNat [] fun offsets =>
        offsets ++ [entry.fixupSectionOffset.toNat]

def wholeMap (entries : List SplitSegInfoV2Entry) : WholeMap := entries.foldl addEntry .empty

/-- A difference of offsets; they increase, so it is never negative. -/
def encodeFromOffset (lastFromOffset offset : Nat) : Bytes := Leb128.encode (offset - lastFromOffset)

/-- FromOffset :== kind, count, from-sect-offset-delta. -/
def encodeKind (kindAndOffsets : Nat × List Nat) : Bytes :=
  Leb128.encode kindAndOffsets.1 ++ Leb128.encode kindAndOffsets.2.length ++
    encodeRun encodeFromOffset id 0 (kindAndOffsets.2.mergeSort fun left right => left ≤ right)

/-- ToOffset :== to-sect-offset-delta, count, FromOffset+. -/
def encodeToOffset (lastToOffset : Nat) (fromToOffsets : Nat × FromOffsetMap) : Bytes :=
  Leb128.encode (fromToOffsets.1 - lastToOffset) ++
    Leb128.encode fromToOffsets.2.entries.length ++
    encodeRun (fun _ : Unit => encodeKind) (fun _ => ()) () fromToOffsets.2.entries

/-- FromToSection :== from-sect-index, to-sect-index, count, ToOffset+. -/
def encodeFromToSection (fromToSection : Nat × ToOffsetMap) : Bytes :=
  let fromSectionIndex := (fromToSection.1 >>> 16) % 256
  let toSectionIndex := (fromToSection.1 &&& 0xFFFF) % 256
  Leb128.encode fromSectionIndex ++ Leb128.encode toSectionIndex ++
    Leb128.encode fromToSection.2.entries.length ++
    encodeRun encodeToOffset Prod.fst 0 fromToSection.2.entries

def v2Format : UInt8 := 0x7f

def encode (pointerSize : Nat) (splitSegV2Infos : List SplitSegInfoV2Entry) : Bytes :=
  let whole := wholeMap splitSegV2Infos
  padToSize pointerSize
    (v2Format :: (Leb128.encode whole.entries.length ++
      encodeRun (fun _ : Unit => encodeFromToSection) (fun _ => ()) () whole.entries ++ [0]))

/-- What the builder adjusts: a reference of a kind between places in two sections. -/
structure Reference where
  fromSection : Nat
  fromOffset : Nat
  toSection : Nat
  toOffset : Nat
  kind : Nat
deriving DecidableEq, Repr

def decodeFromOffset (lastFromOffset : Nat) (bytes : Bytes) : Option (Nat × Bytes) := do
  let (delta, bytes) ← Leb128.decode bytes
  some (lastFromOffset + delta, bytes)

def decodeKind (bytes : Bytes) : Option ((Nat × List Nat) × Bytes) := do
  let (kind, bytes) ← Leb128.decode bytes
  let (count, bytes) ← Leb128.decode bytes
  let (offsets, bytes) ← decodeRun decodeFromOffset id count 0 bytes
  some ((kind, offsets), bytes)

abbrev SeenToOffset := Nat × List (Nat × List Nat)

def decodeToOffset (lastToOffset : Nat) (bytes : Bytes) : Option (SeenToOffset × Bytes) := do
  let (delta, bytes) ← Leb128.decode bytes
  let (count, bytes) ← Leb128.decode bytes
  let (kinds, bytes) ← decodeRun (fun _ : Unit => decodeKind) (fun _ => ()) count () bytes
  some ((lastToOffset + delta, kinds), bytes)

abbrev SeenSections := (Nat × Nat) × List SeenToOffset

def decodeFromToSection (bytes : Bytes) : Option (SeenSections × Bytes) := do
  let (fromSection, bytes) ← Leb128.decode bytes
  let (toSection, bytes) ← Leb128.decode bytes
  let (count, bytes) ← Leb128.decode bytes
  let (toOffsets, bytes) ← decodeRun decodeToOffset Prod.fst count 0 bytes
  some (((fromSection, toSection), toOffsets), bytes)

def references (whole : List SeenSections) : List Reference :=
  whole.flatMap fun sections => sections.2.flatMap fun toOffset => toOffset.2.flatMap fun kind =>
    kind.2.map fun fromOffset =>
      { fromSection := sections.1.1, fromOffset := fromOffset, toSection := sections.1.2
        toOffset := toOffset.1, kind := kind.1 }

/-- The version byte, then Whole :== count, FromToSection+. -/
def decode (bytes : Bytes) : Option (List Reference) := do
  match bytes with
  | [] => none
  | version :: bytes =>
    if version ≠ v2Format then none
    else
      let (count, bytes) ← Leb128.decode bytes
      let (whole, _) ← decodeRun (fun _ : Unit => decodeFromToSection) (fun _ => ()) count () bytes
      some (references whole)

def reference (entry : SplitSegInfoV2Entry) : Reference where
  fromSection := entry.fixupSectionIndex.toNat
  fromOffset := entry.fixupSectionOffset.toNat
  toSection := entry.targetSectionIndex.toNat
  toOffset := entry.targetSectionOffset.toNat
  kind := entry.referenceKind.toNat

def viewKind (kindAndOffsets : Nat × List Nat) : Nat × List Nat :=
  (kindAndOffsets.1, kindAndOffsets.2.mergeSort fun left right => left ≤ right)

def viewToOffset (fromToOffsets : Nat × FromOffsetMap) : SeenToOffset :=
  (fromToOffsets.1, fromToOffsets.2.entries.map viewKind)

def viewSections (fromToSection : Nat × ToOffsetMap) : SeenSections :=
  (((fromToSection.1 >>> 16) % 256, (fromToSection.1 &&& 0xFFFF) % 256),
    fromToSection.2.entries.map viewToOffset)

theorem decode_from_offset (last offset : Nat) (suffix : Bytes) (above : last ≤ offset) :
    decodeFromOffset last (encodeFromOffset last offset ++ suffix) = some (offset, suffix) := by
  rw [decodeFromOffset, encodeFromOffset, Leb128.decode_encode]
  simp only [bind_eq_bind, bind_some, Nat.add_sub_cancel' above]

theorem decode_kind (kindAndOffsets : Nat × List Nat) (suffix : Bytes) :
    decodeKind (encodeKind kindAndOffsets ++ suffix) = some (viewKind kindAndOffsets, suffix) := by
  have ordered : (kindAndOffsets.2.mergeSort fun left right => left ≤ right).Pairwise
      fun left right => id left ≤ id right := Sorting.merge_sort_by_key id kindAndOffsets.2
  have follows := follows_of_ordered ordered 0 fun _ _ => Nat.zero_le _
  have run := decode_run id id id (fun _ => rfl) decode_from_offset follows suffix
  rw [length_mergeSort, List.map_id] at run
  rw [decodeKind, encodeKind, append_assoc, append_assoc, Leb128.decode_encode]
  simp only [bind_eq_bind, bind_some, Leb128.decode_encode, run]
  rfl

theorem decode_to_offset (last : Nat) (fromToOffsets : Nat × FromOffsetMap) (suffix : Bytes)
    (above : last ≤ fromToOffsets.1) :
    decodeToOffset last (encodeToOffset last fromToOffsets ++ suffix) =
      some (viewToOffset fromToOffsets, suffix) := by
  have run := decode_run (fun _ => ()) (fun _ => ()) viewKind (fun _ => rfl)
    (fun _ kind suffix _ => decode_kind kind suffix)
    (follows_always _ () fromToOffsets.2.entries) suffix
  rw [decodeToOffset, encodeToOffset, append_assoc, append_assoc, Leb128.decode_encode]
  simp only [bind_eq_bind, bind_some, Leb128.decode_encode, run, Nat.add_sub_cancel' above]
  rfl

theorem decode_from_to_section (fromToSection : Nat × ToOffsetMap) (suffix : Bytes) :
    decodeFromToSection (encodeFromToSection fromToSection ++ suffix) =
      some (viewSections fromToSection, suffix) := by
  have ordered : fromToSection.2.entries.Pairwise fun left right => left.1 ≤ right.1 :=
    fromToSection.2.ordered.imp le_of_lt
  have follows := follows_of_ordered ordered 0 fun _ _ => Nat.zero_le _
  have run := decode_run Prod.fst Prod.fst viewToOffset (fun _ => rfl) decode_to_offset follows
    suffix
  rw [decodeFromToSection, encodeFromToSection]
  simp only [append_assoc, Leb128.decode_encode, bind_eq_bind, bind_some, run]
  rfl

/-- The items of the maps of one kind, of one pair of sections, and of all of them. -/
def fromItems (fromOffsets : FromOffsetMap) : List (Nat × Nat) :=
  OrderedMap.contents id fromOffsets.entries

def toItems (toOffsets : ToOffsetMap) : List (Nat × Nat × Nat) :=
  OrderedMap.contents fromItems toOffsets.entries

def item (entry : SplitSegInfoV2Entry) : Nat × Nat × Nat × Nat :=
  (sectionIndexes entry, entry.targetSectionOffset.toNat, entry.referenceKind.toNat,
    entry.fixupSectionOffset.toNat)

theorem add_entry_contents (whole : WholeMap) (entry : SplitSegInfoV2Entry) :
    (OrderedMap.contents toItems (addEntry whole entry).entries).Perm
      (item entry :: OrderedMap.contents toItems whole.entries) := by
  have addOffset (offsets : List Nat) : (id (offsets ++ [entry.fixupSectionOffset.toNat])).Perm
      (entry.fixupSectionOffset.toNat :: id offsets) := perm_append_singleton _ _
  exact OrderedMap.contents_modify rfl
    (fun toOffsets => OrderedMap.contents_modify rfl
      (fun fromOffsets => OrderedMap.contents_modify rfl addOffset fromOffsets _) toOffsets _)
    whole _

theorem whole_contents (entries : List SplitSegInfoV2Entry) :
    (OrderedMap.contents toItems (wholeMap entries).entries).Perm (entries.map item) := by
  have general (whole : WholeMap) : (OrderedMap.contents toItems
      (entries.foldl addEntry whole).entries).Perm
      (entries.map item ++ OrderedMap.contents toItems whole.entries) := by
    induction entries generalizing whole with
    | nil => exact List.Perm.refl _
    | cons entry rest ih =>
      apply (ih (addEntry whole entry)).trans
      apply ((add_entry_contents whole entry).append_left _).trans
      exact perm_middle
  have whole := general .empty
  rwa [show OrderedMap.contents toItems (OrderedMap.empty : WholeMap).entries = [] from rfl,
    append_nil] at whole

def itemReference (item : Nat × Nat × Nat × Nat) : Reference where
  fromSection := (item.1 >>> 16) % 256
  fromOffset := item.2.2.2
  toSection := (item.1 &&& 0xFFFF) % 256
  toOffset := item.2.1
  kind := item.2.2.1

theorem item_reference (entry : SplitSegInfoV2Entry) :
    itemReference (item entry) = reference entry := by
  have first := entry.fixupSectionIndex.toNat_lt
  have second := entry.targetSectionIndex.toNat_lt
  have joined : sectionIndexes entry =
      entry.fixupSectionIndex.toNat <<< 16 + entry.targetSectionIndex.toNat :=
    (Nat.shiftLeft_add_eq_or_of_lt (by omega) _).symm
  have masked (value : Nat) : value &&& 0xFFFF = value % 2 ^ 16 :=
    Nat.and_two_pow_sub_one_eq_mod value 16
  rw [itemReference, reference, item]
  simp only [Reference.mk.injEq, and_true, true_and, masked, joined, Nat.shiftLeft_eq,
    Nat.shiftRight_eq_div_pow]
  omega

theorem references_view (whole : WholeMap) : (references (whole.entries.map viewSections)).Perm
      ((OrderedMap.contents toItems whole.entries).map itemReference) := by
  unfold references OrderedMap.contents
  rw [flatMap_map, map_flatMap]
  apply List.Perm.flatMap_left
  intro sections _
  rw [viewSections, toItems, OrderedMap.contents, flatMap_map, map_flatMap, map_flatMap]
  apply List.Perm.flatMap_left
  intro toOffset _
  rw [viewToOffset, fromItems, OrderedMap.contents, flatMap_map]
  simp only [map_flatMap]
  apply List.Perm.flatMap_left
  intro kind _
  simp only [List.map_map]
  exact (mergeSort_perm _ _).map _

/-- Every entry is read back as often as it was given, whatever the order. -/
theorem split_seg_round_trip (pointerSize : Nat) (entries : List SplitSegInfoV2Entry) :
    ∃ decoded, decode (encode pointerSize entries) = some decoded ∧
      decoded.Perm (entries.map reference) := by
  refine ⟨references ((wholeMap entries).entries.map viewSections), ?_, ?_⟩
  · have run (suffix : Bytes) := decode_run (fun _ => ()) (fun _ => ()) viewSections
      (fun _ => rfl) (fun _ sections suffix _ => decode_from_to_section sections suffix)
      (follows_always _ () (wholeMap entries).entries) suffix
    rw [encode, padToSize, cons_append, decode]
    rw [if_neg (fun differs => differs rfl)]
    simp only [append_assoc, Leb128.decode_encode, bind_eq_bind, bind_some, run]
  apply (references_view _).trans
  apply ((whole_contents entries).map itemReference).trans
  rw [List.map_map]
  rw [show itemReference ∘ item = reference from funext item_reference]

end DeveloperTools.Ld64.SplitSegV2
