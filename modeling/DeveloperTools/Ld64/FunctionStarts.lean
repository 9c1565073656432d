import DeveloperTools.Lib.UlebDeltas
import DeveloperTools.Ld64.RebaseOpcodes

/-!
`FunctionStartsAtom::encode` of `LinkEdit.hpp`: the start addresses of the atoms
with code as differences from the start of `__TEXT` on. Addresses that go down
or a function at the start of `__TEXT` do not come back as they were.
-/

namespace DeveloperTools.Ld64.FunctionStarts

open Leb128
open RebaseOpcodes (Bytes padToSize)
open List

inductive SectionType where
  | machHeader
  | code
  | other
deriving DecidableEq, Repr

structure Atom where
  size : Nat
  finalAddress : BitVec 64
  isThumb : Bool
deriving DecidableEq, Repr

structure FinalSection where
  type : SectionType
  address : BitVec 64
  atoms : List Atom
deriving DecidableEq, Repr

def badAddress : Nat := 0xFFFFFFFFFFFFFFFF

def Atom.start (atom : Atom) : Nat :=
  (if atom.isThumb then atom.finalAddress ||| 1 else atom.finalAddress).toNat

def encodeAtoms : List Atom → Nat → Bytes × Nat
  | [], addr => ([], addr)
  | atom :: rest, addr =>
    -- so that no address is in the next section
    if atom.size = 0 then encodeAtoms rest addr
    else
      let difference := delta (2 ^ 64) addr atom.start
      let (bytes, last) := encodeAtoms rest atom.start
      ((if difference ≠ 0 then encode difference else []) ++ bytes, last)

/-- The loop over the sections; `none` stands for the assertion. -/
def encodeSections : List FinalSection → Nat → Option Bytes
  | [], _ => some []
  | sect :: rest, addr =>
    match sect.type with
    | .machHeader => encodeSections rest sect.address.toNat
    | .code =>
      if addr = badAddress then none
      else
        let (bytes, last) := encodeAtoms sect.atoms addr
        (encodeSections rest last).map (bytes ++ ·)
    | .other => encodeSections rest addr

def encodeStarts (pointerSize : Nat) (sections : List FinalSection) : Option Bytes :=
  (encodeSections sections badAddress).map fun bytes => padToSize pointerSize (bytes ++ [0])

def decodeStarts (text : Nat) (stream : Bytes) : Option (List Nat) :=
  (readDeltas (2 ^ 64) stream.length text stream).map Prod.fst

def starts (sections : List FinalSection) : List Nat :=
  (sections.filter (·.type = .code)).flatMap fun sect =>
    (sect.atoms.filter (·.size ≠ 0)).map Atom.start

/-- A final image has one Mach header. -/
structure Image where
  before : List FinalSection
  header : FinalSection
  after : List FinalSection
  isHeader : header.type = .machHeader
  noneBefore : ∀ sect ∈ before, sect.type ≠ .machHeader
  noneAfter : ∀ sect ∈ after, sect.type ≠ .machHeader

def Image.sections (image : Image) : List FinalSection :=
  image.before ++ image.header :: image.after

def Image.text (image : Image) : Nat := image.header.address.toNat

/-- The stream gives the starts in their order, every address once, and they increase. -/
def ReadsBack (image : Image) (stream : Bytes) : Prop :=
  decodeStarts image.text stream = some ((starts image.sections).destutter (· ≠ ·)) ∧
    ((starts image.sections).destutter (· ≠ ·)).Pairwise (· < ·)

theorem starts_fit (sections : List FinalSection) : ∀ start ∈ starts sections, start < 2 ^ 64 := by
  intro start member
  obtain ⟨sect, -, inside⟩ := mem_flatMap.mp member
  obtain ⟨atom, -, rfl⟩ := List.mem_map.mp inside
  exact BitVec.isLt _

theorem encode_atoms_eq (atoms : List Atom) (addr : Nat) : encodeAtoms atoms addr =
      (writeDeltas (2 ^ 64) addr ((atoms.filter (·.size ≠ 0)).map Atom.start),
        ((atoms.filter (·.size ≠ 0)).map Atom.start).getLastD addr) := by
  induction atoms generalizing addr with
  | nil => rfl
  | cons atom atoms ih =>
    rw [encodeAtoms]
    split
    next empty =>
      rw [ih, filter_cons_of_neg (by simp [empty])]
    next present =>
      rw [ih, filter_cons_of_pos (by simp [present]), map_cons, writeDeltas, getLastD_cons]
      simp only [ne_eq, ite_not]

theorem encode_sections_eq {sections : List FinalSection} {addr : Nat} {bytes : Bytes}
    (noHeader : ∀ sect ∈ sections, sect.type ≠ .machHeader)
    (written : encodeSections sections addr = some bytes) :
    bytes = writeDeltas (2 ^ 64) addr (starts sections) := by
  induction sections generalizing addr bytes with
  | nil => exact (Option.some.inj written).symm
  | cons sect sections ih =>
    obtain ⟨notHeader, noHeader⟩ := forall_mem_cons.mp noHeader
    rw [encodeSections] at written
    rw [starts]
    cases kind : sect.type with
    | machHeader => exact absurd kind notHeader
    | code =>
      simp only [kind, encode_atoms_eq] at written
      split at written
      · cases written
      obtain ⟨later, laterWritten, rfl⟩ := Option.map_eq_some_iff.mp written
      rw [filter_cons_of_pos (by simp [kind]), flatMap_cons, write_deltas_append,
        ih noHeader laterWritten]
      rfl
    | other =>
      simp only [kind] at written
      rw [filter_cons_of_neg (by simp [kind])]
      exact ih noHeader written

theorem encode_image_eq (image : Image) {bytes : Bytes}
    (written : encodeSections image.sections badAddress = some bytes) :
    starts image.sections = starts image.after ∧
      bytes = writeDeltas (2 ^ 64) image.text (starts image.after) := by
  obtain ⟨before, header, after, isHeader, noneBefore, noneAfter⟩ := image
  dsimp only [Image.sections, Image.text] at written ⊢
  induction before with
  | nil =>
    rw [nil_append, encodeSections, isHeader] at written
    refine ⟨?_, encode_sections_eq noneAfter written⟩
    rw [nil_append, starts, filter_cons_of_neg (by simp [isHeader]), starts]
  | cons sect before ih =>
    obtain ⟨notHeader, noneBefore⟩ := forall_mem_cons.mp noneBefore
    rw [cons_append, encodeSections] at written
    cases kind : sect.type with
    | machHeader => exact absurd kind notHeader
    | code => simp [kind] at written
    | other =>
      simp only [kind] at written
      rw [cons_append, starts, filter_cons_of_neg (by simp [kind])]
      exact ih noneBefore written

theorem decode_starts_eq {pointerSize : Nat} {image : Image} {stream : Bytes}
    (written : encodeStarts pointerSize image.sections = some stream) :
    decodeStarts image.text stream = some (fresh image.text (starts image.sections)) := by
  obtain ⟨bytes, bytesWritten, rfl⟩ := Option.map_eq_some_iff.mp written
  obtain ⟨same, rfl⟩ := encode_image_eq image bytesWritten
  have textFits : image.text < 2 ^ 64 := BitVec.isLt _
  rw [decodeStarts, padToSize, append_assoc, singleton_append, same,
    read_deltas_written _ textFits (starts_fit _) (by simp)]
  rfl

/-- The function starts are read back exactly when the addresses never go down and the first
of them is not the start of `__TEXT`. -/
theorem function_starts_iff {pointerSize : Nat} {image : Image} {stream : Bytes}
    (written : encodeStarts pointerSize image.sections = some stream) :
    ReadsBack image stream ↔ (starts image.sections).Pairwise (· ≤ ·) ∧
      (starts image.sections).head? ≠ some image.text := by
  rw [ReadsBack, decode_starts_eq written, Option.some.injEq]
  cases starts image.sections with
  | nil => simp [fresh]
  | cons first rest =>
    rw [destutter_eq_fresh, fresh_increasing_iff, and_comm, fresh, List.head?_cons]
    refine and_congr_right fun _ => ?_
    by_cases same : image.text = first
    · have shorter : fresh first rest ≠ first :: fresh first rest := (cons_ne_self _ _).symm
      simp [same, shorter]
    · simp [same, Ne.symm same]

def codeImage (addresses : List (BitVec 64)) : Image where
  before := []
  header := ⟨.machHeader, 0x1000, []⟩
  after := [⟨.code, 0x1000, addresses.map fun address => ⟨4, address, address = 0x3000⟩⟩]
  isHeader := rfl
  noneBefore := nofun
  noneAfter := by simp

theorem aliased_thumb_reads_back : ∃ stream,
    encodeStarts 8 (codeImage [0x2000, 0x3000, 0x3000]).sections = some stream ∧
      ReadsBack (codeImage [0x2000, 0x3000, 0x3000]) stream :=
  ⟨_, rfl, (function_starts_iff rfl).mpr (by decide)⟩

/-- A function at the start of `__TEXT` is lost, and addresses that go down do not increase. -/
theorem starts_lost_or_unordered :
    (∃ stream, encodeStarts 8 (codeImage [0x1000, 0x2000]).sections = some stream ∧
      ¬ ReadsBack (codeImage [0x1000, 0x2000]) stream) ∧
    ∃ stream, encodeStarts 8 (codeImage [0x3000, 0x2000]).sections = some stream ∧
      ¬ ReadsBack (codeImage [0x3000, 0x2000]) stream := by
  refine ⟨⟨_, rfl, ?_⟩, ⟨_, rfl, ?_⟩⟩ <;> rw [ReadsBack, decode_starts_eq rfl] <;> decide

end DeveloperTools.Ld64.FunctionStarts
