import DeveloperTools.Lib.UlebDeltas
import DeveloperTools.Ld64.FixupKinds
import DeveloperTools.Ld64.RebaseOpcodes

/-!
`SplitSegInfoV1Atom` of `LinkEdit.hpp`: the addresses of the fixups that a split
of the segments moves, as one list for each kind of adjustment. A list is sorted
and written as differences; an address that is there twice, or that is the base,
is refused, since a difference of zero ends the list. Fixups of other kinds are
only warned about: the image will not work in the shared cache.
-/

namespace DeveloperTools.Ld64.SplitSegV1

open Leb128 List
open RebaseOpcodes (Bytes padToSize)

structure Entry where
  fixupAddress : Nat
  kind : Kind
  extra : Nat := 0
deriving DecidableEq, Repr

inductive Arch where
  | x86_64
  | x86
  | arm
  | arm64
  | arm64_32
deriving DecidableEq, Repr

def Arch.pointerSize : Arch → Nat
  | .x86_64 | .arm64 => 8
  | .x86 | .arm | .arm64_32 => 4

def Arch.words (arch : Arch) : Nat := 2 ^ (8 * arch.pointerSize)

inductive Locations where
  | pointer32
  | pointer64
  | adrp
  | thumbLo16
  | armLo16
  | thumbHi16 (extra : Fin 16)
  | armHi16 (extra : Fin 16)
deriving DecidableEq, Repr

def Locations.code : Locations → UInt8
  | pointer32 => 1
  | pointer64 => 2
  | adrp => 3
  | thumbLo16 => 5
  | armLo16 => 6
  | thumbHi16 extra => UInt8.ofNat (16 + extra)
  | armHi16 extra => UInt8.ofNat (32 + extra)

def Locations.order : List Locations :=
  [pointer32, pointer64, adrp, thumbLo16, armLo16] ++ (List.finRange 16).map thumbHi16 ++
    (List.finRange 16).map armHi16

/-- The vector `addSplitSegInfo` adds an address to. Where it only warns it adds the address to
none, and where it asserts there is no result. -/
def addSplitSegInfo (arch : Arch) (kind : Kind) (extra : Nat) : Option (Option Locations) :=
  match arch with
  | .x86_64 =>
    match kind with
    | .storeX86PCRel32 | .storeX86PCRel32_1 | .storeX86PCRel32_2 | .storeX86PCRel32_4
    | .storeX86PCRel32GOTLoad | .storeX86PCRel32GOTLoadNowLEA | .storeX86PCRel32GOT
    | .storeLittleEndian32 | .storeTargetAddressLittleEndian32 | .storeTargetAddressX86PCRel32
    | .storeTargetAddressX86PCRel32GOTLoad | .storeTargetAddressX86PCRel32GOTLoadNowLEA
    | .storeTargetAddressX86PCRel32TLVLoad | .storeTargetAddressX86PCRel32TLVLoadNowLEA =>
      some (some .pointer32)
    | .storeLittleEndian64 | .storeTargetAddressLittleEndian64 => some (some .pointer64)
    | .storeLittleEndianAuth64 | .storeTargetAddressLittleEndianAuth64 => none
    | _ => some none
  | .x86 =>
    match kind with
    | .storeLittleEndian32 | .storeTargetAddressLittleEndian32 | .storeX86PCRel32TLVLoad
    | .storeX86PCRel32TLVLoadNowLEA => some (some .pointer32)
    | _ => some none
  | .arm =>
    match kind with
    | .storeLittleEndian32 => some (some .pointer32)
    | .storeARMLow16 => some (some .armLo16)
    | .storeThumbLow16 => some (some .thumbLo16)
    | .storeARMHigh16 => if small : extra < 16 then some (some (.armHi16 ⟨extra, small⟩)) else none
    | .storeThumbHigh16 =>
      if small : extra < 16 then some (some (.thumbHi16 ⟨extra, small⟩)) else none
    | _ => some none
  | .arm64 | .arm64_32 =>
    match kind with
    | .storeARM64Page21 | .storeARM64GOTLoadPage21 | .storeARM64GOTLeaPage21
    | .storeARM64TLVPLoadPage21 | .storeTargetAddressARM64Page21
    | .storeTargetAddressARM64GOTLoadPage21 | .storeTargetAddressARM64GOTLeaPage21 =>
      some (some .adrp)
    | .storeLittleEndian32 | .storeARM64PCRelToGOT => some (some .pointer32)
    | .storeLittleEndian64 | .storeTargetAddressLittleEndian64 => some (some .pointer64)
    | _ => some none

def locations (arch : Arch) (entries : List Entry) (list : Locations) : List Nat :=
  (entries.filter fun entry => addSplitSegInfo arch entry.kind entry.extra = some (some list)).map
    Entry.fixupAddress

/-- Without a result where it throws. -/
def uleb128EncodeAddresses (words : Nat) : Nat → List Nat → Option Bytes
  | _, [] => some []
  | addr, location :: rest =>
    let nextAddr := location % words
    let difference := delta words addr nextAddr
    if difference = 0 then none
    else (uleb128EncodeAddresses words nextAddr rest).map (encode difference ++ ·)

section Encoding

variable (words base : Nat) (locations : Locations → List Nat)

/-- The kind, the differences and the terminator of a vector that is not empty. -/
def encodeList (list : Locations) : Option Bytes :=
  if locations list = [] then some []
  else (uleb128EncodeAddresses words (base % words) (locations list).mergeSort).map fun bytes =>
    list.code :: bytes ++ [0]

def encodeLists : List Locations → Option Bytes
  | [] => some []
  | list :: rest => do
    let bytes ← encodeList words base locations list
    let more ← encodeLists rest
    some (bytes ++ more)

/-- Reads lists up to a kind of zero. -/
def decodeLists : Nat → Bytes → Option (List (UInt8 × List Nat))
  | 0, _ | _, [] => none
  | fuel + 1, kind :: rest =>
    if kind = 0 then some []
    else do
      let (addresses, left) ← readDeltas words rest.length base rest
      let more ← decodeLists fuel left
      some ((kind, addresses) :: more)

end Encoding

def encodeV1 (arch : Arch) (base : Nat) (entries : List Entry) : Option Bytes :=
  if entries.any fun entry => addSplitSegInfo arch entry.kind entry.extra = none then none
  else (encodeLists arch.words base (locations arch entries) Locations.order).map fun bytes =>
    padToSize arch.pointerSize (bytes ++ [0])

def decodeV1 (arch : Arch) (base : Nat) (stream : Bytes) : Option (List (UInt8 × List Nat)) :=
  decodeLists arch.words base stream.length stream

theorem Locations.code_ne_zero (list : Locations) : list.code ≠ 0 := by
  cases list with
  | thumbHi16 extra | armHi16 extra =>
    revert extra
    decide
  | _ => decide

theorem uleb128_encode_eq {words addr : Nat} {values : List Nat} {bytes : Bytes}
    (addrFits : addr < words) (fits : ∀ value ∈ values, value < words)
    (written : uleb128EncodeAddresses words addr values = some bytes) :
    bytes = writeDeltas words addr values ∧ fresh addr values = values := by
  induction values generalizing addr bytes with
  | nil => exact ⟨(Option.some.inj written).symm, rfl⟩
  | cons next values ih =>
    obtain ⟨nextFits, moreFit⟩ := forall_mem_cons.mp fits
    rw [uleb128EncodeAddresses, Nat.mod_eq_of_lt nextFits] at written
    split at written
    · cases written
    rename_i differs
    obtain ⟨more, moreWritten, rfl⟩ := Option.map_eq_some_iff.mp written
    obtain ⟨rfl, allFresh⟩ := ih nextFits moreFit moreWritten
    rw [writeDeltas, if_neg differs, fresh, allFresh,
      if_neg (differs ∘ (delta_spec addrFits nextFits).1.mpr)]
    exact ⟨rfl, rfl⟩

/-- The fixup kinds that a list of adjustments is for. -/
def Locations.kinds (arch : Arch) : Locations → List Kind
  | pointer32 =>
    match arch with
    | .x86_64 => [.storeLittleEndian32, .storeTargetAddressLittleEndian32, .storeX86PCRel32,
        .storeX86PCRel32_1, .storeX86PCRel32_2, .storeX86PCRel32_4, .storeX86PCRel32GOT,
        .storeX86PCRel32GOTLoad, .storeX86PCRel32GOTLoadNowLEA, .storeTargetAddressX86PCRel32,
        .storeTargetAddressX86PCRel32GOTLoad, .storeTargetAddressX86PCRel32GOTLoadNowLEA,
        .storeTargetAddressX86PCRel32TLVLoad, .storeTargetAddressX86PCRel32TLVLoadNowLEA]
    | .x86 => [.storeLittleEndian32, .storeTargetAddressLittleEndian32, .storeX86PCRel32TLVLoad,
        .storeX86PCRel32TLVLoadNowLEA]
    | .arm => [.storeLittleEndian32]
    | .arm64 | .arm64_32 => [.storeLittleEndian32, .storeARM64PCRelToGOT]
  | pointer64 =>
    match arch with
    | .x86_64 | .arm64 | .arm64_32 => [.storeLittleEndian64, .storeTargetAddressLittleEndian64]
    | .x86 | .arm => []
  | adrp =>
    match arch with
    | .arm64 | .arm64_32 => [.storeARM64Page21, .storeTargetAddressARM64Page21,
        .storeARM64GOTLoadPage21, .storeTargetAddressARM64GOTLoadPage21, .storeARM64GOTLeaPage21,
        .storeTargetAddressARM64GOTLeaPage21, .storeARM64TLVPLoadPage21]
    | .x86_64 | .x86 | .arm => []
  | thumbLo16 => if arch = .arm then [.storeThumbLow16] else []
  | armLo16 => if arch = .arm then [.storeARMLow16] else []
  | thumbHi16 _ => if arch = .arm then [.storeThumbHigh16] else []
  | armHi16 _ => if arch = .arm then [.storeARMHigh16] else []

/-- The upper half of an immediate goes with the four bits it needs of the lower one. -/
def Locations.carries (extra : Nat) : Locations → Bool
  | thumbHi16 bits | armHi16 bits => extra = bits
  | _ => true

/-- The addresses that belong into a list. -/
def belonging (arch : Arch) (entries : List Entry) (list : Locations) : List Nat :=
  (entries.filter fun entry => entry.kind ∈ list.kinds arch ∧ list.carries entry.extra).map
    Entry.fixupAddress

theorem adds_iff (arch : Arch) (kind : Kind) (extra : Nat) (list : Locations) :
    addSplitSegInfo arch kind extra = some (some list) ↔
      kind ∈ list.kinds arch ∧ list.carries extra = true := by
  fun_cases addSplitSegInfo arch kind extra <;> cases list <;>
    simp_all [Locations.kinds, Locations.carries, Fin.ext_iff] <;> omega

theorem locations_eq_belonging (arch : Arch) (entries : List Entry) :
    locations arch entries = belonging arch entries := by
  funext list
  simp only [locations, belonging, adds_iff]

def sortedLists (locations : Locations → List Nat) (order : List Locations) :
    List (UInt8 × List Nat) :=
  (order.filter fun list => locations list ≠ []).map fun list =>
    (list.code, (locations list).mergeSort)

theorem decode_lists_written {words base fuel : Nat} {locations : Locations → List Nat}
    (fits : ∀ list, ∀ address ∈ locations list, base ≤ address ∧ address < words)
    {order : List Locations} {bytes : Bytes} (rest : Bytes)
    (written : encodeLists words base locations order = some bytes) (enough : bytes.length < fuel) :
    decodeLists words base fuel (bytes ++ 0 :: rest) = some (sortedLists locations order) := by
  obtain ⟨fuel, rfl⟩ := Nat.exists_eq_succ_of_ne_zero (Nat.ne_zero_of_lt enough)
  induction order generalizing bytes fuel with
  | nil =>
    cases written
    rfl
  | cons list order ih =>
    obtain ⟨first, firstWritten, written⟩ := Option.bind_eq_some_iff.mp written
    obtain ⟨more, moreWritten, joined⟩ := Option.bind_eq_some_iff.mp written
    cases joined
    rw [sortedLists]
    unfold encodeList at firstWritten
    split at firstWritten
    next empty =>
      cases firstWritten
      rw [filter_cons_of_neg (by simp [empty])]
      exact ih moreWritten fuel enough
    rename_i present
    obtain ⟨deltas, deltasWritten, rfl⟩ := Option.map_eq_some_iff.mp firstWritten
    obtain ⟨some, isIn⟩ := exists_mem_of_ne_nil _ present
    obtain ⟨above, below⟩ := fits list some isIn
    have baseFits : base < words := by omega
    have sortedFit : ∀ address ∈ (locations list).mergeSort, address < words :=
      fun address member => (fits list address (mem_mergeSort.mp member)).2
    rw [Nat.mod_eq_of_lt baseFits] at deltasWritten
    obtain ⟨rfl, allFresh⟩ := uleb128_encode_eq baseFits sortedFit deltasWritten
    simp only [length_append, length_cons] at enough
    obtain ⟨fuel, rfl⟩ := Nat.exists_eq_succ_of_ne_zero (show fuel ≠ 0 by omega)
    have later := ih moreWritten fuel (by omega)
    rw [filter_cons_of_pos (by simp [present]), map_cons]
    simp only [cons_append, append_assoc, nil_append, decodeLists, if_neg list.code_ne_zero]
    rw [read_deltas_written _ baseFits sortedFit (by simp), allFresh]
    simp only [Option.bind_eq_bind, Option.bind_some, later, sortedLists]

theorem Locations.mem_order (list : Locations) : list ∈ Locations.order := by
  cases list <;> simp [Locations.order]

section Refusal

variable {words base : Nat}

theorem uleb128_encode_refuses {addr : Nat} {values : List Nat} (addrFits : addr < words)
    (fits : ∀ value ∈ values, value < words) (sorted : (addr :: values).Pairwise (· ≤ ·)) :
    uleb128EncodeAddresses words addr values = none ↔ ¬ (addr :: values).Nodup := by
  induction values generalizing addr with
  | nil => simp [uleb128EncodeAddresses]
  | cons next values ih =>
    obtain ⟨nextFits, moreFit⟩ := forall_mem_cons.mp fits
    obtain ⟨above, later⟩ := pairwise_cons.mp sorted
    rw [uleb128EncodeAddresses, Nat.mod_eq_of_lt nextFits]
    have differs := (delta_spec addrFits nextFits).1
    by_cases same : addr = next
    · subst same
      rw [if_pos (differs.mpr rfl)]
      simp
    have fresh : addr ∉ next :: values := by
      intro isIn
      rcases mem_cons.mp isIn with here | there
      · exact same here
      · have low := (pairwise_cons.mp later).1 addr there
        have high := above next mem_cons_self
        omega
    rw [if_neg (same ∘ differs.mp), Option.map_eq_none_iff, ih nextFits moreFit later,
      nodup_cons (a := addr), and_iff_right fresh]

theorem encode_lists_refuses {locations : Locations → List Nat}
    (fits : ∀ list, ∀ address ∈ locations list, base ≤ address ∧ address < words)
    (order : List Locations) :
    encodeLists words base locations order = none ↔
      ∃ list ∈ order, ¬ (base :: locations list).Nodup := by
  have one (list : Locations) :
      encodeList words base locations list = none ↔ ¬ (base :: locations list).Nodup := by
    unfold encodeList
    split
    next empty => simp [empty]
    next present =>
      obtain ⟨address, isIn⟩ := exists_mem_of_ne_nil _ present
      have baseFits : base < words := (fits list address isIn).1.trans_lt (fits list address isIn).2
      have perm := mergeSort_perm (locations list) (· ≤ ·)
      have sorted : (base :: (locations list).mergeSort).Pairwise (· ≤ ·) :=
        pairwise_cons.mpr ⟨fun address member => (fits list address (mem_mergeSort.mp member)).1,
          pairwise_mergeSort' (· ≤ ·) _⟩
      rw [Option.map_eq_none_iff, Nat.mod_eq_of_lt baseFits, uleb128_encode_refuses baseFits
        (fun address member => (fits list address (mem_mergeSort.mp member)).2) sorted,
        (perm.cons base).nodup_iff]
  induction order with
  | nil => simp [encodeLists]
  | cons list order ih =>
    rw [exists_mem_cons_iff, encodeLists]
    cases written : encodeList words base locations list with
    | none => simp [(one list).mp written]
    | some bytes =>
      have kept : ¬ ¬ (base :: locations list).Nodup := fun twice => by
        rw [(one list).mpr twice] at written
        cases written
      rw [or_iff_right kept]
      refine Iff.trans ?_ ih
      cases encodeLists words base locations order <;> simp

end Refusal

/-- `addSplitSegInfo` asserts. -/
def asserts (arch : Arch) (entry : Entry) : Bool :=
  match arch, entry.kind with
  | .x86_64, .storeLittleEndianAuth64 | .x86_64, .storeTargetAddressLittleEndianAuth64 => true
  | .arm, .storeARMHigh16 | .arm, .storeThumbHigh16 => 16 ≤ entry.extra
  | _, _ => false

theorem adds_none_iff (arch : Arch) (entry : Entry) :
    addSplitSegInfo arch entry.kind entry.extra = none ↔ asserts arch entry = true := by
  obtain ⟨address, kind, extra⟩ := entry
  fun_cases addSplitSegInfo arch kind extra <;> simp_all [asserts]

/-- Every list of addresses is read back sorted and whole, unless an address is in a list twice or
is the base, or an entry breaks an assertion: then nothing is written. -/
theorem split_seg_reads_back (arch : Arch) (base : Nat) (entries : List Entry)
    (fits : ∀ entry ∈ entries, base ≤ entry.fixupAddress ∧ entry.fixupAddress < arch.words) :
    (encodeV1 arch base entries = none ↔ (∃ entry ∈ entries, asserts arch entry = true) ∨
      ∃ list, ¬ (base :: belonging arch entries list).Nodup) ∧
    ∀ stream, encodeV1 arch base entries = some stream →
      decodeV1 arch base stream = some (sortedLists (belonging arch entries) Locations.order) := by
  have located : ∀ list, ∀ address ∈ belonging arch entries list,
      base ≤ address ∧ address < arch.words := by
    intro list address member
    obtain ⟨entry, isIn, rfl⟩ := mem_map.mp member
    exact fits entry (mem_of_mem_filter isIn)
  have asserted : (entries.any fun entry => addSplitSegInfo arch entry.kind entry.extra = none) ↔
      ∃ entry ∈ entries, asserts arch entry = true := by
    simp only [any_eq_true, decide_eq_true_eq, adds_none_iff]
  rw [encodeV1, locations_eq_belonging, ← asserted]
  split
  next broken => exact ⟨by simp [broken], nofun⟩
  next whole =>
    rw [or_iff_right whole, Option.map_eq_none_iff, encode_lists_refuses located]
    refine ⟨⟨fun ⟨list, _, twice⟩ => ⟨list, twice⟩, fun ⟨list, twice⟩ =>
      ⟨list, list.mem_order, twice⟩⟩, fun stream written => ?_⟩
    obtain ⟨bytes, isBytes, rfl⟩ := Option.map_eq_some_iff.mp written
    simp only [padToSize, append_assoc, singleton_append]
    exact decode_lists_written located _ isBytes (by simp)

def armEntries : List Entry :=
  [⟨0x5004, .storeARMHigh16, 3⟩, ⟨0x5010, .storeLittleEndian32, 0⟩,
    ⟨0x5000, .storeLittleEndian32, 0⟩, ⟨0x5008, .storeARMBranch24, 0⟩]

theorem arm_entries_read_back : ∃ stream, encodeV1 .arm 0x4000 armEntries = some stream ∧
    decodeV1 .arm 0x4000 stream = some [(1, [0x5000, 0x5010]), (35, [0x5004])] := by
  obtain ⟨refused, readsBack⟩ := split_seg_reads_back .arm 0x4000 armEntries (by decide)
  have accepted : encodeV1 .arm 0x4000 armEntries ≠ none := by
    rw [ne_eq, refused]
    rintro (asserted | ⟨list, twice⟩)
    · exact absurd asserted (by decide)
    · cases list with
      | thumbHi16 bits | armHi16 bits =>
        revert bits
        decide
      | _ => exact twice (by decide)
  obtain ⟨stream, written⟩ := Option.ne_none_iff_exists'.mp accepted
  refine ⟨stream, written, ?_⟩
  rw [readsBack stream written]
  simp only [sortedLists, mergeSort_eq_insertionSort]
  decide +kernel

/-- A thread-local load that became an address computation is only warned about. -/
theorem warned_entry_lost :
    encodeV1 .arm64 0x4000 [⟨0x5000, .storeARM64TLVPLoadNowLeaPage21, 0⟩] =
        some [0, 0, 0, 0, 0, 0, 0, 0] ∧
      decodeV1 .arm64 0x4000 [0, 0, 0, 0, 0, 0, 0, 0] = some [] := by
  decide +kernel

end DeveloperTools.Ld64.SplitSegV1
