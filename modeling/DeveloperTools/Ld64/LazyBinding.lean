import DeveloperTools.Ld64.SegmentNibbles

/-!
A stub helper enters the stream at the offset that is recorded for its lazy pointer. A run takes
nothing over from the one before it. Two things can still lead astray: a second entry with the
same address, whose offset replaces the first, and a segment number of more than four bits.
-/

namespace DeveloperTools.Ld64.LazyBinding

open Nibbles BindOpcodes SegmentNibbles
open List Option Transducer

/-- The map holds a `uint32_t` for each address, the one that was set last. -/
def lazyBindingInfoOffsetForLazyPointerAddress (offsets : List (Nat × Nat)) (lpAddress : Nat) :
    Nat :=
  (offsets.reverse.find? fun recorded => recorded.1 = lpAddress).elim 0 Prod.snd % 2 ^ 32

variable {Pointer : Type} (string : Pointer → CString) (sections : List FinalSection)
  (pointerSize : Nat)

/-- What an entry asks for; the stream sets neither type nor addend. -/
def lazyBind (info : BindingInfo Pointer) : Bind :=
  ⟨0, info.libraryOrdinal, (string info.symbolName).chars, info.flags.code, info.address, 0⟩

/-- The run that is entered for an entry makes its bind and no other. -/
def Resumes (stream : Bytes) (offsets : List (Nat × Nat)) (info : BindingInfo Pointer) : Prop :=
  (interpret (segments sections) pointerSize (stream.drop
      (lazyBindingInfoOffsetForLazyPointerAddress offsets info.address))).map
    (filterMap Event.bind?) = some [lazyBind string info]

def reachedAddress (found : FoundSegment) (address : Nat) : Nat :=
  ((segments sections)[found.index % 16]?.elim 0 Segment.start + (address - found.start)) % 2 ^ 64

def Reached (info : BindingInfo Pointer) : Prop :=
  ∀ found, findSegment sections info.address = some found →
    found.index / 16 % 16 < 8 ∧ reachedAddress sections found info.address = info.address

theorem segment_byte (index : Nat) :
    (index / 16 % 16 < 8 → pack 0x70 index = pack 0x70 (index % 16)) ∧
      (¬ index / 16 % 16 < 8 → opcode (pack 0x70 index) = 15) := by
  have bytes : ∀ low < 256, (low / 16 < 8 → pack 0x70 low = pack 0x70 (low % 16)) ∧
      (¬ low / 16 < 8 → opcode (pack 0x70 low) = 15) := by
    decide +kernel
  have same : pack 0x70 index = pack 0x70 (index % 256) := by
    apply UInt8.toNat.inj
    rw [pack, pack, UInt8.toNat_ofNat', UInt8.toNat_ofNat', Nat.or_mod_two_pow,
      Nat.or_mod_two_pow, Nat.mod_mod]
  have byte := bytes (index % 256) (Nat.mod_lt _ (by decide))
  rw [← same, Nat.mod_mod_of_dvd index (by decide : 16 ∣ 256)] at byte
  have high : index % 256 / 16 = index / 16 % 16 := by omega
  rw [high] at byte
  exact byte

variable {sections} {pointerSize} in
theorem run_interpreted {live : List BindingTmp} (writable : Writable live) (tail : Bytes) :
    interpret (segments sections) pointerSize
        ((live ++ [doneTmp]).flatMap BindingTmp.weakBytes ++ tail) =
      some (effect sections pointerSize live {}).2 := by
  have bytes : live.map BindingTmp.weakBytes = live.map BindingTmp.bytes :=
    map_congr_left fun tmp member => weak_bytes_of_live (writable tmp member).1
  rw [flatMap_append, flatMap_def, bytes, append_assoc]
  exact Bytecode.interpret_written
    (fun tmp member => bind_readable _ _ (writable tmp member).1 (writable tmp member).2)
    (Bytecode.stops_at_zero zero_reads_done tail) _ _ le_rfl

def lazyOps (info : BindingInfo Pointer) (index offset : Nat) : List BindingTmp :=
  [{ opcode := .setSegmentAndOffsetUleb, operand1 := index, operand2 := offset }, lazyOrdinal info,
    { opcode := .setSymbolTrailingFlagsImm, operand1 := info.flags.code,
      name := (string info.symbolName).chars }, { opcode := .doBind, operand1 := 0 }]

section Run

variable {info : BindingInfo Pointer} (lower : -3 ≤ info.libraryOrdinal)
  (upper : info.libraryOrdinal < 2 ^ 31)

include lower upper

theorem lazy_ordinal_meaning (machine : Machine) :
    (lazyOrdinal info).meaning (segments sections) pointerSize machine =
      ({ machine with ordinal := info.libraryOrdinal }, []) := by
  unfold lazyOrdinal
  split
  next special =>
    simp only [BindingTmp.meaning, special_ordinal_unsigned lower special]
  next positive =>
    split <;> simp only [BindingTmp.meaning, unsigned_of_positive (not_le.mp positive) upper]

omit lower in
theorem lazy_ops_writable {index : Nat} (small : index < 16) (offset : Nat) :
    Writable (lazyOps string info index offset) := by
  have ordinal : isDone (lazyOrdinal info) = false ∧ (lazyOrdinal info).Encodable := by
    unfold lazyOrdinal
    split
    · exact ⟨rfl, trivial⟩
    rename_i positive
    have value := unsigned_of_positive (not_le.mp positive) upper
    split
    · refine ⟨rfl, ?_⟩
      change unsigned info.libraryOrdinal < 16
      omega
    · exact ⟨rfl, trivial⟩
  have symbol := (string info.symbolName).noNul
  simp only [Writable, lazyOps, forall_mem_cons]
  exact ⟨⟨rfl, small⟩, ordinal, ⟨rfl, flags_code_small _, symbol⟩, ⟨rfl, trivial⟩,
    fun _ impossible => nomatch impossible⟩

theorem lazy_run (found : FoundSegment) (tail : Bytes) :
    (interpret (segments sections) pointerSize ((lazyOps string info found.index
        (info.address - found.start) ++ [doneTmp]).flatMap BindingTmp.weakBytes ++ tail)).map
        (filterMap Event.bind?) =
      if found.index / 16 % 16 < 8 then
        some [{ lazyBind string info with address := reachedAddress sections found info.address }]
      else none := by
  obtain ⟨kept, lost⟩ := segment_byte found.index
  split
  next low =>
    have same (offset : Nat) :
        BindingTmp.weakBytes ⟨.setSegmentAndOffsetUleb, found.index, offset, []⟩ =
          BindingTmp.weakBytes ⟨.setSegmentAndOffsetUleb, found.index % 16, offset, []⟩ :=
      congrArg (· :: Leb128.encode offset) (kept low)
    rw [lazyOps, cons_append, flatMap_cons, same, ← flatMap_cons, ← cons_append,
      ← lazyOps, run_interpreted (lazy_ops_writable string upper (Nat.mod_lt _ (by decide)) _)]
    simp only [effect, lazyOps, program_cons, mul_apply,
      lazy_ordinal_meaning sections pointerSize lower upper]
    rfl
  next high =>
    rw [lazyOps, cons_append, flatMap_cons, BindingTmp.weakBytes, BindingTmp.bytes,
      cons_append, cons_append, interpret, length_cons, Bytecode.interpret]
    simp [bindCode, readOpcode, Opcode.code, lost high]

end Run

variable {string} {sections}

theorem stream_runs {infos : List (BindingInfo Pointer)} :
    ∀ {encoded stream : Bytes} {offsets : List (Nat × Nat)},
      lazyStream string sections encoded infos = some (stream, offsets) →
      encoded <+: stream ∧ offsets.map Prod.fst = infos.map BindingInfo.address ∧
        ∀ recorded ∈ offsets, recorded.2 ≤ stream.length ∧
          ∃ info ∈ infos, info.address = recorded.1 ∧ ∃ ops tail,
            lazyWritten string sections info = some ops ∧
              stream.drop recorded.2 = ops.flatMap BindingTmp.weakBytes ++ tail := by
  induction infos with
  | nil =>
    intro encoded stream offsets ran
    cases ran
    exact ⟨prefix_rfl, rfl, fun _ impossible => nomatch impossible⟩
  | cons info rest ih =>
    intro encoded stream offsets ran
    obtain ⟨ops, written, ran⟩ := bind_eq_some_iff.mp ran
    obtain ⟨⟨later, more⟩, laterRan, made⟩ := bind_eq_some_iff.mp ran
    cases made
    obtain ⟨⟨tail, whole⟩, addresses, runs⟩ := ih laterRan
    rw [append_assoc] at whole
    refine ⟨⟨_, whole⟩, congrArg _ addresses, forall_mem_cons.mpr
      ⟨⟨?_, info, mem_cons_self, rfl, ops, tail, written, ?_⟩, ?_⟩⟩
    · rw [← whole, length_append]
      exact Nat.le_add_right _ _
    · rw [← whole, drop_left]
    · intro recorded member
      obtain ⟨bound, other, among, rest⟩ := runs recorded member
      exact ⟨bound, other, .tail _ among, rest⟩

section Entered

variable {infos : List (BindingInfo Pointer)} {written : Bytes} {offsets : List (Nat × Nat)}
  (ordinals : ∀ info ∈ infos, -3 ≤ info.libraryOrdinal ∧ info.libraryOrdinal < 2 ^ 31)

theorem offset_recorded {info : BindingInfo Pointer}
    (addresses : offsets.map Prod.fst = infos.map BindingInfo.address) (member : info ∈ infos) :
    ∃ offset, (info.address, offset) ∈ offsets ∧
      lazyBindingInfoOffsetForLazyPointerAddress offsets info.address = offset % 2 ^ 32 := by
  have among := mem_map_of_mem (f := BindingInfo.address) member
  rw [← addresses] at among
  obtain ⟨entry, entryMember, same⟩ := List.mem_map.mp among
  have isThere : (offsets.reverse.find? fun recorded => recorded.1 = info.address).isSome :=
    find?_isSome.mpr ⟨entry, mem_reverse.mpr entryMember, decide_eq_true same⟩
  obtain ⟨⟨address, offset⟩, chosen⟩ := isSome_iff_exists.mp isThere
  have isHere : address = info.address := of_decide_eq_true (find?_some chosen :)
  subst isHere
  refine ⟨offset, mem_reverse.mp (mem_of_find?_eq_some chosen), ?_⟩
  rw [lazyBindingInfoOffsetForLazyPointerAddress, chosen, elim_some]

include ordinals

theorem resumes_iff (ran : lazyStream string sections [] infos = some (written, offsets))
    (short : written.length < 2 ^ 32) (padding : Bytes) (info : BindingInfo Pointer)
    (member : info ∈ infos) : ∃ other ∈ infos, other.address = info.address ∧
      ∃ found, findSegment sections info.address = some found ∧
        (Resumes string sections pointerSize (written ++ padding) offsets info ↔
          found.index / 16 % 16 < 8 ∧ { lazyBind string other with
            address := reachedAddress sections found info.address } = lazyBind string info) := by
  obtain ⟨-, addresses, runs⟩ := stream_runs ran
  obtain ⟨offset, entry, found⟩ := offset_recorded addresses member
  obtain ⟨bound, other, among, same, ops, tail, made, rest⟩ := runs _ entry
  obtain ⟨segment, isFound, rfl⟩ := map_eq_some_iff.mp made
  dsimp only at same bound rest
  have run := lazy_run string sections pointerSize (ordinals other among).1
    (ordinals other among).2 segment (tail ++ padding)
  refine ⟨other, among, same, segment, same ▸ isFound, ?_⟩
  rw [Resumes, found, Nat.mod_eq_of_lt (bound.trans_lt short), drop_append_of_le_length bound,
    rest, append_assoc]
  refine (Eq.congr_left run).trans ?_
  rw [same]
  by_cases low : segment.index / 16 % 16 < 8
  · simp [low]
  · simp [low]

end Entered

/-- Every entry resumes where its bind is made, if and only if each opcode byte leads to the
address and no two entries ask for different binds at one address. -/
theorem lazy_binds_resume_iff {infos : List (BindingInfo Pointer)} {stream : Bytes}
    {offsets : List (Nat × Nat)}
    (encoded : lazyEncode string sections pointerSize infos = some (stream, offsets))
    (ordinals : ∀ info ∈ infos, -3 ≤ info.libraryOrdinal ∧ info.libraryOrdinal < 2 ^ 31)
    (short : stream.length < 2 ^ 32) :
    (∀ info ∈ infos, Resumes string sections pointerSize stream offsets info) ↔
      (∀ info ∈ infos, Reached sections info) ∧
        ∀ info ∈ infos, ∀ other ∈ infos, info.address = other.address →
          lazyBind string info = lazyBind string other := by
  obtain ⟨⟨written, recorded⟩, ran, made⟩ := map_eq_some_iff.mp encoded
  cases made
  obtain ⟨padding, padded⟩ : ∃ padding, RebaseOpcodes.padToSize pointerSize written =
      written ++ padding := ⟨_, rfl⟩
  rw [padded] at short ⊢
  rw [length_append] at short
  have entered := resumes_iff pointerSize ordinals ran (by omega) padding
  constructor
  · intro resumes
    constructor
    · intro info member found isFound
      obtain ⟨other, -, -, segment, isSegment, entersOther⟩ := entered info member
      cases isFound.symm.trans isSegment
      obtain ⟨low, same⟩ := entersOther.mp (resumes info member)
      exact ⟨low, congrArg Bind.address same⟩
    · intro info member other otherMember same
      have first := resumes info member
      rw [Resumes, same, resumes other otherMember] at first
      exact (head_eq_of_cons_eq (some_inj.mp first)).symm
  · rintro ⟨reached, agree⟩ info member
    obtain ⟨other, among, same, found, isFound, entersOther⟩ := entered info member
    obtain ⟨low, leads⟩ := reached info member found isFound
    refine entersOther.mpr ⟨low, ?_⟩
    rw [leads, ← same]
    exact agree other among info member same

def twoLazyBinds : List (BindingInfo Nat) :=
  [⟨.pointer, .none, -2, 1, 0x4000, 0⟩, ⟨.pointer, .weakImport, 300, 2, 0x4008, 0⟩]

def lazyBytes : Bytes :=
  [0x71, 0, 0x3E, 0x40, 0x61, 0, 0x90, 0,
    0x71, 8, 0x20, 0xAC, 2, 0x41, 0x61, 0x61, 0, 0x90, 0, 0, 0, 0, 0, 0]

theorem two_lazy_binds_resume :
    lazyEncode lettersAt smallSections 8 twoLazyBinds =
        some (lazyBytes, [(0x4000, 0), (0x4008, 8)]) ∧
      ∀ info ∈ twoLazyBinds,
        Resumes lettersAt smallSections 8 lazyBytes [(0x4000, 0), (0x4008, 8)] info := by
  have encoded : lazyEncode lettersAt smallSections 8 twoLazyBinds =
      some (lazyBytes, [(0x4000, 0), (0x4008, 8)]) := by
    decide +kernel
  refine ⟨encoded, (lazy_binds_resume_iff 8 encoded (by decide) (by decide)).mpr ⟨?_, by decide⟩⟩
  intro info member found ran
  rcases mem_pair.mp member with rfl | rfl
  · cases ran
    decide
  · cases ran
    decide

/-- The address in the seventeenth segment is bound in the first, and of two entries for one
address the first is lost. -/
theorem lazy_binds_astray :
    (∃ stream offsets,
      lazyEncode lettersAt manySections 8 [bindAt 0x11000] = some (stream, offsets) ∧
        ¬ Resumes lettersAt manySections 8 stream offsets (bindAt 0x11000)) ∧
    ∃ stream offsets, lazyEncode lettersAt manySections 8
        [{ bindAt 0x4008 with symbolName := 1 }, bindAt 0x4008] = some (stream, offsets) ∧
      ¬ Resumes lettersAt manySections 8 stream offsets
        { bindAt 0x4008 with symbolName := 1 } := by
  refine ⟨⟨_, _, rfl, ?_⟩, _, _, rfl, ?_⟩
  · unfold Resumes
    decide +kernel
  · unfold Resumes
    decide +kernel

end DeveloperTools.Ld64.LazyBinding
