import DeveloperTools.Ld64.ThreadedChains
import DeveloperTools.Ld64.ThreadedTable

/-!
The stream of `encodeV2` fills the table of bind targets and names the starts of
the lists. The lists visit every location once. The table is right unless it has
exactly one place more than the 16-bit ordinals can name.
-/

namespace DeveloperTools.Ld64.ThreadedBinds

open BindOpcodes
open RebaseOpcodes (RebaseInfo padToSize)
open List Transducer Nat

def applied? : Event → Option Nat
  | .apply _ address => some address
  | _ => none

def fillsTable (tmp : BindingTmp) : Bool :=
  match tmp.opcode with
  | .setDylibOrdinalImm | .setDylibOrdinalUleb | .setDylibSpecialImm
  | .setSymbolTrailingFlagsImm | .setTypeImm | .setAddendSleb | .doBind => true
  | _ => false

variable {address : Nat}

section Stream

variable {Pointer : Type} {string : Pointer → CString} {sections : List FinalSection}
  {pointerSize : Nat} {ops : List BindingTmp}

theorem filling_starts_nothing (fills : ∀ tmp ∈ ops, fillsTable tmp = true)
    (machine) : (effect sections pointerSize ops machine).2.filterMap applied? = [] := by
  induction ops generalizing machine with
  | nil => rfl
  | cons tmp ops ih =>
    have here : (tmp.meaning (segments sections) pointerSize machine).2.filterMap applied? = [] := by
      have fill := fills tmp mem_cons_self
      obtain ⟨op, operand1, operand2, name⟩ := tmp
      cases op with
      | doBind =>
        simp only [BindingTmp.meaning, bindOnce]
        split <;> rfl
      | setDylibOrdinalImm | setDylibOrdinalUleb | setDylibSpecialImm
      | setSymbolTrailingFlagsImm | setTypeImm | setAddendSleb => rfl
      | _ => cases fill
    rw [effect, program_cons, mul_apply, filterMap_append, here, nil_append]
    exact ih (fun other member => fills other (.tail _ member)) _

theorem start_ops_effect (pointerSize : Nat) {found : FoundSegment}
    (ran : findSegment sections address = some found) (machine : Machine) :
    effect sections pointerSize (startOps sections address) machine =
      ({ machine with segment := some found.index, address := address },
        [.apply (some found.index) address]) := by
  obtain ⟨place, lower, upper⟩ := find_segment_sound ran
  have finish := segments_finish _ (mem_of_getElem? place)
  dsimp only at finish
  have back : (found.start + (address - found.start)) % 2 ^ 64 = address := by omega
  rw [startOps, ran, Option.elim_some, effect, program_cons, program_singleton, mul_apply]
  simp only [BindingTmp.meaning, place, Option.elim_some, back, nil_append]

theorem starts_effect {starts : List Nat}
    (held : ∀ address ∈ starts, ∃ found, findSegment sections address = some found) (machine) :
    (effect sections pointerSize (starts.flatMap (startOps sections)) machine).2.filterMap
        applied? = starts ∧
      (effect sections pointerSize (starts.flatMap (startOps sections)) machine).2.filterMap
        tableTarget? = [] := by
  induction starts generalizing machine with
  | nil => exact ⟨rfl, rfl⟩
  | cons address starts ih =>
    obtain ⟨found, ran⟩ := held address mem_cons_self
    obtain ⟨later, nothing⟩ :=
      ih (fun other member => held other (.tail _ member))
        { machine with segment := some found.index, address := address }
    have first := program_events_then (start_ops_effect pointerSize ran machine)
      (starts.flatMap (startOps sections))
    rw [flatMap_cons, first, filterMap_append, filterMap_append, later, nothing]
    exact ⟨rfl, rfl⟩

theorem start_ops_writable
    (few : ∀ found, findSegment sections address = some found → found.index < 16) :
    Writable (startOps sections address) := by
  unfold startOps
  cases ran : findSegment sections address with
  | none => exact writable_nil
  | some found =>
    intro tmp member
    rcases mem_cons.mp member with rfl | later
    · exact ⟨rfl, few found ran⟩
    · rw [mem_singleton.mp later]
      exact ⟨rfl, trivial⟩

variable [DecidableEq Pointer]

theorem step_fills {state next : Encoder Pointer} {info : BindingInfo Pointer}
    (ran : step string sections state info = some (next, ops)) :
    ∀ tmp ∈ ops, fillsTable tmp = true := by
  obtain ⟨placed, -, -, rfl⟩ := step_some ran
  have ordinal : ∀ tmp ∈ (setOrdinal state info).2, fillsTable tmp = true := by
    unfold setOrdinal
    split
    · dsimp only
      split
      · simp [fillsTable]
      · split <;> simp [fillsTable]
    · simp
  have symbol : ∀ tmp ∈ ((setOrdinal state info).1.setSymbol string info).2,
      fillsTable tmp = true := by
    unfold Encoder.setSymbol
    split <;> simp [fillsTable]
  have type : ∀ tmp ∈ (((setOrdinal state info).1.setSymbol string info).1.setType info).2,
      fillsTable tmp = true := by
    unfold Encoder.setType
    split <;> simp [fillsTable]
  have addend : ∀ tmp ∈ (placed.setAddend info).2, fillsTable tmp = true := by
    unfold Encoder.setAddend
    split <;> simp [fillsTable]
  intro tmp member
  split at member
  · simp only [changeOps, mem_append, mem_singleton] at member
    rcases member with (((here | here) | here) | here) | rfl
    · exact ordinal tmp here
    · exact symbol tmp here
    · exact type tmp here
    · exact addend tmp here
    · rfl
  · cases member

theorem bind_table_fills {rest : List (BindingInfo Pointer)} :
    ∀ {state : Encoder Pointer} {numBinds : Int} {table : BindTable},
      bindTable string sections rest state numBinds = some table →
      ∀ tmp ∈ table.ops, fillsTable tmp = true := by
  induction rest with
  | nil =>
    intro state numBinds table made tmp member
    cases made
    cases member
  | cons info rest ih =>
    intro state numBinds table made tmp member
    obtain ⟨⟨next, ops⟩, stepped, made⟩ := Option.bind_eq_some_iff.mp made
    obtain ⟨later, laterMade, made⟩ := Option.bind_eq_some_iff.mp made
    cases made
    rcases mem_append.mp member with here | there
    · exact step_fills stepped tmp here
    · exact ih laterMade tmp there

end Stream

section Locations

variable {Pointer : Type}

def locations (rebaseInfo : List RebaseInfo) (bindInfo : List (BindingInfo Pointer)) : List Nat :=
  rebaseInfo.map RebaseInfo.address ++ bindInfo.map BindingInfo.address

variable {rebaseInfo : List RebaseInfo} {bindInfo : List (BindingInfo Pointer)}
  {ordinals : List Nat}

theorem zipped_addresses (paired : bindInfo.length = ordinals.length) :
    (zipWith Fixup.bind bindInfo ordinals).map Fixup.address =
      bindInfo.map BindingInfo.address := by
  induction bindInfo generalizing ordinals with
  | nil => rfl
  | cons info rest ih =>
    cases ordinals with
    | nil => cases paired
    | cons ordinal ordinals =>
      rw [zipWith_cons_cons, map_cons, map_cons, ih (Nat.succ.inj paired)]
      rfl

theorem fixups_addresses (rebaseInfo : List RebaseInfo)
    (paired : bindInfo.length = ordinals.length) :
    ((threadedFixups rebaseInfo bindInfo ordinals).map Fixup.address).Perm
      (locations rebaseInfo bindInfo) := by
  have same := (mergeSort_perm
    (rebaseInfo.map Fixup.rebase ++ zipWith Fixup.bind bindInfo ordinals)
    fun left right => left.address ≤ right.address).map Fixup.address
  rw [map_append, zipped_addresses paired, map_map] at same
  exact same

theorem fixups_narrow (small : ∀ ordinal ∈ ordinals, ordinal < 2 ^ 16) :
    ∀ fixup ∈ threadedFixups rebaseInfo bindInfo ordinals, fixup.Narrow := by
  intro fixup member
  rcases mem_append.mp ((mergeSort_perm _ _).mem_iff.mp member) with rebased | bound
  · obtain ⟨info, -, rfl⟩ := List.mem_map.mp rebased
    trivial
  · rw [← map_uncurry_zip_eq_zipWith] at bound
    obtain ⟨⟨info, ordinal⟩, pair, rfl⟩ := List.mem_map.mp bound
    exact small ordinal (of_mem_zip pair).2

theorem fixups_increase (paired : bindInfo.length = ordinals.length)
    (distinct : (locations rebaseInfo bindInfo).Nodup) :
    (threadedFixups rebaseInfo bindInfo ordinals).Pairwise
      fun left right => left.address < right.address := by
  have sorted : (threadedFixups rebaseInfo bindInfo ordinals).Pairwise
      fun left right => decide (left.address ≤ right.address) = true := by
    apply pairwise_mergeSort
    · intro first second third before after
      exact decide_eq_true (le_trans (of_decide_eq_true before) (of_decide_eq_true after))
    · intro first second
      rw [Bool.or_eq_true, decide_eq_true_eq, decide_eq_true_eq]
      exact le_total _ _
  have apart := (fixups_addresses rebaseInfo paired).nodup_iff.mpr distinct
  rw [Nodup, pairwise_map] at apart
  apply (sorted.and apart).imp
  intro left right both
  exact lt_of_le_of_ne (of_decide_eq_true both.1) both.2

end Locations

section Encoding

variable {Pointer : Type}

/-- Replaying the stream fills the table so that each bind finds at its ordinal
what it asks for. -/
def TableRecovered (string : Pointer → CString) (sections : List FinalSection) (pointerSize : Nat)
    (encoded : Threaded Pointer) : Prop :=
  ∃ events, interpret (segments sections) pointerSize encoded.stream = some events ∧
    TableCorrect string (events.filterMap tableTarget?) encoded.bindInfo
      encoded.threadedBindOrdinals

/-- Following the lists from where the stream starts them visits each of the
locations once and nothing else. -/
def ListsVisit (sections : List FinalSection) (pointerSize : Nat) (encoded : Threaded Pointer)
    (written : Nat → BitVec 64) (locations : List Nat) : Prop :=
  ∃ events visited, interpret (segments sections) pointerSize encoded.stream = some events ∧
    List.Forall₂ (fun start chain => followChain written locations.length start = some chain)
      (events.filterMap applied?) visited ∧
    visited.flatten.Perm locations

def WordsFit (baseAddress : BitVec 64) (auth : Nat → Option AuthFixup)
    (encoded : Threaded Pointer) (words : Nat → BitVec 64) : Prop :=
  ∀ fixup ∈ encoded.fixups, (fixup.word baseAddress auth (words fixup.address)).isSome

structure Recovered (string : Pointer → CString) (sections : List FinalSection)
    (pointerSize : Nat) (rebaseInfo : List RebaseInfo) (bindInfo : List (BindingInfo Pointer))
    (encoded : Threaded Pointer) : Prop where
  binds : encoded.bindInfo.Perm bindInfo
  table : TableRecovered string sections pointerSize encoded
  lists : ∀ baseAddress auth words, WordsFit baseAddress auth encoded words →
    ∃ written, writeAtoms sections baseAddress auth encoded words = some written ∧
      ListsVisit sections pointerSize encoded written (locations rebaseInfo bindInfo)

/-- The locations are apart, aligned and in segments that four bits can name. -/
structure Threadable (sections : List FinalSection) (rebaseInfo : List RebaseInfo)
    (bindInfo : List (BindingInfo Pointer)) : Prop where
  separate : Separate (segments sections)
  held : ∀ address ∈ locations rebaseInfo bindInfo,
    ∃ segment ∈ (segments sections).take 16, segment.Contains address
  aligned : ∀ address ∈ locations rebaseInfo bindInfo, address % 8 = 0
  distinct : (locations rebaseInfo bindInfo).Nodup
  ordinals : ∀ info ∈ bindInfo, -3 ≤ info.libraryOrdinal ∧ info.libraryOrdinal < 2 ^ 31

variable {string : Pointer → CString} {sections : List FinalSection} {pointerSize : Nat}
  {rebaseInfo : List RebaseInfo} {bindInfo sorted : List (BindingInfo Pointer)}
  {encoded : Threaded Pointer} {sorter : Sorter Pointer}

theorem locations_perm (rebaseInfo : List RebaseInfo) (same : sorted.Perm bindInfo) :
    (locations rebaseInfo sorted).Perm (locations rebaseInfo bindInfo) :=
  (same.map BindingInfo.address).append_left _

theorem Threadable.of_perm (threadable : Threadable sections rebaseInfo bindInfo)
    (same : sorted.Perm bindInfo) : Threadable sections rebaseInfo sorted where
  separate := threadable.separate
  held address member := threadable.held address ((locations_perm _ same).mem_iff.mp member)
  aligned address member := threadable.aligned address ((locations_perm _ same).mem_iff.mp member)
  distinct := (locations_perm _ same).nodup_iff.mpr threadable.distinct
  ordinals info member := threadable.ordinals info (same.mem_iff.mp member)

theorem Threadable.found (threadable : Threadable sections rebaseInfo bindInfo)
    (member : address ∈ locations rebaseInfo bindInfo) :
    ∃ found, findSegment sections address = some found ∧ found.index < 16 := by
  obtain ⟨segment, among, holds⟩ := threadable.held address member
  obtain ⟨index, place⟩ := mem_iff_getElem?.mp among
  rw [getElem?_take] at place
  split at place
  next small =>
    exact ⟨_, find_segment_of_contains threadable.separate place holds, small⟩
  · cases place

theorem chain_starts_subset {addresses : List Nat} {previous : Option Nat} :
    chainStarts sections previous addresses ⊆ addresses := by
  induction addresses generalizing previous with
  | nil => exact List.Subset.refl _
  | cons address rest ih =>
    intro start member
    rcases mem_append.mp member with here | there
    · split at here
      · cases here
      · rw [mem_singleton.mp here]
        exact mem_cons_self
    · exact .tail _ (ih there)

variable [DecidableEq Pointer]

theorem table_of_sorted (pointerSize : Nat) (threadable : Threadable sections rebaseInfo sorted)
    {table : BindTable}
    (made : bindTable string sections sorted {} (-1) = some table) (size : BindingTmp)
    (sizes : size.opcode = .threadedSetBindOrdinalTableSizeUleb) :
    Writable table.ops ∧ table.numBinds = ((changes none sorted).length : Int) - 1 ∧
      table.threadedBindOrdinals = (places none 0 sorted).map (· % 2 ^ 16) ∧
      (effect sections pointerSize (size :: table.ops) {}).2.filterMap tableTarget? =
        (changes none sorted).map (target string) ∧
      (effect sections pointerSize (size :: table.ops) {}).2.filterMap applied? = [] := by
  have mirrors : Mirrors string ({} : Encoder Pointer) { threaded := true } :=
    ⟨Or.inl rfl, fun _ impossible => (nomatch impossible), rfl, rfl, rfl⟩
  obtain ⟨writable, count, ordinals, targets⟩ := @bind_table_outcome Pointer string sections
    pointerSize _ sorted none 0 {} { threaded := true } table threadable.ordinals mirrors rfl
    (Or.inl rfl) made
  have sized : effect sections pointerSize [size] {} =
      ({ threaded := true }, [.tableSize size.operand1]) := by
    rw [effect, program_singleton, BindingTmp.meaning, sizes]
  have whole := program_events_then sized table.ops
  rw [singleton_append] at whole
  have nothing := @filling_starts_nothing sections pointerSize table.ops
    (bind_table_fills made) { threaded := true }
  refine ⟨writable, by rw [count, zero_add], ordinals, ?_, ?_⟩
  · rw [whole, filterMap_append, targets]
    rfl
  · rw [whole, filterMap_append, nothing]
    rfl

structure Outcome (string : Pointer → CString) (sections : List FinalSection) (pointerSize : Nat)
    (rebaseInfo : List RebaseInfo) (sorted : List (BindingInfo Pointer))
    (encoded : Threaded Pointer) : Prop where
  bounded : (changes none sorted).length ≤ 2 ^ 16 + 1
  binds : encoded.bindInfo = sorted
  ordinals : encoded.threadedBindOrdinals = (places none 0 sorted).map (· % 2 ^ 16)
  fixups : encoded.fixups = threadedFixups rebaseInfo sorted encoded.threadedBindOrdinals
  replayed : ∃ events, interpret (segments sections) pointerSize encoded.stream = some events ∧
    events.filterMap tableTarget? = (changes none sorted).map (target string) ∧
    events.filterMap applied? = chainStarts sections none (encoded.fixups.map Fixup.address)

theorem places_length (sorted : List (BindingInfo Pointer)) :
    sorted.length = ((places none 0 sorted).map (· % 2 ^ 16)).length := by
  rw [length_map]
  exact (@places_hold Pointer (fun _ => ⟨[], not_mem_nil⟩) _ sorted none []
    (fun _ impossible => nomatch impossible)).length_eq

theorem Outcome.paired (outcome : Outcome string sections pointerSize rebaseInfo sorted encoded) :
    sorted.length = encoded.threadedBindOrdinals.length := by
  rw [outcome.ordinals]
  exact places_length sorted

theorem stream_interpreted {size : BindingTmp}
    (sizes : size.opcode = .threadedSetBindOrdinalTableSizeUleb) (writable : Writable ops) :
    interpret (segments sections) pointerSize (padToSize pointerSize
        (size.bytes ++ writeBuffer isDone BindingTmp.bytes (ops ++ [doneTmp]) ++ [0])) =
      some (effect sections pointerSize (size :: ops) {}).2 := by
  have alive : isDone size = false := by rw [isDone, sizes]; rfl
  have encodable : size.Encodable := by rw [BindingTmp.Encodable, sizes]; trivial
  have written : writeBuffer isDone BindingTmp.bytes (ops ++ [doneTmp]) =
      (ops.map BindingTmp.bytes).flatten := by
    rw [Bytecode.write_buffer_live BindingTmp.bytes [] (fun tmp member => (writable tmp member).1) rfl]
    exact append_nil _
  have readable : ∀ tmp ∈ size :: ops, (bindCode (segments sections) pointerSize).Readable tmp := by
    intro tmp member
    rcases mem_cons.mp member with rfl | later
    · exact bind_readable _ _ alive encodable
    · exact bind_readable _ _ (writable tmp later).1 (writable tmp later).2
  rw [written, padToSize, interpret, append_assoc _ [0], singleton_append,
    ← replicate_succ, ← flatten_cons, ← map_cons]
  exact Bytecode.interpret_written readable (Bytecode.stops_at_zeros zero_reads_done _) _ _
    (le_refl _)

theorem encode_v2_outcome (sorter : Sorter Pointer) (pointerSize : Nat)
    (threadable : Threadable sections rebaseInfo bindInfo)
    (supported : typesSupported 0 (sorter.sort (BindingInfo.less string) bindInfo) = true)
    (bounded : (changes none (sorter.sort (BindingInfo.less string) bindInfo)).length ≤
      2 ^ 16 + 1) :
    ∃ encoded, encodeV2 string sorter sections pointerSize rebaseInfo bindInfo = some encoded ∧
      Outcome string sections pointerSize rebaseInfo
        (sorter.sort (BindingInfo.less string) bindInfo) encoded := by
  have same := sorter.permutes (BindingInfo.less string) bindInfo
  have sortedThreadable := threadable.of_perm same
  generalize arranged : sorter.sort (BindingInfo.less string) bindInfo = sorted at *
  have held : ∀ info ∈ sorted, ∃ found, findSegment sections info.address = some found := by
    intro info member
    obtain ⟨found, ran, -⟩ := sortedThreadable.found (mem_append_right _ (mem_map_of_mem member))
    exact ⟨found, ran⟩
  obtain ⟨table, made⟩ := Option.isSome_iff_exists.mp
    ((@bind_table_is_some Pointer string sections _ sorted {} (-1) held).mpr supported)
  let size : BindingTmp :=
    { opcode := .threadedSetBindOrdinalTableSizeUleb, operand1 := (table.numBinds + 1).toNat }
  obtain ⟨writable, count, ordinals, targets, nothing⟩ :=
    table_of_sorted pointerSize sortedThreadable made size rfl
  let fixups := threadedFixups rebaseInfo sorted table.threadedBindOrdinals
  have paired : sorted.length = table.threadedBindOrdinals.length := by
    rw [ordinals]
    exact places_length sorted
  have among : ∀ address ∈ fixups.map Fixup.address, address ∈ locations rebaseInfo sorted :=
    fun address member => (fixups_addresses rebaseInfo paired).mem_iff.mp member
  have starts := @page_starts_eq (fixups.map Fixup.address) sections threadable.separate none {}
    tracks_start (by
      intro address member
      obtain ⟨found, ran, -⟩ := sortedThreadable.found (among address member)
      exact ⟨sortedThreadable.aligned address (among address member), found, ran⟩)
  have startsAmong : ∀ start ∈ chainStarts sections none (fixups.map Fixup.address),
      start ∈ locations rebaseInfo sorted :=
    fun start member => among start (chain_starts_subset member)
  have startsWritable : Writable
      ((chainStarts sections none (fixups.map Fixup.address)).flatMap (startOps sections)) := by
    intro tmp member
    obtain ⟨start, started, inside⟩ := mem_flatMap.mp member
    refine start_ops_writable ?_ tmp inside
    intro found ran
    obtain ⟨other, otherRan, small⟩ := sortedThreadable.found (startsAmong start started)
    cases ran.symm.trans otherRan
    exact small
  have limit : ¬ 0x10000 < table.numBinds := by omega
  let startsOps := (chainStarts sections none (fixups.map Fixup.address)).flatMap (startOps sections)
  have ran : encodeV2 string sorter sections pointerSize rebaseInfo bindInfo =
      some
        { stream := padToSize pointerSize (size.bytes ++ writeBuffer isDone BindingTmp.bytes
            (table.ops ++ startsOps ++ [doneTmp]) ++ [0])
          bindInfo := sorted
          threadedBindOrdinals := table.threadedBindOrdinals
          fixups := fixups } := by
    simp only [encodeV2, arranged, made, Option.bind_eq_bind, Option.bind_some, guard, if_pos limit,
      Option.pure_def]
    rw [starts]
    rfl
  refine ⟨_, ran, bounded, rfl, ordinals, rfl, _,
    stream_interpreted rfl (writable_append writable startsWritable), ?_⟩
  obtain ⟨applied, untouched⟩ := @starts_effect sections pointerSize _
    (fun start member =>
      (sortedThreadable.found (startsAmong start member)).imp fun _ both => both.1)
    (effect sections pointerSize (size :: table.ops) {}).1
  rw [← cons_append, effect, program_append, mul_apply, filterMap_append, filterMap_append]
  exact ⟨by rw [targets, untouched, append_nil], by rw [nothing, applied]; rfl⟩

/-- `encodeV2` throws for nothing else than a type or too large a table. -/
theorem encode_v2_some (threadable : Threadable sections rebaseInfo bindInfo)
    (ran : encodeV2 string sorter sections pointerSize rebaseInfo bindInfo = some encoded) :
    typesSupported 0 (sorter.sort (BindingInfo.less string) bindInfo) = true ∧
      (changes none (sorter.sort (BindingInfo.less string) bindInfo)).length ≤ 2 ^ 16 + 1 := by
  have sortedThreadable := threadable.of_perm (sorter.permutes (BindingInfo.less string) bindInfo)
  obtain ⟨table, made, rest⟩ := Option.bind_eq_some_iff.mp ran
  obtain ⟨_, limit, -⟩ := Option.bind_eq_some_iff.mp rest
  have small : ¬ 0x10000 < table.numBinds := by
    by_contra large
    simp [guard, large] at limit
  constructor
  · refine (@bind_table_is_some Pointer string sections _ _ {} (-1) ?_).mp
      (Option.isSome_iff_exists.mpr ⟨table, made⟩)
    intro info member
    exact (sortedThreadable.found (mem_append_right _ (mem_map_of_mem member))).imp
      fun _ both => both.1
  · obtain ⟨-, count, -⟩ := table_of_sorted pointerSize sortedThreadable made
      { opcode := .threadedSetBindOrdinalTableSizeUleb, operand1 := 0 } rfl
    omega

section Outcome

variable (outcome : Outcome string sections pointerSize rebaseInfo sorted encoded)

include outcome

section Lists

variable {baseAddress : BitVec 64} {auth : Nat → Option AuthFixup} {words : Nat → BitVec 64}
  (threadable : Threadable sections rebaseInfo sorted)
  (fit : WordsFit baseAddress auth encoded words)

include threadable fit

theorem write_atoms_links :
    ∃ written, writeAtoms sections baseAddress auth encoded words = some written ∧
      Linked sections written (encoded.fixups.map Fixup.address) := by
  have among := fixups_addresses rebaseInfo outcome.paired
  have increase := fixups_increase outcome.paired threadable.distinct
  have narrow := @fixups_narrow Pointer rebaseInfo sorted encoded.threadedBindOrdinals (by
    rw [outcome.ordinals]
    intro ordinal member
    obtain ⟨place, -, rfl⟩ := List.mem_map.mp member
    exact Nat.mod_lt _ (Nat.two_pow_pos 16))
  rw [← outcome.fixups] at among increase narrow
  have all : ∀ fixup ∈ encoded.fixups, fixup.Narrow ∧
      (∃ found, findSegment sections fixup.address = some found) ∧
      (fixup.word baseAddress auth (words fixup.address)).isSome := by
    intro fixup member
    refine ⟨narrow fixup member, ?_, fit fixup member⟩
    exact (threadable.found (among.mem_iff.mp (mem_map_of_mem member))).imp fun _ both => both.1
  -- whichever segment the loop starts with, it is a known one or none
  have links := fun current known =>
    @write_chain_links Pointer sections baseAddress auth encoded.fixups threadable.separate
      current words known increase all
  unfold writeAtoms
  cases order : encoded.fixups with
  | nil => exact ⟨words, rfl, trivial⟩
  | cons first rest =>
    rw [order] at links all
    obtain ⟨-, ⟨found, ran⟩, -⟩ := all first mem_cons_self
    dsimp only
    split
    · obtain ⟨written, wrote, linked, -⟩ := links found (found_is_known threadable.separate ran)
      refine ⟨written, ?_, linked⟩
      rw [ran]
      exact wrote
    · obtain ⟨written, wrote, linked, -⟩ := links ⟨0, 0, 0⟩
        fun _ _ upper => absurd upper (Nat.not_lt_zero _)
      exact ⟨written, wrote, linked⟩

theorem lists_recovered :
    ∃ written, writeAtoms sections baseAddress auth encoded words = some written ∧
      ListsVisit sections pointerSize encoded written (locations rebaseInfo sorted) := by
  obtain ⟨written, wrote, linked⟩ := write_atoms_links outcome threadable fit
  have among := fixups_addresses rebaseInfo outcome.paired
  have increase := fixups_increase outcome.paired threadable.distinct
  rw [← outcome.fixups] at among increase
  obtain ⟨events, ran, -, starts⟩ := outcome.replayed
  obtain ⟨visited, followed, whole⟩ := chains_cover (pairwise_map.mpr increase)
    (fun address member => threadable.aligned address (among.mem_iff.mp member)) linked
    (le_of_eq among.length_eq)
  refine ⟨written, wrote, events, visited, ran, ?_, ?_⟩
  · rw [starts]
    exact followed
  · rw [whole]
    exact among

end Lists

theorem table_recovered_iff :
    TableRecovered string sections pointerSize encoded ↔ ¬ Truncates string sorted := by
  obtain ⟨events, ran, targets, -⟩ := outcome.replayed
  rw [← table_correct_iff outcome.bounded, ← targets, ← outcome.ordinals]
  constructor
  · rintro ⟨others, othersRan, correct⟩
    cases othersRan.symm.trans ran
    rw [outcome.binds] at correct
    exact correct
  intro correct
  refine ⟨events, ran, ?_⟩
  rw [outcome.binds]
  exact correct

end Outcome

/-- Threaded binding recovers its input, unless the types are taken and the
table is filled one place beyond the ordinals. -/
theorem threaded_binds_recovered_iff (sorter : Sorter Pointer) (pointerSize : Nat)
    (threadable : Threadable sections rebaseInfo bindInfo) :
    (∀ encoded, encodeV2 string sorter sections pointerSize rebaseInfo bindInfo = some encoded →
        Recovered string sections pointerSize rebaseInfo bindInfo encoded) ↔
      ¬ (typesSupported 0 (sorter.sort (BindingInfo.less string) bindInfo) = true ∧
        Truncates string (sorter.sort (BindingInfo.less string) bindInfo)) := by
  have same := sorter.permutes (BindingInfo.less string) bindInfo
  constructor
  · rintro recovered ⟨supported, truncates⟩
    obtain ⟨encoded, ran, outcome⟩ :=
      encode_v2_outcome sorter pointerSize threadable supported (le_of_eq truncates.1)
    exact (table_recovered_iff outcome).mp (recovered encoded ran).table truncates
  intro fits encoded ran
  obtain ⟨supported, bounded⟩ := encode_v2_some threadable ran
  obtain ⟨other, otherRan, outcome⟩ :=
    encode_v2_outcome sorter pointerSize threadable supported bounded
  cases ran.symm.trans otherRan
  refine ⟨outcome.binds ▸ same, (table_recovered_iff outcome).mpr fun truncates =>
    fits ⟨supported, truncates⟩, ?_⟩
  intro baseAddress auth words fit
  obtain ⟨written, wrote, events, visited, replayed, followed, whole⟩ :=
    lists_recovered outcome (threadable.of_perm same) fit
  have moved := locations_perm rebaseInfo same
  rw [moved.length_eq] at followed
  exact ⟨written, wrote, events, visited, replayed, followed, whole.trans moved⟩

end Encoding

section Example

variable {Pointer : Type} {list : List (BindingInfo Pointer)}

theorem pointers_supported (pointers : ∀ info ∈ list, info.type = .pointer) (type) :
    typesSupported type list = true := by
  induction list generalizing type with
  | nil => rfl
  | cons info rest ih =>
    have later := ih fun other member => pointers other (.tail _ member)
    simp [typesSupported, pointers info mem_cons_self, later]

variable [DecidableEq Pointer]

theorem changes_length_le (list : List (BindingInfo Pointer)) (previous) :
    (changes previous list).length ≤ list.length := by
  induction list generalizing previous with
  | nil => exact le_refl _
  | cons info rest ih =>
    have later := ih (some info)
    rw [changes, length_append, length_cons]
    split
    · rw [length_singleton]
      omega
    · rw [length_nil]
      omega

theorem changes_of_distinct :
    ∀ {previous : Option (BindingInfo Pointer)},
      (previous.toList ++ list).Pairwise (fun left right => ¬ SamePlace left right) →
      changes previous list = list := by
  induction list with
  | nil =>
    intro previous _
    rfl
  | cons info rest ih =>
    intro previous apart
    have starts : startsPlace previous info = true := by
      cases previous with
      | none => rfl
      | some before =>
        have differ := (pairwise_cons.mp apart).1 info mem_cons_self
        simpa [startsPlace] using differ
    have later := @ih (some info) (pairwise_append.mp apart).2.1
    rw [changes, starts, later]
    rfl

def twoPages : List FinalSection :=
  [⟨"__TEXT", 0x1000, 0x1000⟩, ⟨"__DATA", 0x4000, 0x2000⟩, ⟨"__LINKEDIT", 0x8000, 0x100⟩]

def threeRebases : List RebaseInfo := [⟨.pointer, 0x4010⟩, ⟨.pointer, 0x5000⟩, ⟨.pointer, 0x1000⟩]

def twoBinds : List (BindingInfo Nat) :=
  [⟨.pointer, .none, 1, 1, 0x4008, 0⟩, ⟨.pointer, .none, -2, 2, 0x5ff8, 16⟩]

theorem two_pages_threadable : Threadable twoPages threeRebases twoBinds where
  separate := separate_of_ordered (by decide)
  held := by decide
  aligned := by decide
  distinct := by decide
  ordinals := by decide

theorem two_binds_recovered : Threadable twoPages threeRebases twoBinds ∧
      (encodeV2 lettersAt mergeSorter twoPages 8 threeRebases twoBinds).isSome ∧
      ∀ encoded, encodeV2 lettersAt mergeSorter twoPages 8 threeRebases twoBinds = some encoded →
        Recovered lettersAt twoPages 8 threeRebases twoBinds encoded := by
  have same := mergeSorter.permutes (BindingInfo.less lettersAt) twoBinds
  have few := changes_length_le (mergeSorter.sort (BindingInfo.less lettersAt) twoBinds) none
  rw [same.length_eq] at few
  refine ⟨two_pages_threadable, ?_,
    (threaded_binds_recovered_iff mergeSorter 8 two_pages_threadable).mpr ?_⟩
  · obtain ⟨encoded, ran, -⟩ := encode_v2_outcome mergeSorter 8 two_pages_threadable
      (pointers_supported (fun info member =>
        (by decide : ∀ info ∈ twoBinds, info.type = .pointer) info (same.mem_iff.mp member)) 0)
      (few.trans (by decide))
    rw [ran]
    rfl
  · rintro ⟨-, full, -⟩
    rw [full] at few
    exact absurd few (by decide)

def wideSections : List FinalSection :=
  [⟨"__DATA", 0x4000, 0x100000⟩, ⟨"__LINKEDIT", 0x200000, 0x100⟩]

def bindAt (place : Nat) : BindingInfo Nat :=
  ⟨.pointer, .none, 1, 1, 0x4000 + place * 8, BitVec.ofNat 64 place⟩

def overfullBinds : List (BindingInfo Nat) := (List.range (2 ^ 16 + 1)).map bindAt

theorem overfull_binds_locations :
    locations [] overfullBinds = (range (2 ^ 16 + 1)).map fun place => 0x4000 + place * 8 := by
  rw [locations, map_nil, nil_append, overfullBinds, map_map]
  rfl

theorem overfull_binds_threadable : Threadable wideSections [] overfullBinds where
  separate := separate_of_ordered (by decide)
  held := by
    intro address member
    rw [overfull_binds_locations] at member
    obtain ⟨place, small, rfl⟩ := List.mem_map.mp member
    rw [mem_range] at small
    refine ⟨⟨0x4000, 0x104000⟩, by decide, ?_, ?_⟩
    · exact le_add_right _ _
    · dsimp only
      omega
  aligned := by
    intro address member
    rw [overfull_binds_locations] at member
    obtain ⟨place, -, rfl⟩ := List.mem_map.mp member
    omega
  distinct := by
    rw [overfull_binds_locations]
    apply nodup_range.map
    intro left right same
    dsimp only at same
    omega
  ordinals := by
    intro info member
    obtain ⟨place, -, rfl⟩ := List.mem_map.mp member
    exact ⟨(by decide : (-3 : Int) ≤ 1), (by decide : (1 : Int) < 2 ^ 31)⟩

theorem overfull_binds_sorted :
    mergeSorter.sort (BindingInfo.less lettersAt) overfullBinds = overfullBinds := by
  apply mergeSort_of_pairwise
  rw [overfullBinds, pairwise_map]
  apply (pairwise_lt_range).imp
  intro left right before
  simp only [BindingInfo.less, bindAt]
  simp
  omega

theorem overfull_binds_truncated : Truncates lettersAt overfullBinds := by
  have all : changes none overfullBinds = overfullBinds := by
    apply changes_of_distinct
    rw [Option.toList_none, nil_append, overfullBinds, pairwise_map, pairwise_iff_forall_sublist]
    intro left right sub
    have below := pairwise_iff_forall_sublist.mp pairwise_lt_range sub
    have bound := mem_range.mp (sub.subset (.tail _ mem_cons_self))
    rintro ⟨-, -, -, same⟩
    have values := congrArg BitVec.toNat same
    simp only [bindAt, BitVec.toNat_ofNat] at values
    omega
  rw [Truncates, all]
  constructor
  · rw [overfullBinds, length_map, length_range]
  · rw [overfullBinds, map_map, head?_map, getLast?_map, head?_range, getLast?_range]
    decide

/-- The bind with the last place gets the ordinal of the first. -/
theorem overfull_table_truncated : Threadable wideSections [] overfullBinds ∧
      ∃ encoded, encodeV2 lettersAt mergeSorter wideSections 8 [] overfullBinds = some encoded ∧
        ¬ TableRecovered lettersAt wideSections 8 encoded := by
  have truncated := overfull_binds_truncated
  have supported : ∀ type, typesSupported type overfullBinds = true := by
    apply pointers_supported
    intro info member
    obtain ⟨place, -, rfl⟩ := List.mem_map.mp member
    rfl
  rw [← overfull_binds_sorted] at truncated supported
  obtain ⟨encoded, ran, outcome⟩ := encode_v2_outcome mergeSorter 8 overfull_binds_threadable
    (supported 0) (le_of_eq truncated.1)
  exact ⟨overfull_binds_threadable, encoded, ran,
    fun recovered => (table_recovered_iff outcome).mp recovered truncated⟩

end Example

end DeveloperTools.Ld64.ThreadedBinds
