import DeveloperTools.Lib.FailingFold
import DeveloperTools.Ld64.ExportsTrieReading

/-!
The reader returns every export, in the order in which they were added, unless
a node has too many edges for its count byte or a name is too long for the
index of the reader.
-/

namespace DeveloperTools.Ld64.ExportsTrie

open Memory FailingFold

open MachOTrie
open List

section Reading

variable {region : Region} {trieOffset : Nat → Nat}

variable {found : Nat × WriterEntry → EntryWithOffset}

mutual

theorem node_read_short {node : Node} (valid : node.Valid)
    (short : ∀ terminal ∈ node.terminals, terminal.2.name.length < 2 ^ 31)
    (reads : ∀ terminal ∈ node.terminals,
      readTerminal region terminal.2.name (payloadAddress region trieOffset terminal) =
      .ok (found terminal)) : node.read region trieOffset = .ok (node.visible.map found) := by
  match node with
  | .mk index spelled terminalEntry children =>
    have below := edges_read_short (children.labels.length % 256) valid.2
      (fun terminal member => short terminal (mem_append_right _ member))
      (fun terminal member => reads terminal (mem_append_right _ member))
    rw [Node.read, below, Node.visible, map_append]
    by_cases named : terminalEntry.name ≠ []
    · have own : (index, terminalEntry) ∈ ownTerminal index terminalEntry := by
        simp [ownTerminal, named]
      have result := reads _ (mem_append_left _ own)
      rw [(own_terminal_name valid.1 own).2] at result
      rw [if_pos named, result, ownTerminal, if_pos named]
      rfl
    · rw [if_neg named, ownTerminal, if_neg named]
      rfl

theorem edges_read_short {spelled : Bytes} {edges : Edges} (count : Nat)
    (valid : edges.Valid spelled)
    (short : ∀ terminal ∈ edges.terminals, terminal.2.name.length < 2 ^ 31)
    (reads : ∀ terminal ∈ edges.terminals,
      readTerminal region terminal.2.name (payloadAddress region trieOffset terminal) =
      .ok (found terminal)) : edges.read region trieOffset spelled count =
      .ok ((edges.visible count).map found) := by
  match edges, count with
  | .nil, _ => rfl
  | .cons _ _ _, 0 => rfl
  | .cons label child rest, count + 1 =>
    obtain ⟨terminal, member, within⟩ := edges_have_terminal valid mem_cons_self
    have bound := short terminal member
    have reach := within.length_le
    rw [length_append] at reach
    obtain ⟨_, _, _, _, childValid, _, restValid⟩ := valid
    have first := node_read_short childValid
      (fun terminal member => short terminal (mem_append_left _ member))
      (fun terminal member => reads terminal (mem_append_left _ member))
    have later := edges_read_short count restValid
      (fun terminal member => short terminal (mem_append_right _ member))
      (fun terminal member => reads terminal (mem_append_right _ member))
    rw [Edges.read, if_pos (by omega), first, later, Edges.visible, map_append]
    rfl

end

mutual

theorem node_read_ok {node : Node} {entries : List EntryWithOffset} (valid : node.Valid)
    (reached : node.cummulativeString.length < 2 ^ 31)
    (ran : node.read region trieOffset = .ok entries) : entries.length = node.visible.length ∧
      ∀ terminal ∈ node.visible, terminal.2.name.length < 2 ^ 31 := by
  match node with
  | .mk index spelled terminalEntry children =>
    obtain ⟨own, ownRan, rest⟩ := bind_ok ran
    obtain ⟨below, belowRan, last⟩ := bind_ok rest
    cases last
    have lower := edges_read_ok valid.2 belowRan
    have upper : own.length = (ownTerminal index terminalEntry).length := by
      by_cases named : terminalEntry.name ≠ []
      · rw [if_pos named] at ownRan
        rw [ownTerminal, if_pos named]
        obtain ⟨entry, _, rfl⟩ := map_ok ownRan
        rfl
      · rw [if_neg named] at ownRan
        rw [ownTerminal, if_neg named]
        cases ownRan
        rfl
    simp only [Node.visible, length_append, forall_mem_append]
    refine ⟨by omega, ?_, lower.2⟩
    intro terminal member
    obtain ⟨rfl, name⟩ := own_terminal_name valid.1 member
    change terminalEntry.name.length < 2 ^ 31
    rw [name]
    exact reached

theorem edges_read_ok {spelled : Bytes} {edges : Edges} {count : Nat}
    {entries : List EntryWithOffset} (valid : edges.Valid spelled)
    (ran : edges.read region trieOffset spelled count = .ok entries) :
    entries.length = (edges.visible count).length ∧
      ∀ terminal ∈ edges.visible count, terminal.2.name.length < 2 ^ 31 := by
  match edges, count with
  | .nil, _ =>
    cases ran
    exact ⟨rfl, by simp [Edges.visible]⟩
  | .cons _ _ _, 0 =>
    cases ran
    exact ⟨rfl, by simp [Edges.visible]⟩
  | .cons label child rest, count + 1 =>
    obtain ⟨place, _, _, _, childValid, _, restValid⟩ := valid
    rw [Edges.read] at ran
    split at ran
    next reach =>
      obtain ⟨first, firstRan, next⟩ := bind_ok ran
      obtain ⟨later, laterRan, last⟩ := bind_ok next
      cases last
      have upper := node_read_ok childValid (by rwa [place, length_append]) firstRan
      have lower := edges_read_ok restValid laterRan
      simp only [Edges.visible, length_append, forall_mem_append]
      exact ⟨by omega, upper.2, lower.2⟩
    · cases ran

end

end Reading

def readBack (p : Nat) (info : Export) : Entry :=
  { name := info.name
    address := if info.isReexport then 0 else info.offset.toNat
    flags := info.flags.toNat
    other := if info.isReexport ∨ info.isStubAndResolver then info.other.toNat else 0
    importName := if info.isReexport then
        some (p + Leb128.size info.flags.toNat + Leb128.size info.other.toNat)
      else none }

theorem is_reexport_iff (info : Export) :
    info.isReexport = true ↔ info.flags.toNat &&& 0x08 ≠ 0 := decide_eq_true_iff

theorem is_stub_and_resolver_iff (info : Export) :
    info.isStubAndResolver = true ↔ info.flags.toNat &&& 0x10 ≠ 0 := decide_eq_true_iff

variable {info : Export} {region : Region}

theorem read_terminal_export {p : Nat} (named : info.name ≠ [])
    (held : region.Holds p info.terminal) : readTerminal region info.name p =
      .ok { nodeOffset := p - region.start, entry := readBack p info } := by
  have flagsFit := info.flags.toNat_lt
  have offsetFits := info.offset.toNat_lt
  have otherFits := info.other.toNat_lt
  rw [Export.terminal, if_neg named] at held
  by_cases reexport : info.isReexport = true
  · rw [if_pos reexport, append_assoc, Region.holds_append, Region.holds_append,
      Leb128.encode_size] at held
    have first := read_uleb_encode held.1 (by omega)
    have second := read_uleb_encode held.2.1 (by omega)
    have flag := (is_reexport_iff info).mp reexport
    simp [readTerminal, first, second, bind, Except.bind, flag, readBack, reexport]
  · rw [if_neg reexport] at held
    have flag : info.flags.toNat &&& 0x08 = 0 :=
      by_contra fun set => reexport ((is_reexport_iff info).mpr set)
    by_cases resolver : info.isStubAndResolver = true
    · rw [if_pos resolver, append_assoc, Region.holds_append, Region.holds_append,
        Leb128.encode_size, Leb128.encode_size] at held
      have first := read_uleb_encode held.1 (by omega)
      have second := read_uleb_encode held.2.1 (by omega)
      have third := read_uleb_encode held.2.2 (by omega)
      have stub := (is_stub_and_resolver_iff info).mp resolver
      simp [readTerminal, first, second, third, bind, Except.bind, flag, stub, readBack, reexport,
        resolver]
    · rw [if_neg resolver, Region.holds_append, Leb128.encode_size] at held
      have first := read_uleb_encode held.1 (by omega)
      have second := read_uleb_encode held.2 (by omega)
      have stub : info.flags.toNat &&& 0x10 = 0 :=
        by_contra fun set => resolver ((is_stub_and_resolver_iff info).mpr set)
      simp [readTerminal, first, second, bind, Except.bind, flag, stub, readBack, reexport,
        resolver]

/-- The entry read is the export: an import name equal to the name is read as
the empty string, and only the fields its flags select are kept. -/
def SameExport (region : Region) (entry : Entry) (info : Export) : Prop :=
  entry.name = info.name ∧ entry.flags = info.flags.toNat ∧
    if info.isReexport then
      entry.address = 0 ∧ entry.other = info.other.toNat ∧
        entry.importName.bind region.cstringAt = some info.writtenImportName
    else if info.isStubAndResolver then
      entry.address = info.offset.toNat ∧ entry.other = info.other.toNat ∧ entry.importName = none
    else entry.address = info.offset.toNat ∧ entry.other = 0 ∧ entry.importName = none

/-- The constructor reports no error, and `parseTrie` over the bytes, wherever
they lie in memory, returns the exports in their order. -/
def RoundTrip (exports : List Export) : Prop :=
  ∃ trie, exportsTrie exports = .bytes trie ∧
    ∀ region : Region, region.bytes = trie →
      ∃ entries, parseTrie region = .ok entries ∧ List.Forall₂ (SameExport region) entries exports

theorem written_import_name_clean (clean : (0 : UInt8) ∉ info.importName) :
    (0 : UInt8) ∉ info.writtenImportName := by
  unfold Export.writtenImportName
  split
  · exact not_mem_nil
  · exact clean

theorem read_back_same {p : Nat} (named : info.name ≠ []) (clean : (0 : UInt8) ∉ info.importName)
    (held : region.Holds p info.terminal) :
    SameExport region (readBack p info) info := by
  refine ⟨rfl, rfl, ?_⟩
  by_cases reexport : info.isReexport = true
  · rw [Export.terminal, if_neg named, if_pos reexport, Region.holds_append,
      Region.holds_append] at held
    have text := held.2
    rw [length_append, Leb128.encode_size, Leb128.encode_size, ← Nat.add_assoc,
      appendString] at text
    have read := Region.cstring_of_holds (written_import_name_clean clean) text
    simp [readBack, reexport, read]
  · by_cases resolver : info.isStubAndResolver = true
    · simp [readBack, reexport, resolver]
    · simp [readBack, reexport, resolver]

def EntryOf (terminalBuffer : Bytes) (entry : WriterEntry) (info : Export) : Prop :=
  entry.name = info.name ∧ entry.strideSize = info.terminal.length ∧
    entry.payload terminalBuffer = info.terminal

variable {exports : List Export}

theorem export_entries_of {temp behind : Bytes}
    (small : (temp ++ terminalBytes exports).length < 2 ^ 32) :
    Forall₂ (EntryOf (temp ++ terminalBytes exports ++ behind)) (exportEntries temp exports)
      exports := by
  induction exports generalizing temp with
  | nil => exact List.Forall₂.nil
  | cons info rest ih =>
    have shape : temp ++ terminalBytes (info :: rest) =
        temp ++ info.terminal ++ terminalBytes rest := by
      simp [terminalBytes]
    rw [shape] at small ⊢
    have size : (temp ++ info.terminal).length < 2 ^ 32 := by
      rw [length_append] at small
      omega
    rw [length_append] at size
    apply List.Forall₂.cons
    · refine ⟨rfl, Nat.mod_eq_of_lt (by omega), ?_⟩
      rw [WriterEntry.payload, exportToEntry, Nat.mod_eq_of_lt (by omega),
        Nat.mod_eq_of_lt (by omega), append_assoc, append_assoc, drop_left, take_left]
    · exact ih small

variable {start : Node}

theorem payload_held {terminalBuffer trie : Bytes} {trieOffset : Nat → Nat}
    (written : Written terminalBuffer start trieOffset trie) (content : region.bytes = trie)
    {terminal : Nat × WriterEntry} (member : terminal ∈ start.terminals) :
    region.Holds (payloadAddress region trieOffset terminal)
      (terminal.2.payload terminalBuffer) := by
  obtain ⟨named, record, here, index, entry⟩ := node_terminal_record terminal member
  have held := written.stored region content record here
  rw [Record.appendToStream, entry, if_pos named, index, Region.holds_append,
    Region.holds_append, Leb128.encode_size] at held
  exact held.1.2

/-- Exports with distinct C strings for names, whose payloads the 32-bit strides
can address. -/
structure WellFormed (exports : List Export) : Prop where
  distinct : (exports.map Export.name).Nodup
  named : ∀ info ∈ exports, info.name ≠ []
  clean : ∀ info ∈ exports, (0 : UInt8) ∉ info.name
  importClean : ∀ info ∈ exports, (0 : UInt8) ∉ info.importName
  payloads : (terminalBytes exports).length < 2 ^ 32

/-- Exports whose trie fits in 32-bit offsets. -/
structure Exportable (exports : List Export) : Prop extends WellFormed exports where
  offsets : ∀ start count, spliceAll (exportEntries [] exports) = .ok (start, count) →
    FitsOffsets start

theorem export_entries_names (temp : Bytes) (exports : List Export) :
    (exportEntries temp exports).map WriterEntry.name = exports.map Export.name := by
  induction exports generalizing temp with
  | nil => rfl
  | cons info rest ih =>
    rw [exportEntries, map_cons, map_cons, ih]
    rfl

theorem terminal_positive (named : info.name ≠ []) : 0 < info.terminal.length := by
  have positive := Leb128.size_positive info.flags.toNat
  rw [Export.terminal, if_neg named]
  split
  · simp only [length_append, Leb128.encode_size]
    omega
  split
  · simp only [length_append, Leb128.encode_size]
    omega
  · simp only [length_append, Leb128.encode_size]
    omega

theorem well_formed_entries (wellFormed : WellFormed exports) :
    Forall₂ (EntryOf (terminalBytes exports)) (exportEntries [] exports) exports := by
  have entries : Forall₂ (EntryOf ([] ++ terminalBytes exports ++ [])) _ _ :=
    export_entries_of wellFormed.payloads
  rwa [nil_append, append_nil] at entries

variable {entries : List WriterEntry}

theorem entry_has_export {terminalBuffer : Bytes}
    (same : Forall₂ (EntryOf terminalBuffer) entries exports) :
    ∀ entry ∈ entries, ∃ info ∈ exports, EntryOf terminalBuffer entry info := by
  intro entry member
  induction same with
  | nil => cases member
  | cons head _ ih =>
    rcases mem_cons.mp member with rfl | later
    · exact ⟨_, mem_cons_self, head⟩
    · obtain ⟨info, here, facts⟩ := ih later
      exact ⟨info, .tail _ here, facts⟩

theorem export_entries_built (wellFormed : WellFormed exports) :
    ∃ start count, spliceAll (exportEntries [] exports) = .ok (start, count) ∧
      Built (exportEntries [] exports) start count := by
  apply splice_all_built
  · intro entry member
    obtain ⟨info, here, name, _⟩ := entry_has_export (well_formed_entries wellFormed) entry member
    constructor
    · rw [name]
      exact wellFormed.named info here
    · rw [name]
      exact wellFormed.clean info here
  · rw [export_entries_names]
    exact wellFormed.distinct

theorem records_paid (wellFormed : WellFormed exports) {count : Nat}
    (built : Built (exportEntries [] exports) start count) :
    ∀ record ∈ start.records, record.Paid (terminalBytes exports) ∧ record.Sized := by
  intro record member
  rcases node_record_terminal built.valid record member with absent | present
  · rw [Record.Paid, Record.Sized, absent]
    exact ⟨rfl, fun named => absurd rfl named⟩
  have entry := (built_names built record.terminalEntry).mp ⟨_, present, rfl⟩
  obtain ⟨info, here, _, size, payload⟩ := entry_has_export (well_formed_entries wellFormed) _ entry
  have bound := wellFormed.payloads
  have inside : info.terminal.length ≤ (terminalBytes exports).length :=
    (sublist_flatten_of_mem (mem_map_of_mem here)).length_le
  have positive := terminal_positive (wellFormed.named info here)
  rw [Record.Paid, Record.Sized, payload, size]
  exact ⟨rfl, fun _ => ⟨by omega, by omega⟩⟩

theorem exports_trie_written (exportable : Exportable exports) :
    ∃ start count trieOffset trie, exportsTrie exports = .bytes trie ∧
      Built (exportEntries [] exports) start count ∧
      Written (terminalBytes exports) start trieOffset trie ∧
      ∀ record ∈ start.records, record.Paid (terminalBytes exports) ∧ record.Sized := by
  obtain ⟨start, count, spliced, built⟩ := export_entries_built exportable.toWellFormed
  have paid := records_paid exportable.toWellFormed built
  obtain ⟨trieOffset, trie, bytes, written⟩ := build_trie_bytes_written built spliced
    (exportable.offsets start count spliced) (fun record member => (paid record member).1)
  exact ⟨start, count, trieOffset, trie, bytes, built, written, paid⟩

section Written

variable {entries : List WriterEntry} {terminalBuffer trie : Bytes} {start : Node} {count : Nat}
  {trieOffset : Nat → Nat} {region : Region}

section

variable (built : Built entries start count)
    (written : Written terminalBuffer start trieOffset trie)

include built written

theorem child_offset_positive : ∀ record ∈ start.children.records, 0 < trieOffset record.index := by
  intro record member
  have distinct := built.indices.nodup_iff.mpr nodup_range
  have zero := built.index
  cases start with
  | mk index spelled terminalEntry children =>
    have other : record.index ∈ children.indices := by
      rw [← edges_record_indices]
      exact mem_map_of_mem member
    rw [Node.indices, nodup_cons] at distinct
    have different : record.index ≠ index := fun same => distinct.1 (same ▸ other)
    change index = 0 at zero
    have behind := written.apart ⟨index, terminalEntry, children.targets⟩ mem_cons_self
      record (.tail _ member) (by dsimp only; omega)
    have large := two_le_node_size trieOffset ⟨index, terminalEntry, children.targets⟩
    omega

theorem parse_trie_read
    (paid : ∀ record ∈ start.records, record.Paid terminalBuffer ∧ record.Sized)
    (content : region.bytes = trie) :
    parseTrie region = (start.read region trieOffset).map fun entries =>
      (entries.mergeSort fun left right => left.nodeOffset ≤ right.nodeOffset).map
        EntryWithOffset.entry := by
  have weight := (node_weight_le trieOffset start).trans written.size
  have nodes : 0 < start.indices.length := by
    cases start with
    | mk _ _ _ _ => exact Nat.succ_pos _
  rw [← content] at weight
  have nonempty : region.bytes ≠ [] := by
    intro empty
    rw [empty, length_nil] at weight
    omega
  have unnamed : start.terminalEntry.name = [] := by
    have valid := built.valid
    have place := built.place
    cases start with
    | mk _ _ _ _ =>
      rcases valid.1 with absent | present
      · exact congrArg WriterEntry.name absent
      · exact absurd place present.2
  have read := process_node_read (region.bytes.length + 1) start none built.valid
    { held := written.stored region content
      bounded := written.bounded
      paid := fun record member => (paid record member).1 }
    (fun record member => (paid record member).2) (child_offset_positive built written)
    (by omega) (by rw [built.place, length_nil]; omega) built.place.symm
    (fun named => absurd unnamed named)
  rw [written.first, Nat.add_zero region.start] at read
  rw [parseTrie, if_neg nonempty, read]
  rfl

end

theorem payload_address_increasing (region : Region)
    (written : Written terminalBuffer start trieOffset trie)
    {left right : Nat × WriterEntry} (leftMember : left ∈ start.terminals)
    (rightMember : right ∈ start.terminals) (less : left.1 < right.1) :
    payloadAddress region trieOffset left < payloadAddress region trieOffset right := by
  obtain ⟨leftNamed, leftRecord, leftHere, leftIndex, leftEntry⟩ :=
    node_terminal_record left leftMember
  obtain ⟨_, rightRecord, rightHere, rightIndex, _⟩ := node_terminal_record right rightMember
  rw [← leftIndex, ← rightIndex] at less
  have behind := written.apart leftRecord leftHere rightRecord rightHere less
  have named : leftRecord.terminalEntry.name ≠ [] := by rwa [leftEntry]
  rw [Record.nodeSize, if_pos named, leftEntry] at behind
  unfold payloadAddress
  rw [← leftIndex, ← rightIndex]
  omega

section

variable (built : Built entries start count)
    (written : Written terminalBuffer start trieOffset trie)
    (paid : ∀ record ∈ start.records, record.Paid terminalBuffer ∧ record.Sized)

include built written paid

theorem parse_trie_exports {exports : List Export}
    (same : Forall₂ (EntryOf terminalBuffer) entries exports)
    (named : ∀ info ∈ exports, info.name ≠ [])
    (importClean : ∀ info ∈ exports, (0 : UInt8) ∉ info.importName)
    (notFull : ¬ start.Full) (short : ∀ info ∈ exports, info.name.length < 2 ^ 31)
    (content : region.bytes = trie) : ∃ parsed, parseTrie region = .ok parsed ∧
      Forall₂ (SameExport region) parsed exports := by
  obtain ⟨numbered, listed, order, increasing, _⟩ := built.terminals
  have exportOf : ∀ terminal ∈ start.terminals, ∃ info ∈ exports,
      EntryOf terminalBuffer terminal.2 info := by
    intro terminal member
    exact entry_has_export same _ ((built_names built terminal.2).mp ⟨terminal, member, rfl⟩)
  have reads : ∀ terminal ∈ start.terminals, ∀ info ∈ exports,
      EntryOf terminalBuffer terminal.2 info →
      readTerminal region terminal.2.name (payloadAddress region trieOffset terminal) =
        .ok { nodeOffset := payloadAddress region trieOffset terminal - region.start
              entry := readBack (payloadAddress region trieOffset terminal) info } := by
    intro terminal member info here entry
    have held := payload_held written content member
    rw [entry.2.2] at held
    rw [entry.1]
    exact read_terminal_export (named info here) held
  have found : ∀ terminal, ∃ entry, terminal ∈ start.terminals →
      readTerminal region terminal.2.name (payloadAddress region trieOffset terminal) =
        .ok entry := by
    intro terminal
    by_cases member : terminal ∈ start.terminals
    · obtain ⟨info, here, entry⟩ := exportOf terminal member
      exact ⟨_, fun _ => reads terminal member info here entry⟩
    · exact ⟨⟨0, readBack 0 { name := [] }⟩, fun present => absurd present member⟩
  choose entryAt entryRead using found
  have entryIs : ∀ terminal ∈ start.terminals, ∀ info ∈ exports,
      EntryOf terminalBuffer terminal.2 info →
      entryAt terminal = ⟨payloadAddress region trieOffset terminal - region.start,
        readBack (payloadAddress region trieOffset terminal) info⟩ := by
    intro terminal member info here entry
    have both := (entryRead terminal member).symm.trans (reads terminal member info here entry)
    exact Except.ok.inj both
  have read : start.read region trieOffset = .ok (start.terminals.map entryAt) := by
    rw [← node_visible_of_not_full notFull]
    apply node_read_short built.valid _ entryRead
    intro terminal member
    obtain ⟨info, here, entry⟩ := exportOf terminal member
    rw [entry.1]
    exact short info here
  have sorted : ((start.terminals.map entryAt).mergeSort
      fun left right => left.nodeOffset ≤ right.nodeOffset) = numbered.map entryAt := by
    apply Sorting.merge_sort_eq_of_increasing EntryWithOffset.nodeOffset (listed.map entryAt)
    rw [pairwise_map]
    refine increasing.imp_of_mem ?_
    intro left right leftMember rightMember less
    have leftHere := listed.mem_iff.mpr leftMember
    have rightHere := listed.mem_iff.mpr rightMember
    obtain ⟨leftInfo, leftExport, leftEntry⟩ := exportOf left leftHere
    obtain ⟨rightInfo, rightExport, rightEntry⟩ := exportOf right rightHere
    have ordered := payload_address_increasing region written leftHere rightHere less
    rw [entryIs left leftHere leftInfo leftExport leftEntry,
      entryIs right rightHere rightInfo rightExport rightEntry]
    have low : region.start ≤ payloadAddress region trieOffset left := by
      unfold payloadAddress
      omega
    dsimp only
    omega
  refine ⟨(numbered.map entryAt).map EntryWithOffset.entry, ?_, ?_⟩
  · rw [parse_trie_read built written paid content, read, ← sorted]
    rfl
  rw [map_map, forall₂_map_left_iff]
  rw [← order, forall₂_map_left_iff, forall₂_iff_zip] at same
  refine forall₂_iff_zip.mpr ⟨same.1, fun pair => ?_⟩
  have entry := same.2 pair
  have members := of_mem_zip pair
  have here := listed.mem_iff.mpr members.1
  have held := payload_held written content here
  rw [entry.2.2] at held
  rw [Function.comp_apply, entryIs _ here _ members.2 entry]
  exact read_back_same (named _ members.2) (importClean _ members.2) held

theorem parse_trie_loses_nothing {parsed : List Entry}
    (content : region.bytes = trie) (ran : parseTrie region = .ok parsed)
    (length : parsed.length = entries.length) :
    ¬ start.Full ∧ ∀ entry ∈ entries, entry.name.length < 2 ^ 31 := by
  rw [parse_trie_read built written paid content] at ran
  obtain ⟨found, read, rfl⟩ := map_ok ran
  have reached : start.cummulativeString.length < 2 ^ 31 := by
    rw [built.place]
    norm_num
  obtain ⟨seen, short⟩ := node_read_ok built.valid reached read
  rw [length_map, length_mergeSort, seen] at length
  obtain ⟨numbered, listed, order, _, _⟩ := built.terminals
  have all : start.terminals.length = entries.length := by
    rw [listed.length_eq, ← order, length_map]
  have notFull : ¬ start.Full := by
    intro full
    have fewer := node_visible_of_full built.valid full
    omega
  refine ⟨notFull, ?_⟩
  intro entry member
  obtain ⟨terminal, here, same⟩ := (built_names built entry).mpr member
  rw [node_visible_of_not_full notFull] at short
  rw [← same]
  exact short terminal here

end

end Written

/-- The names fill a node: this name comes after one of its extensions, and
every byte continues it to some name. -/
def FillsNode (names : List Bytes) (name : Bytes) : Prop :=
  AfterExtension names name ∧ ∀ byte : UInt8, byte ≠ 0 → ∃ longer ∈ names, name ++ [byte] <+: longer

theorem full_iff_fills_node {count : Nat} (built : Built entries start count) :
    start.Full ↔ ∃ name, FillsNode (entries.map WriterEntry.name) name := by
  have every_iff : ∀ name, EveryByteExtends start.terminals name ↔
      ∀ byte : UInt8, byte ≠ 0 →
        ∃ longer ∈ entries.map WriterEntry.name, name ++ [byte] <+: longer :=
    fun name => forall₂_congr fun byte _ => extended_iff_names built (name ++ [byte])
  constructor
  · intro full
    obtain ⟨name, empty, extended⟩ := node_full_extends built.valid full
    exact ⟨name, (built.emptyEdge name).mp empty, (every_iff name).mp extended⟩
  · rintro ⟨name, after, every⟩
    exact node_full_of_extends built.valid ((built.emptyEdge name).mpr after)
      ((every_iff name).mpr every)

theorem room_of_round_trip (exportable : Exportable exports) (roundTrip : RoundTrip exports) :
    (∀ name, ¬ FillsNode (exports.map Export.name) name) ∧
      ∀ info ∈ exports, info.name.length < 2 ^ 31 := by
  obtain ⟨start, count, trieOffset, trie, bytes, built, written, paid⟩ :=
    exports_trie_written exportable
  obtain ⟨other, otherBytes, parses⟩ := roundTrip
  cases bytes.symm.trans otherBytes
  have bound := written.short
  obtain ⟨parsed, ran, same⟩ := parses ⟨0, trie, by omega⟩ rfl
  have entries := well_formed_entries exportable.toWellFormed
  have length : parsed.length = (exportEntries [] exports).length := by
    rw [same.length_eq, entries.length_eq]
  obtain ⟨notFull, short⟩ := parse_trie_loses_nothing built written paid rfl ran length
  rw [full_iff_fills_node built, export_entries_names] at notFull
  constructor
  · exact fun name fills => notFull ⟨name, fills⟩
  intro info member
  have named : info.name ∈ (exportEntries [] exports).map WriterEntry.name := by
    rw [export_entries_names]
    exact mem_map_of_mem member
  obtain ⟨entry, here, name⟩ := List.mem_map.mp named
  rw [← name]
  exact short entry here

/-- The exports come back exactly when no name fills a node and the reader's
index reaches the end of every name. -/
theorem exports_trie_round_trip {exports : List Export} (exportable : Exportable exports) :
    RoundTrip exports ↔
      (∀ name, ¬ FillsNode (exports.map Export.name) name) ∧
        ∀ info ∈ exports, info.name.length < 2 ^ 31 := by
  refine ⟨room_of_round_trip exportable, fun ⟨noFullNode, short⟩ => ?_⟩
  obtain ⟨start, count, trieOffset, trie, bytes, built, written, paid⟩ :=
    exports_trie_written exportable
  have notFull : ¬ start.Full := by
    rw [full_iff_fills_node built, export_entries_names]
    intro full
    obtain ⟨name, fills⟩ := full
    exact noFullNode name fills
  refine ⟨trie, bytes, fun region content => ?_⟩
  exact parse_trie_exports built written paid (well_formed_entries exportable.toWellFormed)
    exportable.named exportable.importClean notFull short content

theorem exportable_of_small (bound stride : Nat) (distinct : (exports.map Export.name).Nodup)
    (strings : ∀ info ∈ exports,
      info.name ≠ [] ∧ (0 : UInt8) ∉ info.name ∧ (0 : UInt8) ∉ info.importName)
    (short : ∀ info ∈ exports, info.name.length ≤ bound ∧ info.terminal.length ≤ stride)
    (room : (1 + exports.length * (bound + 1)) * (stride + 7 + 256 * (bound + 6)) ≤ 2 ^ 32) :
    Exportable exports := by
  have payloads : (terminalBytes exports).length < 2 ^ 32 := by
    have limit := sum_le_card_nsmul (exports.map fun info => info.terminal.length) stride (by
      intro size member
      obtain ⟨info, here, rfl⟩ := List.mem_map.mp member
      exact (short info here).2)
    rw [length_map, smul_eq_mul] at limit
    rw [terminalBytes, length_flatten, map_map]
    refine lt_of_le_of_lt limit (lt_of_lt_of_le ?_ room)
    calc exports.length * stride ≤ exports.length * (bound + 1) * stride :=
          Nat.mul_le_mul_right _ (Nat.le_mul_of_pos_right _ (by omega))
      _ < (1 + exports.length * (bound + 1)) * (stride + 7 + 256 * (bound + 6)) :=
          Nat.mul_lt_mul'' (Nat.lt_add_of_pos_left Nat.one_pos) (by omega)
  have wellFormed : WellFormed exports :=
    { distinct := distinct
      named := fun info member => (strings info member).1
      clean := fun info member => (strings info member).2.1
      importClean := fun info member => (strings info member).2.2
      payloads := payloads }
  refine { toWellFormed := wellFormed, offsets := ?_ }
  intro start count spliced
  obtain ⟨other, otherCount, otherSpliced, built⟩ := export_entries_built wellFormed
  cases spliced.symm.trans otherSpliced
  have same := well_formed_entries wellFormed
  apply fits_of_small bound stride built
  · intro entry member
    obtain ⟨info, here, name, size, _⟩ := entry_has_export same entry member
    rw [name, size]
    exact short info here
  · rwa [same.length_eq]

def fullNodeExports : List Export :=
  ((List.range 255).map fun number => { name := [97, UInt8.ofNat (number + 1)] }) ++
    [{ name := [97] }]

theorem full_node_exports_names : fullNodeExports.map Export.name =
    ((range 255).map fun number => [97, UInt8.ofNat (number + 1)]) ++ [[97]] := by
  simp [fullNodeExports, Function.comp_def]

theorem plain_terminal {name : Bytes} (named : name ≠ []) :
    ({ name := name } : Export).terminal = [0, 0] := by
  have zero : Leb128.encode 0 = [0] := by
    rw [Leb128.encode]
    rfl
  have reexport : ({ name := name } : Export).isReexport = false := by simp [Export.isReexport]
  have resolver : ({ name := name } : Export).isStubAndResolver = false := by
    simp [Export.isStubAndResolver]
  simp [Export.terminal, named, reexport, resolver, zero]

theorem full_node_exports_exportable : Exportable fullNodeExports := by
  have members : ∀ info ∈ fullNodeExports, ∃ name : Bytes, info = { name := name } ∧
      (name = [97] ∨ ∃ number < 255, name = [97, UInt8.ofNat (number + 1)]) := by
    intro info member
    simp only [fullNodeExports, mem_append, mem_map, mem_range, mem_singleton] at member
    rcases member with ⟨number, bound, rfl⟩ | rfl
    · exact ⟨_, rfl, .inr ⟨number, bound, rfl⟩⟩
    · exact ⟨_, rfl, .inl rfl⟩
  have byte : ∀ number < 255, (UInt8.ofNat (number + 1)).toNat = number + 1 :=
    fun number bound => UInt8.toNat_ofNat_of_lt' (Nat.succ_lt_succ bound)
  have byte_ne : ∀ number < 255, (0 : UInt8) ≠ UInt8.ofNat (number + 1) := by
    intro number bound same
    have numbers := congrArg UInt8.toNat same
    rw [byte number bound] at numbers
    cases numbers
  apply exportable_of_small 2 2
  · rw [full_node_exports_names, nodup_append]
    refine ⟨nodup_range.map_on ?_, nodup_singleton _, by simp⟩
    intro left leftMember right rightMember same
    have numbers := congrArg (fun name => (name.getLastD 0).toNat) same
    simp only [getLastD_cons, getLastD_nil] at numbers
    rw [byte left (mem_range.mp leftMember), byte right (mem_range.mp rightMember)] at numbers
    omega
  · intro info member
    obtain ⟨name, rfl, rfl | ⟨number, bound, rfl⟩⟩ := members info member
    · decide
    · refine ⟨by simp, ?_, by simp⟩
      rw [mem_pair, not_or]
      exact ⟨by decide, byte_ne number bound⟩
  · intro info member
    obtain ⟨name, rfl, rfl | ⟨number, bound, rfl⟩⟩ := members info member
    · rw [plain_terminal (by simp)]
      decide
    · rw [plain_terminal (by simp)]
      simp
  · simp [fullNodeExports]

/-- These exports are lost: the node of `a` has 256 children. -/
theorem full_node_exports_lost : Exportable fullNodeExports ∧ ¬ RoundTrip fullNodeExports := by
  refine ⟨full_node_exports_exportable, ?_⟩
  intro roundTrip
  have room := (room_of_round_trip full_node_exports_exportable roundTrip).1
  apply room [97]
  rw [full_node_exports_names]
  constructor
  · exact ⟨_, [], rfl, [97, 1], List.mem_map.mpr ⟨0, by simp, rfl⟩, ⟨[1], rfl⟩⟩
  intro byte nonzero
  have bound := byte.toNat_lt
  have positive : byte.toNat ≠ 0 := fun zero => nonzero (UInt8.toNat_inj.mp zero)
  refine ⟨[97, byte], mem_append_left _ (List.mem_map.mpr ⟨byte.toNat - 1, ?_, ?_⟩), prefix_rfl⟩
  · exact mem_range.mpr (by omega)
  · rw [Nat.sub_add_cancel (by omega), UInt8.ofNat_toNat]

def mixedExports : List Export :=
  [{ name := [97], offset := 16 }, { name := [97, 98], offset := 300, flags := 0x10, other := 7 },
    { name := [99], flags := 0x08, other := 1, importName := [99] }]

theorem mixed_exports_round_trip : Exportable mixedExports ∧ RoundTrip mixedExports := by
  have exportable : Exportable mixedExports := by
    apply exportable_of_small 2 5
    · decide
    · decide
    · decide +kernel
    · decide
  refine ⟨exportable, (exports_trie_round_trip exportable).mpr ⟨?_, by decide⟩⟩
  intro name fills
  obtain ⟨longer, member, within⟩ := fills.2 1 (by decide)
  have absent : ∀ longer ∈ mixedExports.map Export.name, (1 : UInt8) ∉ longer := by decide
  exact absent longer member (within.subset (mem_append_right _ mem_cons_self))

end DeveloperTools.Ld64.ExportsTrie
