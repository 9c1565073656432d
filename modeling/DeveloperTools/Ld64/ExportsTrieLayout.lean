import DeveloperTools.Lib.Memory
import DeveloperTools.Lib.OrderedMap
import DeveloperTools.Ld64.ExportsTrieFullNodes

/-!
`updateOffset` runs until nothing moves. If some layout of the nodes fits in
32-bit offsets, it stops at a layout, the assertion of the stream loop holds at
every node, and the bytes of each node lie at its offset.
-/

namespace DeveloperTools.Ld64.ExportsTrie

open Memory

open OffsetAssignment
open List

theorem targets_length (edges : Edges) : edges.targets.length = edges.labels.length := by
  match edges with
  | .nil => rfl
  | .cons label child rest =>
    simp only [Edges.targets, Edges.labels, length_cons, targets_length rest]

mutual

theorem node_record_indices (node : Node) : node.records.map Record.index = node.indices := by
  match node with
  | .mk index spelled terminalEntry children =>
    simp only [Node.records, Node.indices, map_cons, edges_record_indices children]

theorem edges_record_indices (edges : Edges) : edges.records.map Record.index = edges.indices := by
  match edges with
  | .nil => rfl
  | .cons label child rest =>
    simp only [Edges.records, Edges.indices, map_append, node_record_indices child,
      edges_record_indices rest]

end

theorem all_nodes_perm (start : Node) : (allNodes start).Perm start.records := mergeSort_perm _ _

variable {entries : List WriterEntry}

variable {count : Nat} {start : Node}

theorem Built.distinct (built : Built entries start count) : start.indices.Nodup :=
  built.indices.nodup_iff.mpr nodup_range

theorem all_nodes_distinct (distinct : start.indices.Nodup) :
    ((allNodes start).map Record.index).Nodup := by
  rwa [((all_nodes_perm start).map Record.index).nodup_iff, node_record_indices]

mutual

theorem node_child_index {node : Node} :
    ∀ record ∈ node.records, ∀ edge ∈ record.children, edge.2 ∈ node.indices := by
  match node with
  | .mk index spelled terminalEntry children =>
    intro record member edge here
    obtain ⟨targets, deeper⟩ := @edges_child_index children
    rcases mem_cons.mp member with rfl | later
    · exact .tail _ (targets edge here)
    · exact .tail _ (deeper record later edge here)

theorem edges_child_index {edges : Edges} : (∀ edge ∈ edges.targets, edge.2 ∈ edges.indices) ∧
      ∀ record ∈ edges.records, ∀ edge ∈ record.children, edge.2 ∈ edges.indices := by
  match edges with
  | .nil => simp [Edges.targets, Edges.records]
  | .cons label child rest =>
    obtain ⟨targets, later⟩ := @edges_child_index rest
    constructor
    · intro edge member
      rcases mem_cons.mp member with rfl | behind
      · cases child with
        | mk _ _ _ _ => exact mem_cons_self
      · exact mem_append_right _ (targets edge behind)
    · intro record member edge among
      rcases mem_append.mp member with here | behind
      · exact mem_append_left _ (node_child_index record here edge among)
      · exact mem_append_right _ (later record behind edge among)

end

mutual

theorem node_record_terminal {node : Node} (valid : node.Valid) : ∀ record ∈ node.records,
      record.terminalEntry = {} ∨ (record.index, record.terminalEntry) ∈ node.terminals := by
  match node with
  | .mk index spelled terminalEntry children =>
    intro record member
    rcases mem_cons.mp member with rfl | below
    · rcases valid.1 with absent | present
      · exact .inl absent
      refine .inr (mem_append_left _ ?_)
      have named : terminalEntry.name ≠ [] := by
        rw [present.1]
        exact present.2
      simp [ownTerminal, named]
    · exact (edges_record_terminal valid.2 record below).imp_right (mem_append_right _)

theorem edges_record_terminal {spelled : Bytes} {edges : Edges}
    (valid : edges.Valid spelled) : ∀ record ∈ edges.records,
      record.terminalEntry = {} ∨ (record.index, record.terminalEntry) ∈ edges.terminals := by
  match edges with
  | .nil =>
    intro record member
    cases member
  | .cons label child rest =>
    intro record member
    obtain ⟨_, _, _, _, childValid, _, restValid⟩ := valid
    rcases mem_append.mp member with below | later
    · exact (node_record_terminal childValid record below).imp_right (mem_append_left _)
    · exact (edges_record_terminal restValid record later).imp_right (mem_append_right _)

end

mutual

theorem node_terminal_record {node : Node} : ∀ terminal ∈ node.terminals, terminal.2.name ≠ [] ∧
      ∃ record ∈ node.records, record.index = terminal.1 ∧ record.terminalEntry = terminal.2 := by
  match node with
  | .mk index spelled terminalEntry children =>
    intro terminal member
    rcases mem_append.mp member with own | below
    · unfold ownTerminal at own
      split at own
      next named =>
        rw [mem_singleton.mp own]
        exact ⟨named, _, mem_cons_self, rfl, rfl⟩
      · cases own
    · obtain ⟨named, record, here, facts⟩ := edges_terminal_record terminal below
      exact ⟨named, record, .tail _ here, facts⟩

theorem edges_terminal_record {edges : Edges} : ∀ terminal ∈ edges.terminals, terminal.2.name ≠ [] ∧
      ∃ record ∈ edges.records, record.index = terminal.1 ∧ record.terminalEntry = terminal.2 := by
  match edges with
  | .nil =>
    intro terminal member
    cases member
  | .cons label child rest =>
    intro terminal member
    rcases mem_append.mp member with below | later
    · obtain ⟨named, record, here, facts⟩ := node_terminal_record terminal below
      exact ⟨named, record, mem_append_left _ here, facts⟩
    · obtain ⟨named, record, here, facts⟩ := edges_terminal_record terminal later
      exact ⟨named, record, mem_append_right _ here, facts⟩

end

theorem node_size_monotone (node : Record) :
    Monotone fun trieOffset => node.nodeSize trieOffset := by
  intro lower upper below
  apply Nat.add_le_add_left
  apply sum_le_sum
  intro edge _
  exact Nat.add_le_add_left (Leb128.size_monotone (below edge.2)) _

theorem two_le_node_size (trieOffset : Nat → Nat) (node : Record) :
    2 ≤ node.nodeSize trieOffset := by
  have positive := Leb128.size_positive node.terminalEntry.strideSize
  unfold Record.nodeSize
  split <;> omega

/-- The buffer holds the whole payload of the node. -/
def Record.Paid (terminalBuffer : Bytes) (node : Record) : Prop :=
  (node.terminalEntry.payload terminalBuffer).length = node.terminalEntry.strideSize

/-- A terminal node has a payload, of a size that fits in 32 bits. -/
def Record.Sized (node : Record) : Prop :=
  node.terminalEntry.name ≠ [] →
    node.terminalEntry.strideSize ≠ 0 ∧ node.terminalEntry.strideSize < 2 ^ 32

variable {terminalBuffer : Bytes}

theorem append_to_stream_length (trieOffset : Nat → Nat) {node : Record}
    (paid : node.Paid terminalBuffer) :
    (node.appendToStream terminalBuffer trieOffset).length = node.nodeSize trieOffset := by
  have edges : (node.children.map fun edge =>
      appendString edge.1 ++ Leb128.encode (trieOffset edge.2)).flatten.length =
      (node.children.map fun edge => edge.1.length + 1 + Leb128.size (trieOffset edge.2)).sum := by
    rw [length_flatten, map_map]
    congr 1
    apply map_congr_left
    intro edge _
    simp only [Function.comp_apply, appendString, length_append, length_singleton,
      Leb128.encode_size]
  rw [Record.appendToStream, Record.nodeSize, length_append, length_cons, edges]
  split
  · rw [length_append, Leb128.encode_size, paid]
    omega
  · rw [length_singleton]
    omega

def streamOf (terminalBuffer : Bytes) (trieOffset : Nat → Nat) (nodes : List Record) : Bytes :=
  (nodes.map (Record.appendToStream terminalBuffer trieOffset)).flatten

variable {trieOffset : Nat → Nat}

variable {nodes : List Record} {finish : Nat} {trieBytes : Bytes}

section

variable (paid : ∀ node ∈ nodes, node.Paid terminalBuffer)
include paid

theorem create_stream_of_layout
    (layout : IsLayout Record.index Record.nodeSize trieOffset trieBytes.length nodes finish) :
    createStream terminalBuffer trieOffset nodes trieBytes =
      some (trieBytes ++ streamOf terminalBuffer trieOffset nodes) := by
  induction nodes generalizing trieBytes with
  | nil => simp [createStream, streamOf]
  | cons node rest ih =>
    have length := append_to_stream_length trieOffset (paid node mem_cons_self)
    rw [createStream, if_pos layout.1]
    rw [ih]
    · simp [streamOf]
    · exact fun later member => paid later (.tail _ member)
    · rw [length_append, length]
      exact layout.2

theorem stream_at {start : Nat} (padding : Bytes)
    (layout : IsLayout Record.index Record.nodeSize trieOffset start nodes finish) :
    ∀ node ∈ nodes, node.appendToStream terminalBuffer trieOffset <+:
      (streamOf terminalBuffer trieOffset nodes ++ padding).drop
        (trieOffset node.index - start) := by
  induction nodes generalizing start with
  | nil => simp
  | cons first rest ih =>
    intro node member
    rcases mem_cons.mp member with rfl | later
    · rw [layout.1, Nat.sub_self, drop_zero, streamOf, map_cons, flatten_cons, append_assoc]
      exact prefix_append _ _
    have length := append_to_stream_length trieOffset (paid first mem_cons_self)
    have behind := (spacing_item_within (layout_is_spacing layout.2) node later).1
    have stored := ih (fun later member => paid later (.tail _ member)) layout.2 node later
    have skipped : trieOffset node.index - start =
        (first.appendToStream terminalBuffer trieOffset).length +
          (trieOffset node.index - (start + first.nodeSize trieOffset)) := by omega
    rw [skipped, streamOf, map_cons, flatten_cons, append_assoc, drop_length_add_append]
    exact stored

theorem stream_length : (streamOf terminalBuffer trieOffset nodes).length =
      (nodes.map fun node => node.nodeSize trieOffset).sum := by
  rw [streamOf, length_flatten, map_map]
  congr 1
  apply map_congr_left
  intro node member
  exact append_to_stream_length trieOffset (paid node member)

end

/-- The nodes fit in 32-bit offsets: some layout of them ends there. -/
def FitsOffsets (start : Node) : Prop :=
  ∃ trieOffset finish,
    IsLayout Record.index Record.nodeSize trieOffset 0 (allNodes start) finish ∧ finish ≤ 2 ^ 32

structure Written (terminalBuffer : Bytes) (start : Node) (trieOffset : Nat → Nat)
    (trie : Bytes) : Prop where
  stored : ∀ region : Region, region.bytes = trie → ∀ record ∈ start.records,
    region.Holds (region.start + trieOffset record.index)
      (record.appendToStream terminalBuffer trieOffset)
  apart : ∀ left ∈ start.records, ∀ right ∈ start.records, left.index < right.index →
    trieOffset left.index + left.nodeSize trieOffset ≤ trieOffset right.index
  first : trieOffset start.index = 0
  bounded : ∀ record ∈ start.records, trieOffset record.index < 2 ^ 32
  size : (start.records.map fun record => record.nodeSize trieOffset).sum ≤ trie.length
  short : trie.length < 2 ^ 33

/-- The nodes can lie one behind the other in 32-bit offsets, with room for the bytes of each. -/
def HasRoom (start : Node) : Prop :=
  ∃ trieOffset finish,
    IsSpacing Record.index Record.nodeSize trieOffset 0 (allNodes start) finish ∧ finish ≤ 2 ^ 32

theorem settle_offsets_layout (distinct : start.indices.Nodup) (room : HasRoom start) :
    ∃ trieOffset finish, settleOffsets (allNodes start) = some trieOffset ∧
      IsLayout Record.index Record.nodeSize trieOffset 0 (allNodes start) finish ∧
      finish ≤ 2 ^ 32 := by
  obtain ⟨target, finish, spacing, bound⟩ := room
  have offsetsFit : ∀ node ∈ allNodes start, target node.index < 2 ^ 32 := by
    intro node member
    have within := spacing_item_within spacing node member
    have positive := two_le_node_size target node
    omega
  obtain ⟨settled, reached, ran, found, below, _⟩ := settle_reaches_layout node_size_monotone
    (all_nodes_distinct distinct) spacing offsetsFit
  exact ⟨settled, reached, ran, found, below.trans bound⟩

/-- The offsets that are read behind the labels of a node. -/
def readEdges : List Bytes → Bytes → Option (List Nat)
  | [], _ => some []
  | label :: labels, bytes =>
    if appendString label <+: bytes then do
      let (offset, rest) ← Leb128.decode (bytes.drop (label.length + 1))
      let offsets ← readEdges labels rest
      some (offset :: offsets)
    else none

/-- The offsets of the children of a node: its terminal information is skipped, and the number of
children. -/
def readNode (labels : List Bytes) (bytes : Bytes) : Option (List Nat) := do
  let (size, rest) ← Leb128.decode bytes
  readEdges labels (rest.drop (size + 1))

theorem read_edges_written (edges : List (Bytes × Nat)) (rest : Bytes) :
    readEdges (edges.map Prod.fst)
        ((edges.map fun edge => appendString edge.1 ++ Leb128.encode (trieOffset edge.2)).flatten ++
          rest) = some (edges.map fun edge => trieOffset edge.2) := by
  induction edges with
  | nil => rfl
  | cons edge edges ih =>
    have label : (appendString edge.1).length = edge.1.length + 1 := by simp [appendString]
    rw [map_cons, map_cons, flatten_cons, append_assoc, append_assoc, readEdges,
      if_pos (prefix_append _ _), ← label, drop_left, Leb128.decode_encode]
    simp only [Option.bind_eq_bind, Option.bind_some, ih, map_cons]

theorem read_node_written {node : Record} (paid : node.Paid terminalBuffer) (rest : Bytes) :
    readNode (node.children.map Prod.fst) (node.appendToStream terminalBuffer trieOffset ++ rest) =
      some (node.children.map fun edge => trieOffset edge.2) := by
  unfold readNode Record.appendToStream
  split
  · rw [append_assoc, append_assoc, Leb128.decode_encode, Option.bind_eq_bind, Option.bind_some,
      ← paid]
    dsimp only
    rw [drop_length_add_append]
    exact read_edges_written node.children rest
  · exact read_edges_written node.children rest

/-- Whatever the tree, the offsets settle if there is room for the nodes at all. Each node is then
written where its offset says, and the offset that is read behind a label is the place of the bytes
of the child. -/
theorem offsets_settle (distinct : start.indices.Nodup) (room : HasRoom start)
    (paid : ∀ node ∈ start.records, node.Paid terminalBuffer) :
    ∃ trieOffset trieBytes, settleOffsets (allNodes start) = some trieOffset ∧
      createStream terminalBuffer trieOffset (allNodes start) [] = some trieBytes ∧
      ∀ node ∈ allNodes start,
        node.appendToStream terminalBuffer trieOffset <+: trieBytes.drop (trieOffset node.index) ∧
        ∃ offsets,
          readNode (node.children.map Prod.fst) (trieBytes.drop (trieOffset node.index)) =
              some offsets ∧
          Forall₂ (fun edge offset => ∃ child ∈ allNodes start, child.index = edge.2 ∧
            offset = trieOffset child.index ∧
            child.appendToStream terminalBuffer trieOffset <+: trieBytes.drop offset)
            node.children offsets := by
  obtain ⟨trieOffset, finish, settled, layout, _⟩ := settle_offsets_layout distinct room
  have same := all_nodes_perm start
  have sized : ∀ node ∈ allNodes start, node.Paid terminalBuffer :=
    fun node member => paid node (same.mem_iff.mp member)
  have stored := stream_at sized [] layout
  rw [append_nil] at stored
  refine ⟨trieOffset, _, settled, create_stream_of_layout sized layout, ?_⟩
  intro node member
  obtain ⟨rest, isStored⟩ := stored node member
  refine ⟨stored node member, node.children.map fun edge => trieOffset edge.2, ?_, ?_⟩
  · rw [nil_append, ← Nat.sub_zero (trieOffset node.index), ← isStored]
    exact read_node_written (sized node member) rest
  · refine forall₂_map_right_iff.mpr (forall₂_same.mpr fun edge among => ?_)
    have target := node_child_index node (same.mem_iff.mp member) edge among
    rw [← node_record_indices, mem_map] at target
    obtain ⟨child, within, index⟩ := target
    have listed := same.mem_iff.mpr within
    exact ⟨child, listed, index, congrArg trieOffset index.symm, index ▸ stored child listed⟩

/-- The names "_a" and "_b". -/
def twoNames : Node :=
  .mk 0 [] {} (.cons [95] (.mk 1 [95] {}
    (.cons [97] (.mk 2 [95, 97] { name := [95, 97], strideSize := 2 } .nil)
    (.cons [98] (.mk 3 [95, 98] { name := [95, 98], strideSize := 2 } .nil) .nil))) .nil)

theorem two_names_settle : ∃ trieOffset trieBytes,
    settleOffsets (allNodes twoNames) = some trieOffset ∧
      createStream [0, 0] trieOffset (allNodes twoNames) [] = some trieBytes ∧
      readNode [[95]] (trieBytes.drop (trieOffset 0)) = some [trieOffset 1] ∧
      readNode [[97], [98]] (trieBytes.drop (trieOffset 1)) = some [trieOffset 2, trieOffset 3] := by
  have sorted : allNodes twoNames = twoNames.records :=
    mergeSort_of_pairwise (by simp [twoNames, Node.records, Edges.records])
  have room : HasRoom twoNames := by
    refine ⟨(10 * ·), 34, ?_, by decide⟩
    have small (value : Nat) (less : value < 128) : Leb128.size value ≤ 1 :=
      Leb128.size_le_of_lt (by decide) less
    have := small 10 (by decide)
    have := small 20 (by decide)
    have := small 30 (by decide)
    have := small 2 (by decide)
    rw [sorted]
    simp [twoNames, Node.records, Node.index, Edges.records, Edges.targets, IsSpacing,
      Record.nodeSize]
    omega
  have paid : ∀ node ∈ twoNames.records, node.Paid [0, 0] := by
    simp [twoNames, Node.records, Edges.records, Record.Paid, WriterEntry.payload]
  obtain ⟨trieOffset, trieBytes, settled, created, leads⟩ := offsets_settle (by decide) room paid
  rw [sorted] at leads
  refine ⟨trieOffset, trieBytes, settled, created, ?_, ?_⟩
  · obtain ⟨_, offsets, isRead, places⟩ := leads ⟨0, {}, [([95], 1)]⟩ (by decide)
    cases places with
    | cons here rest =>
      cases rest
      obtain ⟨_, _, index, rfl, _⟩ := here
      rwa [index] at isRead
  · obtain ⟨_, offsets, isRead, places⟩ := leads ⟨1, {}, [([97], 2), ([98], 3)]⟩ (by decide)
    cases places with
    | cons here rest =>
      cases rest with
      | cons next rest =>
        cases rest
        obtain ⟨_, _, index, rfl, _⟩ := here
        obtain ⟨_, _, other, rfl, _⟩ := next
        rwa [index, other] at isRead

theorem start_offset (index : start.index = 0)
    (layout : IsLayout Record.index Record.nodeSize trieOffset 0 (allNodes start) finish)
    (apart : ∀ left ∈ start.records, ∀ right ∈ start.records, left.index < right.index →
      trieOffset left.index + left.nodeSize trieOffset ≤ trieOffset right.index) :
    trieOffset start.index = 0 := by
  have same := all_nodes_perm start
  have own : ∃ record ∈ start.records, record.index = start.index := by
    cases start with
    | mk _ _ _ _ => exact ⟨_, mem_cons_self, rfl⟩
  obtain ⟨record, member, named⟩ := own
  cases nodes : allNodes start with
  | nil =>
    rw [← same.mem_iff, nodes] at member
    cases member
  | cons front rest =>
    rw [nodes] at layout
    have place := layout.1
    have frontMember : front ∈ start.records := by
      rw [← same.mem_iff, nodes]
      exact mem_cons_self
    rcases Nat.eq_zero_or_pos front.index with zero | positive
    · rwa [zero.trans index.symm] at place
    · have clear := apart record member front frontMember (by omega)
      have large := two_le_node_size trieOffset record
      omega

theorem build_trie_bytes_of_stages (spliced : spliceAll entries = .ok (start, count))
    (settled : settleOffsets (allNodes start) = some trieOffset)
    (streamed : createStream terminalBuffer trieOffset (allNodes start) [] = some trieBytes) :
    buildTrieBytes terminalBuffer entries = .bytes (padToEight trieBytes) := by
  unfold buildTrieBytes
  rw [spliced]
  dsimp only
  rw [settled]
  dsimp only
  rw [streamed]

theorem build_trie_bytes_written (built : Built entries start count)
    (spliced : spliceAll entries = .ok (start, count)) (fits : FitsOffsets start)
    (paid : ∀ node ∈ start.records, node.Paid terminalBuffer) :
    ∃ trieOffset trie, buildTrieBytes terminalBuffer entries = .bytes trie ∧
      Written terminalBuffer start trieOffset trie := by
  obtain ⟨_, _, fitting, below⟩ := fits
  obtain ⟨trieOffset, finish, settled, layout, bound⟩ := settle_offsets_layout built.distinct
    ⟨_, _, layout_is_spacing fitting, below⟩
  have same := all_nodes_perm start
  have nodesPaid : ∀ node ∈ allNodes start, node.Paid terminalBuffer :=
    fun node member => paid node (same.mem_iff.mp member)
  have streamed : createStream terminalBuffer trieOffset (allNodes start) [] =
      some (streamOf terminalBuffer trieOffset (allNodes start)) :=
    create_stream_of_layout nodesPaid layout
  have length : (streamOf terminalBuffer trieOffset (allNodes start)).length =
      (start.records.map fun record => record.nodeSize trieOffset).sum := by
    rw [stream_length nodesPaid]
    exact (same.map _).sum_eq
  have total : 0 + ((allNodes start).map (Record.nodeSize trieOffset)).sum = finish :=
    layout_finish layout
  have apart : ∀ left ∈ start.records, ∀ right ∈ start.records, left.index < right.index →
      trieOffset left.index + left.nodeSize trieOffset ≤ trieOffset right.index := by
    intro left leftMember right rightMember less
    exact Sorting.pairwise_of_key_lt Record.index (Sorting.merge_sort_by_key _ _)
      (layout_pairwise layout) (same.mem_iff.mpr leftMember) (same.mem_iff.mpr rightMember) less
  refine ⟨trieOffset, padToEight (streamOf terminalBuffer trieOffset (allNodes start)), ?_, ?_⟩
  · exact build_trie_bytes_of_stages spliced settled streamed
  refine
    { stored := ?_
      apart := apart
      first := start_offset built.index layout apart
      bounded := ?_
      size := ?_
      short := ?_ }
  · intro region content record member
    constructor
    · omega
    · rw [content, padToEight, Nat.add_sub_cancel_left]
      exact stream_at nodesPaid _ layout record (same.mem_iff.mpr member)
  · intro record member
    have within := spacing_item_within (layout_is_spacing layout) record (same.mem_iff.mpr member)
    have positive := two_le_node_size trieOffset record
    omega
  · rw [padToEight, length_append, length]
    omega
  · rw [Nat.zero_add, ← stream_length nodesPaid] at total
    rw [padToEight, length_append, length_replicate, total]
    omega

mutual

theorem node_record_children {node : Node} {bound : Nat} (valid : node.Valid)
    (short : ∀ terminal ∈ node.terminals, terminal.2.name.length ≤ bound) :
    ∀ record ∈ node.records, record.children.length ≤ 256 ∧
      ∀ edge ∈ record.children, edge.1.length ≤ bound := by
  match node with
  | .mk index spelled terminalEntry children =>
    have below : ∀ terminal ∈ children.terminals, terminal.2.name.length ≤ bound :=
      fun terminal member => short terminal (mem_append_right _ member)
    obtain ⟨targets, deeper⟩ := edges_record_children valid.2 below
    intro record member
    rcases mem_cons.mp member with rfl | later
    · refine ⟨?_, targets⟩
      rw [targets_length]
      exact labels_length_le valid.2
    · exact deeper record later

theorem edges_record_children {spelled : Bytes} {edges : Edges} {bound : Nat}
    (valid : edges.Valid spelled)
    (short : ∀ terminal ∈ edges.terminals, terminal.2.name.length ≤ bound) :
    (∀ edge ∈ edges.targets, edge.1.length ≤ bound) ∧
      ∀ record ∈ edges.records, record.children.length ≤ 256 ∧
        ∀ edge ∈ record.children, edge.1.length ≤ bound := by
  match edges with
  | .nil => simp [Edges.targets, Edges.records]
  | .cons label child rest =>
    obtain ⟨terminal, reached, within⟩ := edges_have_terminal valid mem_cons_self
    have length := within.length_le
    rw [length_append] at length
    have limit := short terminal reached
    obtain ⟨_, _, _, _, childValid, _, restValid⟩ := valid
    have first := node_record_children childValid
      fun terminal member => short terminal (mem_append_left _ member)
    obtain ⟨targets, later⟩ := edges_record_children restValid
      fun terminal member => short terminal (mem_append_right _ member)
    constructor
    · intro edge member
      rcases mem_cons.mp member with rfl | behind
      · dsimp only
        omega
      · exact targets edge behind
    · intro record member
      rcases mem_append.mp member with here | behind
      · exact first record here
      · exact later record behind

end

theorem node_size_le {record : Record} {bound stride : Nat} (few : record.children.length ≤ 256)
    (short : ∀ edge ∈ record.children, edge.1.length ≤ bound ∧ trieOffset edge.2 < 2 ^ 32)
    (payload : record.terminalEntry.strideSize ≤ stride) (strideFits : stride < 2 ^ 32) :
    record.nodeSize trieOffset ≤ stride + 7 + 256 * (bound + 6) := by
  have edges : (record.children.map fun edge =>
      edge.1.length + 1 + Leb128.size (trieOffset edge.2)).sum ≤ 256 * (bound + 6) := by
    have limit := sum_le_card_nsmul (record.children.map fun edge =>
        edge.1.length + 1 + Leb128.size (trieOffset edge.2)) (bound + 6) (by
      intro size member
      obtain ⟨edge, here, rfl⟩ := List.mem_map.mp member
      have facts := short edge here
      have five : Leb128.size (trieOffset edge.2) ≤ 5 :=
        Leb128.size_le_of_lt (by norm_num) (by omega)
      omega)
    rw [length_map, smul_eq_mul] at limit
    exact limit.trans (Nat.mul_le_mul_right _ few)
  have five : Leb128.size record.terminalEntry.strideSize ≤ 5 :=
    Leb128.size_le_of_lt (by norm_num) (by omega)
  unfold Record.nodeSize
  split <;> omega

theorem fits_of_small (bound stride : Nat) (built : Built entries start count)
    (short : ∀ entry ∈ entries, entry.name.length ≤ bound ∧ entry.strideSize ≤ stride)
    (room : (1 + entries.length * (bound + 1)) * (stride + 7 + 256 * (bound + 6)) ≤ 2 ^ 32) :
    FitsOffsets start := by
  generalize cellSize : stride + 7 + 256 * (bound + 6) = cell at room
  have same := all_nodes_perm start
  have indexBelow : ∀ index ∈ start.indices, index < count :=
    fun index member => mem_range.mp (built.indices.mem_iff.mp member)
  have counted : count ≤ 1 + entries.length * (bound + 1) := by
    have limit := sum_le_card_nsmul (entries.map fun entry => entry.name.length + 1)
      (bound + 1) (by
        intro size member
        obtain ⟨entry, here, rfl⟩ := List.mem_map.mp member
        have length := (short entry here).1
        omega)
    rw [length_map, smul_eq_mul] at limit
    have before := built.counted
    omega
  have whole : count * cell ≤ 2 ^ 32 := (Nat.mul_le_mul_right cell counted).trans room
  have oneCell : cell ≤ 2 ^ 32 := (Nat.le_mul_of_pos_left cell (by omega)).trans room
  have names : ∀ terminal ∈ start.terminals, terminal.2.name.length ≤ bound :=
    fun terminal member =>
      (short terminal.2 ((built_names built terminal.2).mp ⟨terminal, member, rfl⟩)).1
  have small : ∀ record ∈ allNodes start, record.nodeSize (fun index => index * cell) ≤ cell := by
    intro record member
    have here := same.mem_iff.mp member
    have edges := node_record_children built.valid names record here
    have payload : record.terminalEntry.strideSize ≤ stride := by
      rcases node_record_terminal built.valid record here with absent | present
      · rw [absent]
        exact Nat.zero_le _
      · exact (short _ ((built_names built record.terminalEntry).mp ⟨_, present, rfl⟩)).2
    rw [← cellSize]
    refine node_size_le edges.1 (fun edge among => ⟨edges.2 edge among, ?_⟩) payload (by omega)
    have below := Nat.mul_lt_mul_of_pos_right
      (indexBelow edge.2 (node_child_index record here edge among)) (by omega : 0 < cell)
    rw [cellSize]
    omega
  have bounded : ∀ record ∈ allNodes start, record.index < count := by
    intro record member
    apply indexBelow
    rw [← node_record_indices]
    exact mem_map_of_mem (same.mem_iff.mp member)
  have ordered : (allNodes start).Pairwise fun left right => left.index < right.index := by
    have sorted := Sorting.merge_sort_by_key Record.index start.records
    have apart := pairwise_map.mp (all_nodes_distinct built.distinct)
    exact (sorted.and apart).imp fun both => lt_of_le_of_ne both.1 both.2
  have spacing := spacing_of_cells ordered small bounded (Nat.zero_le _) (fun _ _ => Nat.zero_le _)
  obtain ⟨settled, reached, _, layout, below⟩ :=
    settle_offsets_layout built.distinct ⟨_, _, spacing, whole⟩
  exact ⟨settled, reached, layout, below⟩

end DeveloperTools.Ld64.ExportsTrie
