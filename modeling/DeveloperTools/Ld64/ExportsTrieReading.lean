import DeveloperTools.Ld64.ExportsTrieLayout
import DeveloperTools.Ld64.MachOTrie

/-!
`processExportNode` on the bytes of a tree does what `Node.read` does on the
tree itself. Of the edges of a node it sees as many as the count byte says, and
it leaves the defined behaviour at a name its `int` index cannot reach.
-/

namespace DeveloperTools.Ld64.ExportsTrie

open Memory

open MachOTrie
open List

def payloadAddress (region : Region) (trieOffset : Nat → Nat) (terminal : Nat × WriterEntry) :
    Nat :=
  region.start + trieOffset terminal.1 + Leb128.size terminal.2.strideSize

mutual

def Node.read (region : Region) (trieOffset : Nat → Nat) :
    Node → Except Fault (List EntryWithOffset)
  | .mk index cummulativeString terminalEntry children => do
    let own ← (if terminalEntry.name ≠ [] then
        (readTerminal region cummulativeString
          (payloadAddress region trieOffset (index, terminalEntry))).map fun entry => [entry]
      else .ok [])
    let below ← children.read region trieOffset cummulativeString (children.labels.length % 256)
    .ok (own ++ below)

/-- The first edges of a node, as many as the count says. -/
def Edges.read (region : Region) (trieOffset : Nat → Nat) (cummulativeString : Bytes) :
    Edges → Nat → Except Fault (List EntryWithOffset)
  | .nil, _ => .ok []
  | .cons _ _ _, 0 => .ok []
  | .cons label child rest, count + 1 =>
    if cummulativeString.length + label.length < 2 ^ 31 then do
      let below ← child.read region trieOffset
      let later ← rest.read region trieOffset cummulativeString count
      .ok (below ++ later)
    else .error .undefinedBehavior

end

mutual

def Node.weight : Node → Nat
  | .mk _ _ _ children => children.weight

def Edges.weight : Edges → Nat
  | .nil => 0
  | .cons label child rest => label.length + child.weight + rest.weight

end

mutual

theorem node_weight_le (trieOffset : Nat → Nat) (node : Node) :
    node.weight + 2 * node.indices.length ≤
      (node.records.map fun record => record.nodeSize trieOffset).sum := by
  match node with
  | .mk index cummulativeString terminalEntry children =>
    have below := edges_weight_le trieOffset children
    have positive := Leb128.size_positive terminalEntry.strideSize
    simp only [Node.weight, Node.indices, Node.records, length_cons, map_cons, sum_cons]
    rw [Record.nodeSize]
    split <;> simp only <;> omega

theorem edges_weight_le (trieOffset : Nat → Nat) (edges : Edges) :
    edges.weight + 2 * edges.indices.length ≤
      (edges.targets.map fun edge => edge.1.length + 1 + Leb128.size (trieOffset edge.2)).sum +
        (edges.records.map fun record => record.nodeSize trieOffset).sum := by
  match edges with
  | .nil => simp [Edges.weight, Edges.indices]
  | .cons label child rest =>
    have first := node_weight_le trieOffset child
    have later := edges_weight_le trieOffset rest
    simp only [Edges.weight, Edges.indices, Edges.targets, Edges.records, length_append,
      map_cons, map_append, sum_cons, sum_append]
    omega

end

structure Laid (region : Region) (terminalBuffer : Bytes) (trieOffset : Nat → Nat)
    (records : List Record) : Prop where
  held : ∀ record ∈ records, region.Holds (region.start + trieOffset record.index)
    (record.appendToStream terminalBuffer trieOffset)
  bounded : ∀ record ∈ records, trieOffset record.index < 2 ^ 32
  paid : ∀ record ∈ records, record.Paid terminalBuffer

variable {trieOffset : Nat → Nat} {terminalBuffer : Bytes} {region : Region}

theorem Laid.mono {records fewer : List Record}
    (laid : Laid region terminalBuffer trieOffset records)
    (among : ∀ record ∈ fewer, record ∈ records) : Laid region terminalBuffer trieOffset fewer where
  held record member := laid.held record (among record member)
  bounded record member := laid.bounded record (among record member)
  paid record member := laid.paid record (among record member)

theorem read_node_head {record : Record} {p : Nat} (paid : record.Paid terminalBuffer)
    (sized : record.Sized)
    (held : region.Holds p (record.appendToStream terminalBuffer trieOffset)) :
    ∃ terminalSize p₁, readUleb128 region p = .ok (terminalSize, p₁) ∧
      (terminalSize ≠ 0 ↔ record.terminalEntry.name ≠ []) ∧
      (record.terminalEntry.name ≠ [] → p₁ = p + Leb128.size record.terminalEntry.strideSize) ∧
      region.Holds (p₁ + terminalSize) (UInt8.ofNat record.children.length ::
        (record.children.map fun edge =>
          appendString edge.1 ++ Leb128.encode (trieOffset edge.2)).flatten) := by
  rw [Record.appendToStream, Region.holds_append] at held
  by_cases named : record.terminalEntry.name ≠ []
  · rw [if_pos named, Region.holds_append] at held
    have value := (sized named).2
    refine ⟨record.terminalEntry.strideSize, _, read_uleb_encode held.1.1 (by omega), ?_, ?_, ?_⟩
    · exact ⟨fun _ => named, fun _ => (sized named).1⟩
    · exact fun _ => rfl
    · have content := held.2
      rw [length_append, Leb128.encode_size, paid, ← Nat.add_assoc] at content
      exact content
  · rw [if_neg named] at held
    have zero : region.Holds p (Leb128.encode 0) := by
      rw [Leb128.encode]
      exact held.1
    refine ⟨0, _, read_uleb_encode zero (by norm_num), ?_, ?_, ?_⟩
    · exact ⟨fun absent => absurd rfl absent, fun present => absurd present named⟩
    · exact fun present => absurd present named
    · have size : Leb128.size 0 = 1 := by rw [Leb128.size]; rfl
      rw [size]
      exact held.2

theorem process_children_read {region : Region} {trieOffset : Nat → Nat}
    (recurse : Nat → Bytes → Except Fault (List EntryWithOffset)) (count : Nat)
    {cummulativeString : Bytes} {edges : Edges} {s : Nat} (few : count ≤ edges.labels.length)
    (valid : edges.Valid cummulativeString)
    (held : region.Holds s (edges.targets.map fun edge =>
      appendString edge.1 ++ Leb128.encode (trieOffset edge.2)).flatten)
    (room : cummulativeString.length + edges.weight < region.bytes.length)
    (placed : ∀ record ∈ edges.records,
      0 < trieOffset record.index ∧ trieOffset record.index < 2 ^ 32 ∧
        region.start + trieOffset record.index < 2 ^ 64)
    (below : ∀ label child, (label, child) ∈ edges.toList →
      recurse (region.start + trieOffset child.index) (cummulativeString ++ label) =
        child.read region trieOffset) : processChildren region recurse cummulativeString count s =
      edges.read region trieOffset cummulativeString count := by
  match edges, count with
  | .nil, 0 => rfl
  | .cons _ _ _, 0 => rfl
  | .cons label child rest, count + 1 =>
    obtain ⟨place, clean, _, _, childValid, _, restValid⟩ := valid
    have shape : ∀ remainder : Bytes,
        (appendString label ++ Leb128.encode (trieOffset child.index)) ++ remainder =
          label ++ 0 :: (Leb128.encode (trieOffset child.index) ++ remainder) := by
      intro remainder
      simp [appendString]
    rw [Edges.targets, map_cons, flatten_cons, shape] at held
    have text := Region.cstring_of_holds clean held
    have offsetHeld : region.Holds (s + label.length + 1)
        (Leb128.encode (trieOffset child.index) ++ (rest.targets.map fun edge =>
          appendString edge.1 ++ Leb128.encode (trieOffset edge.2)).flatten) := by
      have content : region.Holds (s + label.length) ([0] ++ (_ ++ _)) :=
        (Region.holds_append.mp held).2
      exact (Region.holds_append.mp content).2
    have childRecord : ∃ record ∈ child.records, record.index = child.index := by
      cases child with
      | mk _ _ _ _ => exact ⟨_, mem_cons_self, rfl⟩
    obtain ⟨record, member, named⟩ := childRecord
    have bounds := placed record (mem_append_left _ member)
    rw [named] at bounds
    have offsetRead := read_uleb_encode (Region.holds_append.mp offsetHeld).1 (by omega)
    have mod32 : trieOffset child.index % 2 ^ 32 = trieOffset child.index :=
      Nat.mod_eq_of_lt bounds.2.1
    have mod64 : (region.start + trieOffset child.index) % 2 ^ 64 =
        region.start + trieOffset child.index := Nat.mod_eq_of_lt bounds.2.2
    have inside : cummulativeString.length + label.length < region.bytes.length := by
      simp only [Edges.weight] at room
      omega
    have later := process_children_read recurse count
      (by simpa [Edges.labels] using few) restValid (Region.holds_append.mp offsetHeld).2
      (by simp only [Edges.weight] at room; omega)
      (fun record member => placed record (mem_append_right _ member))
      (fun label child member => below label child (.tail _ member))
    rw [Leb128.encode_size] at later
    by_cases reach : cummulativeString.length + label.length < 2 ^ 31
    · simp only [processChildren, readEdge, text, inside, reach, and_self, if_true, bind,
        Except.bind, offsetRead, mod32, mod64, bounds.1.ne', if_false, later,
        below label child mem_cons_self, Edges.read]
    · simp only [processChildren, readEdge, text, reach, and_false, if_false, bind, Except.bind,
        Edges.read]

theorem edges_child {cummulativeString label : Bytes} {child : Node} {edges : Edges}
    (valid : edges.Valid cummulativeString) (member : (label, child) ∈ edges.toList) :
    child.Valid ∧ child.cummulativeString = cummulativeString ++ label ∧
      (∀ record ∈ child.records, record ∈ edges.records) ∧
      child.indices.length ≤ edges.indices.length ∧
      label.length + child.weight ≤ edges.weight := by
  match edges with
  | .nil => cases member
  | .cons first node rest =>
    obtain ⟨place, _, _, _, nodeValid, _, restValid⟩ := valid
    rcases mem_cons.mp member with same | later
    · cases same
      refine ⟨nodeValid, place, fun record => mem_append_left _, ?_, ?_⟩
      · simp [Edges.indices]
      · simp only [Edges.weight]
        omega
    · obtain ⟨childValid, childPlace, among, fewer, lighter⟩ := edges_child restValid later
      refine ⟨childValid, childPlace, fun record here => mem_append_right _ (among record here),
        ?_, ?_⟩
      · simp only [Edges.indices, length_append]
        omega
      · simp only [Edges.weight]
        omega

/-- On the bytes of a written tree the reader does what it does on the tree. -/
theorem process_node_read (fuel : Nat) : ∀ (node : Node) (name : Option Bytes), node.Valid →
      Laid region terminalBuffer trieOffset node.records →
      (∀ record ∈ node.records, record.Sized) →
      (∀ record ∈ node.children.records, 0 < trieOffset record.index) →
      node.indices.length ≤ fuel →
      node.cummulativeString.length + node.weight < region.bytes.length →
      name.getD [] = node.cummulativeString →
      (node.terminalEntry.name ≠ [] → name = some node.cummulativeString) →
      processExportNode region fuel (region.start + trieOffset node.index) name =
        node.read region trieOffset := by
  induction fuel with
  | zero =>
    intro node name _ _ _ _ enough
    cases node with
    | mk _ _ _ _ => simp [Node.indices] at enough
  | succ fuel ih =>
    intro node name valid laid sized positive enough room spelled known
    match node with
    | .mk index cummulativeString terminalEntry children =>
      have own : (⟨index, terminalEntry, children.targets⟩ : Record) ∈
          (Node.mk index cummulativeString terminalEntry children).records :=
        mem_cons_self
      have below : ∀ record ∈ children.records, record ∈
          (Node.mk index cummulativeString terminalEntry children).records :=
        fun record member => .tail _ member
      have held := laid.held _ own
      have paid := laid.paid _ own
      obtain ⟨terminalSize, p₁, sizeRead, terminal, payload, content⟩ :=
        read_node_head paid (sized _ own) held
      have whole := Region.holds_length held (by simp [Record.appendToStream])
      rw [append_to_stream_length trieOffset paid] at whole
      have large := two_le_node_size trieOffset ⟨index, terminalEntry, children.targets⟩
      have notPast : ¬ region.finish ≤ region.start + trieOffset index := by
        dsimp only at whole
        omega
      have countByte := load_byte_of_holds content
      have atCount := Region.holds_length content (by simp)
      have finishFits : region.finish < 2 ^ 64 := region.fits
      have notWrapped : (p₁ + terminalSize) % 2 ^ 64 = p₁ + terminalSize :=
        Nat.mod_eq_of_lt (by omega)
      have notBeyond : ¬ region.finish < p₁ + terminalSize := by omega
      have count : (UInt8.ofNat children.targets.length).toNat = children.labels.length % 256 := by
        rw [targets_length]
        exact UInt8.toNat_ofNat' 
      have loop := process_children_read
        (fun child edge => processExportNode region fuel child (some edge))
        (children.labels.length % 256) (Nat.mod_le _ _) valid.2
        (Region.holds_append.mp (show region.Holds _ ([_] ++ _) from content)).2 room
        (fun record member => by
          have bounded := laid.bounded record (below record member)
          have stored := Region.holds_length (laid.held record (below record member))
            (by simp [Record.appendToStream])
          exact ⟨positive record member, bounded, by omega⟩)
        (fun label child member => by
          obtain ⟨childValid, place, among, fewer, lighter⟩ := edges_child valid.2 member
          rw [← place]
          refine ih child _ childValid
            (laid.mono fun record here => below record (among record here))
            (fun record here => sized record (below record (among record here)))
            ?_ ?_ ?_ rfl (fun _ => rfl)
          · intro record here
            cases child with
            | mk _ _ _ _ => exact positive record (among record (.tail _ here))
          · simp only [Node.indices, length_cons] at enough
            omega
          · simp only [Node.weight, Node.cummulativeString] at room
            rw [place, length_append]
            omega)
      rw [length_singleton] at loop
      change processExportNode region (fuel + 1) (region.start + trieOffset index) name = _
      change name.getD [] = cummulativeString at spelled
      simp only [processExportNode, if_neg notPast, sizeRead, bind, Except.bind, notWrapped,
        if_neg notBeyond, countByte, count, spelled, loop, Node.read]
      by_cases named : terminalEntry.name ≠ []
      · have address : p₁ = payloadAddress region trieOffset (index, terminalEntry) := payload named
        rw [if_pos (terminal.mpr named), if_pos named, known named, address]
        rfl
      · rw [if_neg (fun present => named (terminal.mp present)), if_neg named]

end DeveloperTools.Ld64.ExportsTrie
