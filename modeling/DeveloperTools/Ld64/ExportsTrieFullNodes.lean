import DeveloperTools.Ld64.ExportsTrieShape

/-!
The number of children of a node is written in one byte. A node has at most one
edge for each byte and an empty edge counts as the byte zero, so a node with an
edge for each of the 255 bytes a name can continue with and an empty edge has a
count of zero, and everything below it is gone. Such a node exists exactly when
a name that all 255 bytes extend was added after one of its extensions.
-/

namespace DeveloperTools.Ld64.ExportsTrie

open List

mutual

def Node.visible : Node → List (Nat × WriterEntry)
  | .mk index _ terminalEntry children =>
    ownTerminal index terminalEntry ++ children.visible (children.labels.length % 256)

def Edges.visible : Edges → Nat → List (Nat × WriterEntry)
  | .nil, _ => []
  | .cons _ _ _, 0 => []
  | .cons _ child rest, count + 1 => child.visible ++ rest.visible count

end

mutual

/-- Some node has an edge for every first byte, so its count byte wraps. -/
def Node.Full : Node → Prop
  | .mk _ _ _ children => 256 ≤ children.labels.length ∨ children.Full

def Edges.Full : Edges → Prop
  | .nil => False
  | .cons _ child rest => child.Full ∨ rest.Full

end

mutual

theorem node_visible_of_not_full {node : Node} (notFull : ¬ node.Full) :
    node.visible = node.terminals := by
  match node with
  | .mk index cummulativeString terminalEntry children =>
    simp only [Node.Full, not_or, not_le] at notFull
    rw [Node.visible, Node.terminals, Nat.mod_eq_of_lt notFull.1,
      edges_visible_of_not_full notFull.2]

theorem edges_visible_of_not_full {edges : Edges} (notFull : ¬ edges.Full) :
    edges.visible edges.labels.length = edges.terminals := by
  match edges with
  | .nil => rfl
  | .cons label child rest =>
    simp only [Edges.Full, not_or] at notFull
    simp only [Edges.labels, length_cons, Edges.visible, Edges.terminals,
      node_visible_of_not_full notFull.1, edges_visible_of_not_full notFull.2]

end

mutual

theorem node_visible_length_le (node : Node) : node.visible.length ≤ node.terminals.length := by
  match node with
  | .mk index cummulativeString terminalEntry children =>
    have below := edges_visible_length_le children (children.labels.length % 256)
    simp only [Node.visible, Node.terminals, length_append]
    omega

theorem edges_visible_length_le (edges : Edges) (count : Nat) :
    (edges.visible count).length ≤ edges.terminals.length := by
  match edges, count with
  | .nil, _ => exact le_rfl
  | .cons _ _ _, 0 => exact Nat.zero_le _
  | .cons label child rest, count + 1 =>
    have first := node_visible_length_le child
    have later := edges_visible_length_le rest count
    simp only [Edges.visible, Edges.terminals, length_append]
    omega

end

theorem first_chars_nodup {cummulativeString : Bytes} {edges : Edges}
    (valid : edges.Valid cummulativeString) : edges.firstChars.Nodup := by
  cases edges with
  | nil => exact nodup_nil
  | cons label child rest =>
    obtain ⟨_, _, _, _, _, apart, restValid⟩ := valid
    exact nodup_cons.mpr ⟨apart, first_chars_nodup restValid⟩

variable {cummulativeString : Bytes} {edges : Edges}

theorem first_chars_subperm (valid : edges.Valid cummulativeString) :
    (edges.firstChars.map UInt8.toNat).Subperm (range 256) := by
  apply List.Nodup.subperm
  · exact (first_chars_nodup valid).map fun _ _ => UInt8.toNat_inj.mp
  · intro number member
    obtain ⟨byte, _, rfl⟩ := List.mem_map.mp member
    exact mem_range.mpr byte.toNat_lt

theorem labels_length_le (valid : edges.Valid cummulativeString) : edges.labels.length ≤ 256 := by
  have bound := (first_chars_subperm valid).length_le
  simpa [Edges.firstChars] using bound

/-- A node has at most one edge for each byte, so 256 edges use all of them. -/
theorem full_iff_every_byte (valid : edges.Valid cummulativeString) :
    256 ≤ edges.labels.length ↔ ∀ byte, byte ∈ edges.firstChars := by
  constructor
  · intro full byte
    have all := (first_chars_subperm valid).perm_of_length_le (by simpa [Edges.firstChars])
    have present := all.mem_iff.mpr (mem_range.mpr byte.toNat_lt)
    obtain ⟨other, member, same⟩ := List.mem_map.mp present
    rwa [← UInt8.toNat_inj.mp same]
  · intro every
    have covered : range 256 ⊆ edges.firstChars.map UInt8.toNat := by
      intro number member
      refine List.mem_map.mpr ⟨UInt8.ofNat number, every _, ?_⟩
      exact UInt8.toNat_ofNat_of_lt' (mem_range.mp member)
    have bound := (nodup_range.subperm covered).length_le
    simpa [Edges.firstChars] using bound

theorem labels_clean {cummulativeString : Bytes} {edges : Edges}
    (valid : edges.Valid cummulativeString) : ∀ label ∈ edges.labels, (0 : UInt8) ∉ label := by
  cases edges with
  | nil => simp [Edges.labels]
  | cons first child rest =>
    obtain ⟨_, clean, _, _, _, _, restValid⟩ := valid
    exact forall_mem_cons.mpr ⟨clean, labels_clean restValid⟩

theorem edges_have_terminal {cummulativeString label : Bytes} {edges : Edges}
    (valid : edges.Valid cummulativeString) (member : label ∈ edges.labels) :
    Extended edges.terminals (cummulativeString ++ label) := by
  match edges with
  | .nil => cases member
  | .cons first child rest =>
    obtain ⟨place, _, _, inhabited, childValid, _, restValid⟩ := valid
    rcases mem_cons.mp member with rfl | later
    · obtain ⟨terminal, below⟩ := inhabited_has_terminal childValid inhabited
      have within := node_terminals_extend childValid terminal below
      rw [place] at within
      exact ⟨terminal, mem_append_left _ below, within⟩
    · obtain ⟨terminal, below, within⟩ := edges_have_terminal restValid later
      exact ⟨terminal, mem_append_right _ below, within⟩

mutual

theorem node_visible_of_full {node : Node} (valid : node.Valid) (full : node.Full) :
    node.visible.length < node.terminals.length := by
  match node with
  | .mk index cummulativeString terminalEntry children =>
    simp only [Node.visible, Node.terminals, length_append]
    apply Nat.add_lt_add_left
    by_cases here : 256 ≤ children.labels.length
    · have count : children.labels.length = 256 := le_antisymm (labels_length_le valid.2) here
      cases children with
      | nil => cases count
      | cons label child rest =>
        obtain ⟨terminal, member, _⟩ := edges_have_terminal valid.2 mem_cons_self
        rw [count, Nat.mod_self, Edges.visible]
        exact length_pos_of_mem member
    · rw [Nat.mod_eq_of_lt (by omega)]
      exact edges_visible_of_full valid.2 (full.resolve_left here)

theorem edges_visible_of_full {cummulativeString : Bytes} {edges : Edges}
    (valid : edges.Valid cummulativeString) (full : edges.Full) :
    (edges.visible edges.labels.length).length < edges.terminals.length := by
  match edges with
  | .nil => exact full.elim
  | .cons label child rest =>
    obtain ⟨_, _, _, _, childValid, _, restValid⟩ := valid
    have first := node_visible_length_le child
    have later := edges_visible_length_le rest rest.labels.length
    simp only [Edges.labels, length_cons, Edges.visible, Edges.terminals, length_append]
    rcases full with here | below
    · have fewer := node_visible_of_full childValid here
      omega
    · have fewer := edges_visible_of_full restValid below
      omega

end

mutual

theorem node_empty_edge_within {node : Node} {name : Bytes} (valid : node.Valid)
    (empty : node.EmptyEdge name) : node.cummulativeString <+: name := by
  match node with
  | .mk index cummulativeString terminalEntry children =>
    rcases empty with ⟨rfl, _⟩ | below
    · exact prefix_rfl
    · obtain ⟨label, _, within⟩ := edges_empty_edge_within valid.2 below
      exact (prefix_append _ _).trans within

theorem edges_empty_edge_within {cummulativeString name : Bytes} {edges : Edges}
    (valid : edges.Valid cummulativeString) (empty : edges.EmptyEdge name) :
    ∃ label, (label ≠ [] ∧ label ∈ edges.labels) ∧ cummulativeString ++ label <+: name := by
  match edges with
  | .nil => exact empty.elim
  | .cons label child rest =>
    obtain ⟨place, _, leaf, _, childValid, _, restValid⟩ := valid
    rcases empty with here | later
    · have within := node_empty_edge_within childValid here
      rw [place] at within
      refine ⟨label, ⟨?_, mem_cons_self⟩, within⟩
      intro bare
      cases child with
      | mk _ _ _ children =>
        have childless : children = .nil := (leaf bare).2
        subst childless
        simp [Node.EmptyEdge, Edges.EmptyEdge, Edges.labels] at here
    · obtain ⟨other, ⟨nonempty, member⟩, within⟩ := edges_empty_edge_within restValid later
      exact ⟨other, ⟨nonempty, .tail _ member⟩, within⟩

end

/-- Below a name that some node has an empty edge at, every byte goes on. -/
def EveryByteExtends (terminals : List (Nat × WriterEntry)) (name : Bytes) : Prop :=
  ∀ byte : UInt8, byte ≠ 0 → Extended terminals (name ++ [byte])

mutual

theorem node_full_extends {node : Node} (valid : node.Valid) (full : node.Full) :
    ∃ name, node.EmptyEdge name ∧ EveryByteExtends node.terminals name := by
  match node with
  | .mk index cummulativeString terminalEntry children =>
    rcases full with here | below
    · have every := (full_iff_every_byte valid.2).mp here
      have labelOf : ∀ byte, ∃ label ∈ children.labels, firstChar label = byte :=
        fun byte => List.mem_map.mp (every byte)
      refine ⟨cummulativeString, .inl ⟨rfl, ?_⟩, ?_⟩
      · obtain ⟨label, member, first⟩ := labelOf 0
        by_cases bare : label = []
        · rwa [bare] at member
        · exact absurd first (first_char_ne_zero (labels_clean valid.2 label member) bare)
      intro byte nonzero
      obtain ⟨label, member, first⟩ := labelOf byte
      obtain ⟨terminal, below, within⟩ := edges_have_terminal valid.2 member
      refine ⟨terminal, mem_append_right _ below, List.IsPrefix.trans ?_ within⟩
      cases label with
      | nil => exact absurd first.symm nonzero
      | cons head label =>
        change head = byte at first
        simp [first, prefix_append_right_inj]
    · obtain ⟨name, empty, extended⟩ := edges_full_extends valid.2 below
      refine ⟨name, .inr empty, ?_⟩
      intro byte nonzero
      obtain ⟨terminal, member, within⟩ := extended byte nonzero
      exact ⟨terminal, mem_append_right _ member, within⟩

theorem edges_full_extends {cummulativeString : Bytes} {edges : Edges}
    (valid : edges.Valid cummulativeString) (full : edges.Full) :
    ∃ name, edges.EmptyEdge name ∧ EveryByteExtends edges.terminals name := by
  match edges with
  | .nil => exact full.elim
  | .cons label child rest =>
    obtain ⟨_, _, _, _, childValid, _, restValid⟩ := valid
    rcases full with here | later
    · obtain ⟨name, empty, extended⟩ := node_full_extends childValid here
      refine ⟨name, .inl empty, ?_⟩
      intro byte nonzero
      obtain ⟨terminal, member, within⟩ := extended byte nonzero
      exact ⟨terminal, mem_append_left _ member, within⟩
    · obtain ⟨name, empty, extended⟩ := edges_full_extends restValid later
      refine ⟨name, .inr empty, ?_⟩
      intro byte nonzero
      obtain ⟨terminal, member, within⟩ := extended byte nonzero
      exact ⟨terminal, mem_append_right _ member, within⟩

end

mutual

theorem node_full_of_extends {node : Node} {name : Bytes} (valid : node.Valid)
    (empty : node.EmptyEdge name) (extended : EveryByteExtends node.terminals name) :
    node.Full := by
  match node with
  | .mk index cummulativeString terminalEntry children =>
    rcases empty with ⟨rfl, bare⟩ | below
    · refine .inl ((full_iff_every_byte valid.2).mpr ?_)
      intro byte
      by_cases zero : byte = 0
      · subst zero
        exact List.mem_map.mpr ⟨[], bare, rfl⟩
      have past := (extended_past_own valid.1 (cons_ne_nil byte [])).mp (extended byte zero)
      obtain ⟨terminal, member, within⟩ := past
      exact edge_first_char valid.2 (cons_ne_nil byte []) member within
    · refine .inr (edges_full_of_extends valid.2 below ?_)
      intro byte nonzero
      obtain ⟨label, ⟨nonempty, _⟩, rest, whole⟩ := edges_empty_edge_within valid.2 below
      have apart : name ++ [byte] = cummulativeString ++ (label ++ rest ++ [byte]) := by
        rw [← whole]
        simp
      have reached := extended byte nonzero
      rw [apart] at reached ⊢
      exact (extended_past_own valid.1 (by simp)).mp reached

theorem edges_full_of_extends {cummulativeString name : Bytes} {edges : Edges}
    (valid : edges.Valid cummulativeString) (empty : edges.EmptyEdge name)
    (extended : EveryByteExtends edges.terminals name) : edges.Full := by
  match edges with
  | .nil => exact empty.elim
  | .cons label child rest =>
    have whole := valid
    obtain ⟨place, clean, leaf, inhabited, childValid, apart, restValid⟩ := valid
    rcases empty with here | later
    · have single : (Edges.cons label child .nil).Valid cummulativeString :=
        ⟨place, clean, leaf, inhabited, childValid, by simp [Edges.firstChars, Edges.labels],
          trivial⟩
      obtain ⟨other, ⟨nonempty, member⟩, behind, rfl⟩ :=
        edges_empty_edge_within single (Or.inl here)
      obtain rfl : other = label := mem_singleton.mp member
      refine .inl (node_full_of_extends childValid here ?_)
      intro byte nonzero
      have reached := extended byte nonzero
      rw [append_assoc, append_assoc] at reached ⊢
      exact (extended_below_edge whole (by simp) (first_char_append nonempty _).symm).mp reached
    · obtain ⟨other, ⟨nonempty, member⟩, behind, rfl⟩ := edges_empty_edge_within restValid later
      have different : firstChar label ≠ firstChar other := by
        intro same
        rw [same] at apart
        exact apart (mem_map_of_mem member)
      refine .inr (edges_full_of_extends restValid later ?_)
      intro byte nonzero
      have reached := extended byte nonzero
      rw [append_assoc, append_assoc] at reached ⊢
      refine (extended_past_edge whole (by simp) ?_).mp reached
      rwa [first_char_append nonempty]

end

end DeveloperTools.Ld64.ExportsTrie
