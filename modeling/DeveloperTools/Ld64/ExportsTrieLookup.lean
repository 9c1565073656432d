import DeveloperTools.Lib.CString
import DeveloperTools.Ld64.ExportsTrieRoundTrip

/-!
A reader that looks for one name follows, at each node, the first edge whose
label is a prefix of the rest of the name. It finds the right node when no label
of a node is a prefix of another, which an empty edge next to another edge
breaks. Names in `strcmp` order never come after a name that extends them, so
they leave no empty edges.
-/

namespace DeveloperTools.Ld64.ExportsTrie

open List

variable {names : List Bytes}

theorem names_distinct (increasing : names.Pairwise StrcmpLess) :
    names.Nodup := by
  apply increasing.imp
  intro left right less same
  apply not_strcmp_less_front right []
  rw [append_nil]
  rwa [same] at less

theorem not_after_extension (increasing : names.Pairwise StrcmpLess) (name : Bytes) :
    ¬ AfterExtension names name := by
  rintro ⟨earlier, later, rfl, longer, member, rest, rfl⟩
  have less := (pairwise_append.mp increasing).2.2 _ member name mem_cons_self
  exact not_strcmp_less_front name rest less

mutual

/-- The walk: done when the name is used up at a terminal node, else on along
the first edge whose label the rest of the name starts with. -/
def Node.walk : Node → Bytes → Option WriterEntry
  | .mk _ _ terminalEntry children, rest =>
    if rest = [] ∧ terminalEntry.name ≠ [] then some terminalEntry
    else children.walk rest

def Edges.walk : Edges → Bytes → Option WriterEntry
  | .nil, _ => none
  | .cons label child more, rest =>
    if label.isPrefixOf rest then child.walk (rest.drop label.length) else more.walk rest

end

def NamedAmong (terminals : List (Nat × WriterEntry)) (name : Bytes) (entry : WriterEntry) : Prop :=
  (∃ index, (index, entry) ∈ terminals) ∧ entry.name = name

variable {first second : List (Nat × WriterEntry)}

theorem named_among_append {name : Bytes}
    (absent : ∀ terminal ∈ first, terminal.2.name ≠ name) (entry : WriterEntry) :
    NamedAmong (first ++ second) name entry ↔ NamedAmong second name entry := by
  constructor
  · intro found
    obtain ⟨⟨index, member⟩, named⟩ := found
    rcases mem_append.mp member with here | there
    · exact absurd named (absent _ here)
    · exact ⟨⟨index, there⟩, named⟩
  · intro found
    obtain ⟨⟨index, member⟩, named⟩ := found
    exact ⟨⟨index, mem_append_right _ member⟩, named⟩

theorem named_among_comm (name : Bytes)
    (entry : WriterEntry) :
    NamedAmong (first ++ second) name entry ↔ NamedAmong (second ++ first) name entry := by
  unfold NamedAmong
  simp only [mem_append, or_comm]

mutual

theorem node_walk_iff {node : Node} (valid : node.Valid) (noEmpty : ∀ name, ¬ node.EmptyEdge name)
    (rest : Bytes) (entry : WriterEntry) : node.walk rest = some entry ↔
      NamedAmong node.terminals (node.cummulativeString ++ rest) entry := by
  match node with
  | .mk index spelled terminalEntry children =>
    have nonempty : [] ∉ children.labels := fun bare => noEmpty spelled (.inl ⟨rfl, bare⟩)
    have below := edges_walk_iff valid.2 nonempty (fun name empty => noEmpty name (.inr empty))
      rest entry
    rw [Node.walk, Node.terminals, Node.cummulativeString]
    by_cases ends : rest = [] ∧ terminalEntry.name ≠ []
    · rw [if_pos ends, ends.1, append_nil, named_among_comm, named_among_append]
      · have own : (index, terminalEntry) ∈ ownTerminal index terminalEntry := by
          simp [ownTerminal, ends.2]
        have name := (own_terminal_name valid.1 own).2
        constructor
        · intro same
          cases same
          exact ⟨⟨index, own⟩, name⟩
        intro found
        obtain ⟨⟨other, member⟩, _⟩ := found
        have same := (own_terminal_name valid.1 member).1
        cases same
        rfl
      · intro terminal member named
        obtain ⟨label, present, within, _⟩ := edges_terminals_extend valid.2 terminal member
        have length := within.length_le
        rw [named, length_append] at length
        have bare : label = [] := length_eq_zero_iff.mp (by omega)
        rw [bare] at present
        exact nonempty present
    · rw [if_neg ends, below, named_among_append]
      intro terminal member named
      obtain ⟨same, name⟩ := own_terminal_name valid.1 member
      rw [same] at named
      have used := append_right_eq_self.mp (named.symm.trans name)
      refine ends ⟨used, fun unnamed => ?_⟩
      rw [ownTerminal, if_neg (not_not.mpr unnamed)] at member
      cases member

theorem edges_walk_iff {spelled : Bytes} {edges : Edges}
    (valid : edges.Valid spelled) (nonempty : [] ∉ edges.labels)
    (noEmpty : ∀ name, ¬ edges.EmptyEdge name) (rest : Bytes) (entry : WriterEntry) :
    edges.walk rest = some entry ↔ NamedAmong edges.terminals (spelled ++ rest) entry := by
  match edges with
  | .nil => simp [Edges.walk, NamedAmong, Edges.terminals]
  | .cons label child more =>
    obtain ⟨place, _, _, _, childValid, apart, moreValid⟩ := valid
    rw [Edges.labels, mem_cons, not_or] at nonempty
    rw [Edges.walk, Edges.terminals]
    by_cases follows : label <+: rest
    · obtain ⟨behind, split⟩ := follows
      subst split
      have below := node_walk_iff childValid (fun name empty => noEmpty name (.inl empty)) behind
        entry
      rw [if_pos (List.isPrefixOf_iff_prefix.mpr (prefix_append _ _)), drop_left,
        below, place, append_assoc, named_among_comm, named_among_append]
      intro terminal member named
      apply apart
      apply edge_first_char moreValid (Ne.symm nonempty.1) member
      rw [named, ← append_assoc]
      exact prefix_append _ _
    · have later := edges_walk_iff moreValid nonempty.2
        (fun name empty => noEmpty name (.inr empty)) rest entry
      rw [if_neg (by rwa [ isPrefixOf_iff_prefix]), later, named_among_append]
      intro terminal member named
      have within := node_terminals_extend childValid terminal member
      rw [place, named, prefix_append_right_inj] at within
      exact follows within

end

/-- No label of a node is a prefix of the label of another edge of it. -/
def PrefixFree (record : Record) : Prop :=
  (record.children.map Prod.fst).Pairwise fun left right => ¬ left <+: right ∧ ¬ right <+: left

theorem targets_labels (edges : Edges) : edges.targets.map Prod.fst = edges.labels := by
  cases edges with
  | nil => rfl
  | cons label child rest =>
    rw [Edges.targets, map_cons, Edges.labels, targets_labels rest]

theorem first_char_of_within {left right : Bytes} (nonempty : left ≠ []) (within : left <+: right) :
    firstChar left = firstChar right := by
  obtain ⟨rest, rfl⟩ := within
  exact (first_char_append nonempty rest).symm

section

variable {spelled : Bytes} {edges : Edges} (valid : edges.Valid spelled)
    (nonempty : [] ∉ edges.labels)

include valid nonempty

theorem labels_prefix_free :
    edges.labels.Pairwise fun left right => ¬ left <+: right ∧ ¬ right <+: left := by
  have apart := pairwise_map.mp (first_chars_nodup valid)
  refine apart.imp_of_mem ?_
  intro left right leftMember rightMember different
  have leftNonempty : left ≠ [] := fun bare => nonempty (bare ▸ leftMember)
  have rightNonempty : right ≠ [] := fun bare => nonempty (bare ▸ rightMember)
  constructor
  · exact fun within => different (first_char_of_within leftNonempty within)
  · exact fun within => different (first_char_of_within rightNonempty within).symm

theorem labels_length_lt : edges.labels.length ≤ 255 := by
  by_contra many
  have every := (full_iff_every_byte valid).mp (by omega)
  obtain ⟨label, member, zero⟩ := List.mem_map.mp (every 0)
  have bare : label ≠ [] := fun bare => nonempty (bare ▸ member)
  exact first_char_ne_zero (labels_clean valid label member) bare zero

end

mutual

theorem node_prefix_free {node : Node} (valid : node.Valid)
    (noEmpty : ∀ name, ¬ node.EmptyEdge name) :
    ∀ record ∈ node.records, PrefixFree record ∧ record.children.length ≤ 255 := by
  match node with
  | .mk index spelled terminalEntry children =>
    have nonempty : [] ∉ children.labels := fun bare => noEmpty spelled (.inl ⟨rfl, bare⟩)
    intro record member
    rcases mem_cons.mp member with rfl | below
    · constructor
      · rw [PrefixFree, targets_labels]
        exact labels_prefix_free valid.2 nonempty
      · rw [targets_length]
        exact labels_length_lt valid.2 nonempty
    · exact edges_prefix_free valid.2 (fun name empty => noEmpty name (.inr empty)) record below

theorem edges_prefix_free {spelled : Bytes} {edges : Edges}
    (valid : edges.Valid spelled) (noEmpty : ∀ name, ¬ edges.EmptyEdge name) :
    ∀ record ∈ edges.records, PrefixFree record ∧ record.children.length ≤ 255 := by
  match edges with
  | .nil =>
    intro record member
    cases member
  | .cons label child more =>
    obtain ⟨_, _, _, _, childValid, _, moreValid⟩ := valid
    intro record member
    rcases mem_append.mp member with below | later
    · exact node_prefix_free childValid (fun name empty => noEmpty name (.inl empty)) record below
    · exact edges_prefix_free moreValid (fun name empty => noEmpty name (.inr empty)) record later

end

/-- The exports give a trie without ambiguous edges in which the walk finds the
entry of every exported name and nothing else. -/
def GreedyLookup (exports : List Export) : Prop :=
  ∃ start count, spliceAll (exportEntries [] exports) = .ok (start, count) ∧
    (∀ node ∈ allNodes start, PrefixFree node ∧ node.children.length ≤ 255) ∧
    (∀ entry ∈ exportEntries [] exports, start.walk entry.name = some entry) ∧
    ∀ name, name ∉ exports.map Export.name → start.walk name = none

theorem greedy_lookup_of_increasing {exports : List Export}
    (named : ∀ info ∈ exports, info.name ≠ []) (clean : ∀ info ∈ exports, (0 : UInt8) ∉ info.name)
    (increasing : (exports.map Export.name).Pairwise StrcmpLess) : GreedyLookup exports := by
  have names := export_entries_names [] exports
  have exported : ∀ entry ∈ exportEntries [] exports, ∃ info ∈ exports, info.name = entry.name := by
    intro entry member
    apply List.mem_map.mp
    rw [← names]
    exact List.mem_map_of_mem member
  have writable : ∀ entry ∈ exportEntries [] exports, Writable entry := by
    intro entry member
    obtain ⟨info, here, same⟩ := exported entry member
    constructor
    · rw [← same]
      exact named info here
    · rw [← same]
      exact clean info here
  obtain ⟨start, count, spliced, built⟩ := splice_all_built writable
    (by rw [names]; exact names_distinct increasing)
  have noEmpty : ∀ name, ¬ start.EmptyEdge name := by
    intro name
    rw [built.emptyEdge name, names]
    exact not_after_extension increasing name
  have walks : ∀ name entry, start.walk name = some entry ↔
      entry ∈ exportEntries [] exports ∧ entry.name = name := by
    intro name entry
    rw [node_walk_iff built.valid noEmpty, built.place, nil_append, NamedAmong]
    apply and_congr_left
    intro _
    rw [← built_names built entry]
    constructor
    · exact fun found => found.elim fun index member => ⟨(index, entry), member, rfl⟩
    · intro found
      obtain ⟨terminal, member, same⟩ := found
      exact ⟨terminal.1, same ▸ member⟩
  refine ⟨start, count, spliced, ?_, ?_, ?_⟩
  · intro node member
    exact node_prefix_free built.valid noEmpty node ((all_nodes_perm start).mem_iff.mp member)
  · intro entry member
    exact (walks entry.name entry).mpr ⟨member, rfl⟩
  intro name absent
  cases found : start.walk name with
  | none => rfl
  | some entry =>
    obtain ⟨member, same⟩ := (walks name entry).mp found
    apply absurd _ absent
    rw [← names, ← same]
    exact List.mem_map_of_mem member

theorem greedy_lookup_three :
    GreedyLookup [{ name := [97] }, { name := [97, 98] }, { name := [97, 99] }] :=
  greedy_lookup_of_increasing (by decide) (by decide) (by decide)

def emptyNameExports : List Export := [{ name := [] }, { name := [97] }]

theorem empty_name_entries : exportEntries [] emptyNameExports =
    [{ name := [], strideOffset := 0, strideSize := 0 },
      { name := [97], strideOffset := 0, strideSize := 2 }] := by
  have first : ({ name := [] } : Export).terminal = [] := by simp [Export.terminal]
  have second : ({ name := [97] } : Export).terminal = [0, 0] := plain_terminal (by simp)
  simp [emptyNameExports, exportEntries, exportToEntry, first, second]

/-- The empty name gets an empty edge in front of the other edge, and the walk
for `a` ends in its leaf. -/
theorem empty_name_lookup_fails : (emptyNameExports.map Export.name).Pairwise StrcmpLess ∧
      (∀ info ∈ emptyNameExports, (0 : UInt8) ∉ info.name) ∧ ¬ GreedyLookup emptyNameExports := by
  refine ⟨by decide, by decide, ?_⟩
  intro lookup
  obtain ⟨start, count, spliced, _, found, _⟩ := lookup
  have walk := found { name := [97], strideOffset := 0, strideSize := 2 } (by
    rw [empty_name_entries]
    simp)
  cases spliced
  cases walk

end DeveloperTools.Ld64.ExportsTrie
