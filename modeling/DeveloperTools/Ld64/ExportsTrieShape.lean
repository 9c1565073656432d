import DeveloperTools.Ld64.ExportsTrie

/-!
The tree `addEntry` works on is a radix tree: the edges of a node start with
different bytes, where an empty edge starts with the NUL past its end. An empty
edge leads to a leaf and appears exactly when a name is added after a name that
extends it. The terminal nodes are numbered in the order of the entries.
-/

namespace DeveloperTools.Ld64.ExportsTrie

open List

def Edges.labels : Edges → List Bytes
  | .nil => []
  | .cons partialString _ rest => partialString :: rest.labels

def Edges.firstChars (edges : Edges) : List UInt8 := edges.labels.map firstChar

/-- A node below the start is terminal or has children. -/
def Node.Inhabited (node : Node) : Prop := node.terminalEntry.name ≠ [] ∨ node.children ≠ .nil

def TerminalOf (cummulativeString : Bytes) (entry : WriterEntry) : Prop :=
  entry.name = cummulativeString ∧ cummulativeString ≠ []

mutual

def Node.Valid : Node → Prop
  | .mk _ cummulativeString terminalEntry children =>
    (terminalEntry = {} ∨ TerminalOf cummulativeString terminalEntry) ∧
      children.Valid cummulativeString

def Edges.Valid (cummulativeString : Bytes) : Edges → Prop
  | .nil => True
  | .cons partialString child rest =>
    child.cummulativeString = cummulativeString ++ partialString ∧
      (0 : UInt8) ∉ partialString ∧
      (partialString = [] → child.terminalEntry.name ≠ [] ∧ child.children = .nil) ∧
      child.Inhabited ∧ child.Valid ∧
      firstChar partialString ∉ rest.firstChars ∧ rest.Valid cummulativeString

end

def ownTerminal (index : Nat) (entry : WriterEntry) : List (Nat × WriterEntry) :=
  if entry.name ≠ [] then [(index, entry)] else []

mutual

def Node.terminals : Node → List (Nat × WriterEntry)
  | .mk index _ terminalEntry children => ownTerminal index terminalEntry ++ children.terminals

def Edges.terminals : Edges → List (Nat × WriterEntry)
  | .nil => []
  | .cons _ child rest => child.terminals ++ rest.terminals

end

mutual

def Node.indices : Node → List Nat
  | .mk index _ _ children => index :: children.indices

def Edges.indices : Edges → List Nat
  | .nil => []
  | .cons _ child rest => child.indices ++ rest.indices

end

mutual

def Node.EmptyEdge (name : Bytes) : Node → Prop
  | .mk _ cummulativeString _ children =>
    (name = cummulativeString ∧ [] ∈ children.labels) ∨ children.EmptyEdge name

def Edges.EmptyEdge (name : Bytes) : Edges → Prop
  | .nil => False
  | .cons _ child rest => child.EmptyEdge name ∨ rest.EmptyEdge name

end

def Extended (terminals : List (Nat × WriterEntry)) (name : Bytes) : Prop :=
  ∃ terminal ∈ terminals, name <+: terminal.2.name

theorem extended_congr {left right : List (Nat × WriterEntry)} {name probe : Bytes}
    (moved : Extended left name ↔ Extended right name) :
    probe = name ∧ Extended left probe ↔ probe = name ∧ Extended right probe := by
  refine and_congr_right fun same => ?_
  rw [same, moved]

variable {label : Bytes}

theorem first_char_append (nonempty : label ≠ []) (rest : Bytes) :
    firstChar (label ++ rest) = firstChar label := by
  cases label with
  | nil => exact absurd rfl nonempty
  | cons byte label => rfl

theorem first_char_take {len : Nat} (positive : 0 < len) :
    firstChar (label.take len) = firstChar label := by
  cases label with
  | nil => simp
  | cons byte label =>
    obtain ⟨len, rfl⟩ : ∃ rest, len = rest + 1 := ⟨len - 1, by omega⟩
    rfl

theorem first_char_ne_zero (clean : (0 : UInt8) ∉ label) (nonempty : label ≠ []) :
    firstChar label ≠ 0 := by
  cases label with
  | nil => exact absurd rfl nonempty
  | cons byte label =>
    intro zero
    apply clean
    change byte = 0 at zero
    simp [zero]

variable {tail : Bytes}

theorem splice_length_sound {start len : Nat} (found : spliceLength label tail start = some len) :
    0 < len ∧ len ≤ start ∧ label.take len = tail.take len := by
  induction start with
  | zero => cases found
  | succ start ih =>
    rw [spliceLength] at found
    split at found
    next same =>
      cases found
      exact ⟨by omega, le_rfl, same⟩
    · obtain ⟨positive, bounded, same⟩ := ih found
      exact ⟨positive, by omega, same⟩

theorem splice_length_found {start : Nat} (positive : 0 < start)
    (same : label.take 1 = tail.take 1) : ∃ len, spliceLength label tail start = some len := by
  induction start with
  | zero => omega
  | succ start ih =>
    rw [spliceLength]
    split
    · exact ⟨_, rfl⟩
    rename_i different
    rcases Nat.eq_zero_or_pos start with zero | later
    · subst zero
      exact absurd same different
    · exact ih later

theorem labels_push_back (edges : Edges) (label : Bytes) (child : Node) :
    (edges.pushBack label child).labels = edges.labels ++ [label] := by
  match edges with
  | .nil => rfl
  | .cons first node rest =>
    change first :: (rest.pushBack label child).labels = first :: (rest.labels ++ [label])
    rw [labels_push_back rest]

theorem terminals_push_back (edges : Edges) (label : Bytes) (child : Node) :
    (edges.pushBack label child).terminals = edges.terminals ++ child.terminals := by
  match edges with
  | .nil => simp [Edges.pushBack, Edges.terminals]
  | .cons first node rest =>
    simp only [Edges.pushBack, Edges.terminals]
    rw [terminals_push_back rest, append_assoc]

theorem indices_push_back (edges : Edges) (label : Bytes) (child : Node) :
    (edges.pushBack label child).indices = edges.indices ++ child.indices := by
  match edges with
  | .nil => simp [Edges.pushBack, Edges.indices]
  | .cons first node rest =>
    simp only [Edges.pushBack, Edges.indices]
    rw [indices_push_back rest, append_assoc]

theorem empty_edge_push_back (edges : Edges) (name label : Bytes) (child : Node) :
    (edges.pushBack label child).EmptyEdge name ↔ edges.EmptyEdge name ∨ child.EmptyEdge name := by
  match edges with
  | .nil => simp [Edges.pushBack, Edges.EmptyEdge]
  | .cons first node rest =>
    simp only [Edges.pushBack, Edges.EmptyEdge]
    rw [empty_edge_push_back rest, or_assoc]

variable {child : Node}

theorem valid_push_back {cummulativeString : Bytes} {edges : Edges}
    (valid : edges.Valid cummulativeString) (fresh : firstChar label ∉ edges.firstChars)
    (place : child.cummulativeString = cummulativeString ++ label) (clean : (0 : UInt8) ∉ label)
    (leaf : label = [] → child.terminalEntry.name ≠ [] ∧ child.children = .nil)
    (inhabited : child.Inhabited) (childValid : child.Valid) :
    (edges.pushBack label child).Valid cummulativeString := by
  match edges with
  | .nil =>
    exact ⟨place, clean, leaf, inhabited, childValid, by simp [Edges.firstChars, Edges.labels],
      trivial⟩
  | .cons first node rest =>
    obtain ⟨firstPlace, firstClean, firstLeaf, firstInhabited, firstValid, apart, tail⟩ := valid
    simp only [Edges.firstChars, Edges.labels, map_cons, mem_cons, not_or] at fresh
    refine ⟨firstPlace, firstClean, firstLeaf, firstInhabited, firstValid, ?_,
      valid_push_back tail fresh.2 place clean leaf inhabited childValid⟩
    simp only [Edges.firstChars, labels_push_back, map_append, map_cons, map_nil,
      mem_append, mem_singleton, not_or]
    exact ⟨apart, fun same => fresh.1 same.symm⟩

variable {cummulativeString : Bytes} {terminal : Nat × WriterEntry} {index : Nat}
  {entry : WriterEntry}

theorem own_terminal_name (valid : entry = {} ∨ TerminalOf cummulativeString entry)
    (member : terminal ∈ ownTerminal index entry) :
    terminal = (index, entry) ∧ entry.name = cummulativeString := by
  unfold ownTerminal at member
  split at member
  next named =>
    rcases valid with absent | present
    · rw [absent] at named
      exact absurd rfl named
    · exact ⟨mem_singleton.mp member, present.1⟩
  · cases member

theorem empty_edge_terminal (place : child.cummulativeString = cummulativeString ++ [])
    (childless : child.children = .nil) (valid : child.Valid) :
    ∀ terminal ∈ child.terminals, terminal.2.name = cummulativeString := by
  match child with
  | .mk index name terminalEntry children =>
    subst childless
    intro terminal below
    have own : terminal ∈ ownTerminal index terminalEntry := by
      simpa [Node.terminals, Edges.terminals] using below
    obtain ⟨rfl, named⟩ := own_terminal_name valid.1 own
    rw [append_nil] at place
    exact named.trans place

mutual

theorem node_terminals_extend {node : Node} (valid : node.Valid) :
    ∀ terminal ∈ node.terminals, node.cummulativeString <+: terminal.2.name := by
  match node with
  | .mk index cummulativeString terminalEntry children =>
    intro terminal member
    rcases mem_append.mp member with own | below
    · obtain ⟨rfl, name⟩ := own_terminal_name valid.1 own
      change cummulativeString <+: terminalEntry.name
      rw [name]
    · obtain ⟨label, _, within, _⟩ := edges_terminals_extend valid.2 terminal below
      exact (prefix_append _ _).trans within

theorem edges_terminals_extend {cummulativeString : Bytes} {edges : Edges}
    (valid : edges.Valid cummulativeString) : ∀ terminal ∈ edges.terminals,
      ∃ label ∈ edges.labels, cummulativeString ++ label <+: terminal.2.name ∧
        (label = [] → terminal.2.name = cummulativeString) := by
  match edges with
  | .nil =>
    intro terminal member
    cases member
  | .cons label child rest =>
    intro terminal member
    obtain ⟨place, _, leaf, _, childValid, _, tail⟩ := valid
    rcases mem_append.mp member with below | later
    · have within := node_terminals_extend childValid terminal below
      rw [place] at within
      refine ⟨label, mem_cons_self, within, ?_⟩
      rintro rfl
      exact empty_edge_terminal place (leaf rfl).2 childValid terminal below
    · obtain ⟨other, present, within, exact⟩ := edges_terminals_extend tail terminal later
      exact ⟨other, .tail _ present, within, exact⟩

end

theorem edge_first_char {edges : Edges} (valid : edges.Valid cummulativeString)
    (tailNonempty : tail ≠ []) (member : terminal ∈ edges.terminals)
    (within : cummulativeString ++ tail <+: terminal.2.name) :
    firstChar tail ∈ edges.firstChars := by
  obtain ⟨label, present, labelWithin, exact⟩ := edges_terminals_extend valid terminal member
  refine List.mem_map.mpr ⟨label, present, ?_⟩
  have labelNonempty : label ≠ [] := by
    intro empty
    rw [exact empty] at within
    have bound := within.length_le
    have positive := length_pos_iff.mpr tailNonempty
    rw [length_append] at bound
    omega
  obtain ⟨after, whole⟩ := within
  obtain ⟨labelAfter, labelWhole⟩ := labelWithin
  rw [← whole, append_assoc, append_assoc] at labelWhole
  have tails := congrArg firstChar (append_cancel_left labelWhole)
  rwa [first_char_append labelNonempty, first_char_append tailNonempty] at tails

theorem inhabited_has_terminal : ∀ {node : Node}, node.Valid → node.Inhabited →
    ∃ terminal, terminal ∈ node.terminals
  | .mk index cummulativeString terminalEntry children, valid, inhabited => by
    by_cases named : terminalEntry.name = []
    · match children with
      | .nil =>
        rcases inhabited with own | below
        · exact absurd named own
        · exact absurd rfl below
      | .cons label child rest =>
        obtain ⟨_, _, _, childInhabited, childValid, _, _⟩ := valid.2
        obtain ⟨terminal, member⟩ := inhabited_has_terminal childValid childInhabited
        exact ⟨terminal, by simp [Node.terminals, Edges.terminals, member]⟩
    · exact ⟨(index, terminalEntry), by simp [Node.terminals, ownTerminal, named]⟩

/-- Adding an entry below a node: the node stays, one terminal is added under the
last number given out, and an empty edge exactly if an older name extends it. -/
structure Added (newEntry : WriterEntry) (count : Nat) (before after : Node) (later : Nat) :
    Prop where
  index : after.index = before.index
  place : after.cummulativeString = before.cummulativeString
  grown : after.children ≠ .nil
  valid : after.Valid
  counted : count < later
  bounded : later + before.cummulativeString.length ≤ count + newEntry.name.length + 1
  terminals : after.terminals.Perm ((later - 1, newEntry) :: before.terminals)
  indices : after.indices.Perm (List.range' count (later - count) ++ before.indices)
  emptyEdge : ∀ name, after.EmptyEdge name ↔
    before.EmptyEdge name ∨ (name = newEntry.name ∧ Extended before.terminals name)

structure EdgesAdded (newEntry : WriterEntry) (cummulativeString : Bytes) (count : Nat)
    (before after : Edges) (later : Nat) : Prop where
  grown : after ≠ .nil
  valid : after.Valid cummulativeString
  firstChars : after.firstChars = before.firstChars
  emptyLabel : [] ∈ after.labels ↔ [] ∈ before.labels
  counted : count < later
  bounded : later + cummulativeString.length ≤ count + newEntry.name.length + 1
  terminals : after.terminals.Perm ((later - 1, newEntry) :: before.terminals)
  indices : after.indices.Perm (List.range' count (later - count) ++ before.indices)
  emptyEdge : ∀ name, after.EmptyEdge name ↔
    before.EmptyEdge name ∨ (name = newEntry.name ∧ Extended before.terminals name)

structure Addable (newEntry : WriterEntry) (node : Node) : Prop where
  valid : node.Valid
  within : node.cummulativeString <+: newEntry.name
  absent : ∀ terminal ∈ node.terminals, terminal.2.name ≠ newEntry.name
  inhabited : node.cummulativeString = newEntry.name → node.Inhabited

structure Writable (newEntry : WriterEntry) : Prop where
  named : newEntry.name ≠ []
  clean : (0 : UInt8) ∉ newEntry.name

theorem Writable.tail_clean {newEntry : WriterEntry} {front : Bytes} (writable : Writable newEntry)
    (name : newEntry.name = front ++ tail) : (0 : UInt8) ∉ tail := by
  intro zero
  apply writable.clean
  rw [name]
  exact mem_append_right _ zero

variable {rest : Edges}

section

variable {cummulativeString : Bytes} (valid : (Edges.cons label child rest).Valid cummulativeString)
    (tailNonempty : tail ≠ [])

include valid tailNonempty

/-- Names past the cumulative string go below the edge with the same first
byte, so older extensions of the new name are below that edge. -/
theorem extended_below_edge
    (same : firstChar label = firstChar tail) :
    Extended (Edges.cons label child rest).terminals (cummulativeString ++ tail) ↔
      Extended child.terminals (cummulativeString ++ tail) := by
  obtain ⟨_, _, _, _, _, apart, restValid⟩ := valid
  constructor
  · rintro ⟨terminal, member, within⟩
    rcases mem_append.mp member with below | later
    · exact ⟨terminal, below, within⟩
    · have clash := edge_first_char restValid tailNonempty later within
      rw [← same] at clash
      exact absurd clash apart
  · rintro ⟨terminal, member, within⟩
    exact ⟨terminal, mem_append_left _ member, within⟩

theorem extended_past_edge
    (different : firstChar label ≠ firstChar tail) :
    Extended (Edges.cons label child rest).terminals (cummulativeString ++ tail) ↔
      Extended rest.terminals (cummulativeString ++ tail) := by
  obtain ⟨place, clean, leaf, inhabited, childValid, _, _⟩ := valid
  constructor
  · rintro ⟨terminal, member, within⟩
    rcases mem_append.mp member with below | later
    · have single : (Edges.cons label child .nil).Valid cummulativeString :=
        ⟨place, clean, leaf, inhabited, childValid, by simp [Edges.firstChars, Edges.labels], trivial⟩
      have present : terminal ∈ (Edges.cons label child .nil).terminals := by
        simpa [Edges.terminals] using below
      have clash := edge_first_char single tailNonempty present within
      simp only [Edges.firstChars, Edges.labels, map_cons, map_nil, mem_singleton] at clash
      exact absurd clash.symm different
    · exact ⟨terminal, later, within⟩
  · rintro ⟨terminal, member, within⟩
    exact ⟨terminal, mem_append_right _ member, within⟩

end

variable {newEntry : WriterEntry}

variable {count : Nat}

structure AddedBelow (newEntry : WriterEntry) (count : Nat) (before after : Node) (later : Nat) :
    Prop where
  grown : after.children ≠ .nil
  valid : after.Valid
  counted : count < later
  terminals : after.terminals.Perm ((later - 1, newEntry) :: before.terminals)
  indices : after.indices.Perm (List.range' count (later - count) ++ before.indices)
  emptyEdge : ∀ name, after.EmptyEdge name ↔
    before.EmptyEdge name ∨ (name = newEntry.name ∧ Extended before.terminals name)

theorem Added.below {before after : Node} {later : Nat}
    (added : Added newEntry count before after later) :
    AddedBelow newEntry count before after later :=
  ⟨added.grown, added.valid, added.counted, added.terminals, added.indices, added.emptyEdge⟩

def cNode (newEntry : WriterEntry) (depth : Nat) (label : Bytes) (child : Node) (len count : Nat) :
    Node :=
  .mk count (newEntry.name.take (depth + len)) {} (.cons (label.drop len) child .nil)

theorem spliced_below {depth len later : Nat} {after : Node} (remains : label.drop len ≠ [])
    (added : Added newEntry (count + 1) (cNode newEntry depth label child len count) after later) :
    AddedBelow newEntry count child after later := by
  obtain ⟨_, _, grown, valid, counted, _, terminals, indices, emptyEdge⟩ := added
  have same : (cNode newEntry depth label child len count).terminals = child.terminals := by
    simp [cNode, Node.terminals, ownTerminal, Edges.terminals]
  have spliced : (cNode newEntry depth label child len count).indices =
      count :: child.indices := by
    simp [cNode, Node.indices, Edges.indices]
  have numbers : range' count (later - count) =
      count :: range' (count + 1) (later - (count + 1)) := by
    rw [← range'_succ]
    congr 1
    omega
  rw [same] at terminals
  rw [spliced] at indices
  refine ⟨grown, valid, by omega, terminals, ?_, fun probe => ?_⟩
  · rw [numbers]
    exact indices.trans perm_middle
  · rw [emptyEdge probe, same]
    simp [cNode, Node.EmptyEdge, Edges.EmptyEdge, Edges.labels, remains.symm]

section

variable {cummulativeString : Bytes} (name : newEntry.name = cummulativeString ++ tail)
  (valid : (Edges.cons label child rest).Valid cummulativeString)

theorem spliced_name {len : Nat} (name : newEntry.name = cummulativeString ++ tail)
    (common : label.take len = tail.take len) :
    newEntry.name.take (cummulativeString.length + len) = cummulativeString ++ label.take len := by
  rw [name, take_length_add_append, common]

include name valid

theorem edges_added_head {shorter : Bytes} {later : Nat} {after : Node} (tailNonempty : tail ≠ [])
    (same : firstChar label = firstChar tail) (labelNonempty : label ≠ [])
    (shorterNonempty : shorter ≠ []) (shorterClean : (0 : UInt8) ∉ shorter)
    (shorterFirst : firstChar shorter = firstChar label)
    (place : after.cummulativeString = cummulativeString ++ shorter)
    (bounded : later + cummulativeString.length ≤ count + newEntry.name.length + 1)
    (below : AddedBelow newEntry count child after later) :
    EdgesAdded newEntry cummulativeString count (.cons label child rest)
      (.cons shorter after rest) later := by
  have moved := extended_below_edge valid tailNonempty same
  rw [← name] at moved
  obtain ⟨_, _, _, _, _, apart, restValid⟩ := valid
  refine
    { grown := by simp
      valid := ⟨place, shorterClean, fun empty => absurd empty shorterNonempty, .inr below.grown,
        below.valid, by rwa [shorterFirst], restValid⟩
      firstChars := by simp [Edges.firstChars, Edges.labels, shorterFirst]
      emptyLabel := by simp [Edges.labels, labelNonempty.symm, shorterNonempty.symm]
      counted := below.counted
      bounded := bounded
      terminals := below.terminals.append_right rest.terminals
      indices := ?_
      emptyEdge := ?_ }
  · have whole := below.indices.append_right rest.indices
    rwa [append_assoc] at whole
  · intro probe
    rw [Edges.EmptyEdge, Edges.EmptyEdge, below.emptyEdge probe, extended_congr moved,
      or_right_comm]

variable (absent : ∀ terminal ∈ child.terminals, terminal.2.name ≠ newEntry.name)

include absent

theorem spliced_addable {len : Nat} (count : Nat) (remains : label.drop len ≠ [])
    (common : label.take len = tail.take len) :
    Addable newEntry (cNode newEntry cummulativeString.length label child len count) := by
  obtain ⟨place, clean, _, inhabited, childValid, _, _⟩ := valid
  refine
    { valid := ⟨.inl rfl, ?_, ?_, ?_, inhabited, childValid, ?_, trivial⟩
      within := take_prefix _ _
      absent := ?_
      inhabited := fun _ => .inr (by simp [cNode, Node.children]) }
  · rw [spliced_name name common, append_assoc, take_append_drop]
    exact place
  · exact fun zero => clean (mem_of_mem_drop zero)
  · exact fun empty => absurd empty remains
  · simp [Edges.firstChars, Edges.labels]
  · intro terminal member
    apply absent
    simpa [cNode, Node.terminals, ownTerminal, Edges.terminals] using member

variable (same : firstChar label = firstChar tail)

include same

/-- An empty edge would lead to the entry itself, which is not there yet. -/
theorem followed_nonempty (writable : Writable newEntry) : label ≠ [] ∧ tail ≠ [] := by
  obtain ⟨place, clean, leaf, inhabited, childValid, _, _⟩ := valid
  have labelNonempty : label ≠ [] := by
    rintro rfl
    have tailEmpty : tail = [] := by
      by_contra nonempty
      exact first_char_ne_zero (writable.tail_clean name) nonempty same.symm
    obtain ⟨terminal, member⟩ := inhabited_has_terminal childValid inhabited
    apply absent terminal member
    rw [empty_edge_terminal place (leaf rfl).2 childValid terminal member, name, tailEmpty,
      append_nil]
  refine ⟨labelNonempty, ?_⟩
  rintro rfl
  exact first_char_ne_zero clean labelNonempty same

variable {recurse : Nat → Node → Except BuildFault (Node × Nat)} (labelNonempty : label ≠ [])
  (tailNonempty : tail ≠ [])
  (ih : ∀ count node, Addable newEntry node →
    cummulativeString.length < node.cummulativeString.length →
    ∃ after later, recurse count node = .ok (after, later) ∧ Added newEntry count node after later)

include labelNonempty tailNonempty ih

theorem edge_followed (follows : label <+: tail) : ∃ after later,
    (Edges.cons label child rest).addEntry recurse newEntry cummulativeString.length tail count =
        .ok (some (after, later)) ∧
      EdgesAdded newEntry cummulativeString count (.cons label child rest) after later := by
  have whole := valid
  obtain ⟨place, clean, _, inhabited, childValid, _, _⟩ := valid
  have addable : Addable newEntry child := by
    refine ⟨childValid, ?_, absent, fun _ => inhabited⟩
    rw [place, name]
    exact prefix_append_right_inj _ |>.mpr follows
  have deeper : cummulativeString.length < child.cummulativeString.length := by
    have positive := length_pos_iff.mpr labelNonempty
    rw [place, length_append]
    omega
  obtain ⟨after, later, ran, added⟩ := ih count child addable deeper
  refine ⟨.cons label after rest, later, ?_, ?_⟩
  · rw [Edges.addEntry, if_neg (by simpa using same),
      if_pos (List.isPrefixOf_iff_prefix.mpr follows), ran]
    rfl
  have bounded := added.bounded
  exact edges_added_head name whole tailNonempty same labelNonempty labelNonempty clean rfl
    (added.place.trans place) (by omega) added.below

theorem edge_spliced (leaves : ¬ label <+: tail) : ∃ after later,
    (Edges.cons label child rest).addEntry recurse newEntry cummulativeString.length tail count =
        .ok (some (after, later)) ∧
      EdgesAdded newEntry cummulativeString count (.cons label child rest) after later := by
  have oneByte : label.take 1 = tail.take 1 := by
    cases label with
    | nil => exact absurd rfl labelNonempty
    | cons first label =>
      cases tail with
      | nil => exact absurd rfl tailNonempty
      | cons byte tail =>
        change first = byte at same
        simp [same]
  have longer : 0 < label.length - 1 := by
    by_contra short
    apply leaves
    have single : label.take 1 = label := take_of_length_le (by omega)
    rw [← single, oneByte]
    exact take_prefix _ _
  obtain ⟨len, found⟩ := splice_length_found longer oneByte
  obtain ⟨positive, bounded, common⟩ := splice_length_sound found
  have taken := spliced_name name common
  have remains : label.drop len ≠ [] := by
    rw [Ne, drop_eq_nil_iff]
    omega
  have keptNonempty : label.take len ≠ [] := by
    rw [Ne, take_eq_nil_iff]
    exact fun empty => empty.elim (by omega) labelNonempty
  have deeper : cummulativeString.length <
      (cNode newEntry cummulativeString.length label child len count).cummulativeString.length := by
    have kept := length_pos_iff.mpr keptNonempty
    rw [cNode, Node.cummulativeString, taken, length_append]
    omega
  obtain ⟨after, later, ran, added⟩ := ih (count + 1) _
    (spliced_addable name valid absent count remains common) deeper
  have bounded := added.bounded
  refine ⟨.cons (label.take len) after rest, later, ?_, ?_⟩
  · rw [cNode] at ran
    rw [Edges.addEntry, if_neg (by simpa using same),
      if_neg (by simpa [ isPrefixOf_iff_prefix] using leaves), found]
    simp only [ran]
    rfl
  exact edges_added_head name valid tailNonempty same labelNonempty keptNonempty
    (fun zero => valid.2.1 (mem_of_mem_take zero)) (first_char_take positive)
    (added.place.trans taken) (by omega) (spliced_below remains added)

end

theorem edges_added_skip {later : Nat} {after : Edges}
    (name : newEntry.name = cummulativeString ++ tail) (tailNonempty : tail ≠ [])
    (valid : (Edges.cons label child rest).Valid cummulativeString)
    (different : firstChar label ≠ firstChar tail)
    (added : EdgesAdded newEntry cummulativeString count rest after later) :
    EdgesAdded newEntry cummulativeString count (.cons label child rest)
      (.cons label child after) later := by
  have moved := extended_past_edge valid tailNonempty different
  rw [← name] at moved
  obtain ⟨place, clean, leaf, inhabited, childValid, apart, _⟩ := valid
  refine
    { grown := by simp
      valid := ⟨place, clean, leaf, inhabited, childValid, ?_, added.valid⟩
      firstChars := ?_
      emptyLabel := by simp only [Edges.labels, mem_cons, added.emptyLabel]
      counted := added.counted
      bounded := added.bounded
      terminals := ?_
      indices := ?_
      emptyEdge := ?_ }
  · rwa [added.firstChars]
  · exact congrArg (firstChar label :: ·) added.firstChars
  · exact (added.terminals.append_left child.terminals).trans perm_middle
  · refine (added.indices.append_left child.indices).trans ?_
    simp only [Edges.indices, ← append_assoc]
    exact perm_append_comm.append_right rest.indices
  · intro probe
    rw [Edges.EmptyEdge, Edges.EmptyEdge, added.emptyEdge probe, extended_congr moved, or_assoc]

theorem edges_add_entry {recurse : Nat → Node → Except BuildFault (Node × Nat)}
    {cummulativeString : Bytes} {edges : Edges} (count : Nat) (writable : Writable newEntry)
    (name : newEntry.name = cummulativeString ++ tail) (valid : edges.Valid cummulativeString)
    (absent : ∀ terminal ∈ edges.terminals, terminal.2.name ≠ newEntry.name)
    (ih : ∀ count node, Addable newEntry node →
      cummulativeString.length < node.cummulativeString.length →
      ∃ after later, recurse count node = .ok (after, later) ∧
      Added newEntry count node after later) :
    (∃ after later, tail ≠ [] ∧
      edges.addEntry recurse newEntry cummulativeString.length tail count =
        .ok (some (after, later)) ∧ EdgesAdded newEntry cummulativeString count edges after later) ∨
    (edges.addEntry recurse newEntry cummulativeString.length tail count = .ok none ∧
      firstChar tail ∉ edges.firstChars) := by
  match edges with
  | .nil => exact .inr ⟨rfl, by simp [Edges.firstChars, Edges.labels]⟩
  | .cons label child rest =>
    have childAbsent : ∀ terminal ∈ child.terminals, terminal.2.name ≠ newEntry.name :=
      fun terminal member => absent terminal (mem_append_left _ member)
    have restAbsent : ∀ terminal ∈ rest.terminals, terminal.2.name ≠ newEntry.name :=
      fun terminal member => absent terminal (mem_append_right _ member)
    by_cases same : firstChar label = firstChar tail
    · obtain ⟨labelNonempty, tailNonempty⟩ := followed_nonempty name valid childAbsent same writable
      left
      by_cases follows : label <+: tail
      · obtain ⟨after, later, ran, added⟩ :=
          edge_followed name valid childAbsent same labelNonempty tailNonempty ih follows
        exact ⟨after, later, tailNonempty, ran, added⟩
      · obtain ⟨after, later, ran, added⟩ :=
          edge_spliced name valid childAbsent same labelNonempty tailNonempty ih follows
        exact ⟨after, later, tailNonempty, ran, added⟩
    have step : (Edges.cons label child rest).addEntry recurse newEntry
        cummulativeString.length tail count =
        (rest.addEntry recurse newEntry cummulativeString.length tail count).map fun found =>
          found.map fun result => (.cons label child result.1, result.2) := by
      rw [Edges.addEntry, if_pos (by simpa using same)]
    have restValid := valid.2.2.2.2.2.2
    rcases edges_add_entry count writable name restValid restAbsent ih with
      ⟨after, later, tailNonempty, ran, added⟩ | ⟨ran, fresh⟩
    · left
      refine ⟨.cons label child after, later, tailNonempty, ?_, ?_⟩
      · rw [step, ran]
        rfl
      · exact edges_added_skip name tailNonempty valid same added
    · right
      refine ⟨?_, ?_⟩
      · rw [step, ran]
        rfl
      · simp only [Edges.firstChars, Edges.labels, map_cons, mem_cons, not_or]
        exact ⟨fun equal => same equal.symm, fresh⟩

theorem extended_past_own {terminals : List (Nat × WriterEntry)}
    (valid : entry = {} ∨ TerminalOf cummulativeString entry) (tailNonempty : tail ≠ []) :
    Extended (ownTerminal index entry ++ terminals) (cummulativeString ++ tail) ↔
      Extended terminals (cummulativeString ++ tail) := by
  constructor
  · rintro ⟨terminal, member, within⟩
    rcases mem_append.mp member with own | below
    · obtain ⟨rfl, name⟩ := own_terminal_name valid own
      have bound := within.length_le
      have positive := length_pos_iff.mpr tailNonempty
      rw [length_append, name] at bound
      omega
    · exact ⟨terminal, below, within⟩
  · rintro ⟨terminal, member, within⟩
    exact ⟨terminal, mem_append_right _ member, within⟩

theorem added_leaf {terminalEntry : WriterEntry} {children : Edges} (count : Nat)
    (writable : Writable newEntry)
    (addable : Addable newEntry (.mk index cummulativeString terminalEntry children))
    (name : cummulativeString ++ tail = newEntry.name)
    (fresh : firstChar tail ∉ children.firstChars) :
    Added newEntry count (.mk index cummulativeString terminalEntry children)
      (.mk index cummulativeString terminalEntry
        (children.pushBack tail (.mk count newEntry.name newEntry .nil))) (count + 1) := by
  have tailClean := writable.tail_clean name.symm
  have leafTerminals : (Node.mk count newEntry.name newEntry .nil).terminals =
      [(count, newEntry)] := by
    simp [Node.terminals, ownTerminal, Edges.terminals, writable.named]
  refine
    { index := rfl
      place := rfl
      grown := ?_
      valid := ⟨addable.valid.1, valid_push_back addable.valid.2 fresh name.symm tailClean
        (fun _ => ⟨writable.named, rfl⟩) (.inl writable.named)
        ⟨.inr ⟨rfl, writable.named⟩, trivial⟩⟩
      counted := by omega
      bounded := by
        have within := addable.within.length_le
        omega
      terminals := ?_
      indices := ?_
      emptyEdge := ?_ }
  · cases children <;> simp [Node.children, Edges.pushBack]
  · simp only [Node.terminals, terminals_push_back]
    rw [← Node.terminals, leafTerminals, ← append_assoc, Nat.add_sub_cancel]
    exact perm_append_singleton _ _
  · simp only [Node.indices, indices_push_back, Edges.indices, Nat.add_sub_cancel_left,
      range'_one, singleton_append]
    exact (perm_append_singleton count (index :: children.indices))
  intro probe
  simp only [Node.EmptyEdge, empty_edge_push_back, labels_push_back, Edges.EmptyEdge,
    Edges.labels, not_mem_nil, and_false, or_false, mem_append, mem_singleton]
  by_cases ends : tail = []
  · subst ends
    rw [append_nil] at name
    subst name
    have extended : Extended (Node.mk index newEntry.name terminalEntry children).terminals
        newEntry.name := by
      obtain ⟨terminal, member⟩ := inhabited_has_terminal addable.valid (addable.inhabited rfl)
      exact ⟨terminal, member, node_terminals_extend addable.valid terminal member⟩
    constructor
    · rintro (⟨rfl, _⟩ | old)
      · exact .inr ⟨rfl, extended⟩
      · exact .inl (.inr old)
    rintro ((⟨rfl, _⟩ | old) | ⟨rfl, _⟩)
    · exact .inl ⟨rfl, .inr rfl⟩
    · exact .inr old
    · exact .inl ⟨rfl, .inr rfl⟩
  · have alone : ¬ Extended (Node.mk index cummulativeString terminalEntry children).terminals
        newEntry.name := by
      rw [← name, Node.terminals, extended_past_own addable.valid.1 ends]
      rintro ⟨terminal, member, within⟩
      exact fresh (edge_first_char addable.valid.2 ends member within)
    have later : ([] : Bytes) = tail ↔ False := ⟨fun empty => ends empty.symm, False.elim⟩
    rw [later, or_false]
    refine ⟨.inl, ?_⟩
    rintro (old | ⟨rfl, extended⟩)
    · exact old
    · exact absurd extended alone

theorem node_add_entry (writable : Writable newEntry) (fuel : Nat) :
    ∀ (count : Nat) (node : Node), Addable newEntry node →
      newEntry.name.length < node.cummulativeString.length + fuel →
      ∃ after later, node.addEntry newEntry fuel count = .ok (after, later) ∧
        Added newEntry count node after later := by
  induction fuel with
  | zero =>
    intro count node addable bound
    have within := addable.within.length_le
    omega
  | succ fuel ih =>
    rintro count ⟨index, cummulativeString, terminalEntry, children⟩ addable bound
    have whole := addable
    obtain ⟨⟨own, valid⟩, ⟨tail, name⟩, absent, _⟩ := addable
    change cummulativeString ++ tail = newEntry.name at name
    change newEntry.name.length < cummulativeString.length + (fuel + 1) at bound
    have dropped : newEntry.name.drop cummulativeString.length = tail := by
      rw [← name, drop_left]
    have below : ∀ terminal ∈ children.terminals, terminal.2.name ≠ newEntry.name :=
      fun terminal member => absent terminal (mem_append_right _ member)
    rcases edges_add_entry count writable name.symm valid below
        (fun count node addable deeper => ih count node addable (by omega))
      with ⟨after, later, tailNonempty, ran, added⟩ | ⟨ran, fresh⟩
    · refine ⟨.mk index cummulativeString terminalEntry after, later, ?_, ?_⟩
      · simp only [Node.addEntry, dropped, ran]
      have moved : Extended (ownTerminal index terminalEntry ++ children.terminals)
          (cummulativeString ++ tail) ↔ _ := extended_past_own own tailNonempty
      refine
        { index := rfl
          place := rfl
          grown := added.grown
          valid := ⟨own, added.valid⟩
          counted := added.counted
          bounded := added.bounded
          terminals := (added.terminals.append_left _).trans perm_middle
          indices := (added.indices.cons index).trans perm_middle.symm
          emptyEdge := ?_ }
      intro probe
      rw [name] at moved
      rw [Node.EmptyEdge, Node.EmptyEdge, added.emptyLabel, added.emptyEdge probe,
        Node.terminals, extended_congr moved, or_assoc]
    · refine ⟨_, count + 1, ?_, added_leaf count writable whole name fresh⟩
      have free : ¬ (tail = [] ∧ terminalEntry.strideSize ≠ 0) := by
        rintro ⟨rfl, paid⟩
        rcases own with none | ⟨named, nonempty⟩
        · exact paid (by rw [none])
        rw [append_nil] at name
        refine absent (index, terminalEntry) ?_ (named.trans name)
        rw [← named] at nonempty
        simp [Node.terminals, ownTerminal, nonempty]
      simp only [Node.addEntry, dropped, ran, if_neg free]

def AfterExtension (names : List Bytes) (name : Bytes) : Prop :=
  ∃ earlier later, names = earlier ++ name :: later ∧ ∃ longer ∈ earlier, name <+: longer

theorem after_extension_snoc (names : List Bytes) (last name : Bytes) :
    AfterExtension (names ++ [last]) name ↔
      AfterExtension names name ∨ (name = last ∧ ∃ longer ∈ names, name <+: longer) := by
  constructor
  · rintro ⟨earlier, later, split, extended⟩
    rcases eq_nil_or_concat later with rfl | ⟨later, byte, rfl⟩
    · obtain ⟨rfl, ends⟩ := append_inj' split rfl
      exact .inr ⟨(List.cons.inj ends).1.symm, extended⟩
    · rw [concat_eq_append, ← cons_append, ← append_assoc] at split
      exact .inl ⟨earlier, later, (append_inj' split rfl).1, extended⟩
  · rintro (⟨earlier, later, rfl, extended⟩ | ⟨rfl, extended⟩)
    · exact ⟨earlier, later ++ [last], by simp, extended⟩
    · exact ⟨names, [], rfl, extended⟩

/-- The tree after the given entries: the terminals are the entries, numbered
upwards in their order, and every node number below `count` is used once. -/
structure Built (entries : List WriterEntry) (start : Node) (count : Nat) : Prop where
  index : start.index = 0
  place : start.cummulativeString = []
  valid : start.Valid
  counted : count ≤ 1 + (entries.map fun entry => entry.name.length + 1).sum
  indices : start.indices.Perm (List.range count)
  terminals : ∃ numbered : List (Nat × WriterEntry), start.terminals.Perm numbered ∧
    numbered.map Prod.snd = entries ∧ numbered.Pairwise (fun left right => left.1 < right.1) ∧
    ∀ terminal ∈ numbered, terminal.1 < count
  emptyEdge : ∀ name, start.EmptyEdge name ↔ AfterExtension (entries.map WriterEntry.name) name

theorem start_node_built : Built [] startNode 1 where
  index := rfl
  place := rfl
  valid := ⟨.inl rfl, trivial⟩
  counted := le_rfl
  indices := List.Perm.refl _
  terminals := ⟨[], List.Perm.refl _, rfl, List.Pairwise.nil, by simp⟩
  emptyEdge name := by simp [startNode, Node.EmptyEdge, Edges.EmptyEdge, Edges.labels,
    AfterExtension]

variable {entries : List WriterEntry}

section

variable {start : Node} (built : Built entries start count)

include built

theorem built_names (entry : WriterEntry) :
    (∃ terminal ∈ start.terminals, terminal.2 = entry) ↔ entry ∈ entries := by
  obtain ⟨numbered, same, order, _, _⟩ := built.terminals
  rw [← order, mem_map]
  constructor
  · rintro ⟨terminal, member, equal⟩
    exact ⟨terminal, same.mem_iff.mp member, equal⟩
  · rintro ⟨terminal, member, equal⟩
    exact ⟨terminal, same.mem_iff.mpr member, equal⟩

theorem extended_iff_names (name : Bytes) :
    Extended start.terminals name ↔ ∃ longer ∈ entries.map WriterEntry.name, name <+: longer := by
  constructor
  · rintro ⟨terminal, member, within⟩
    have present := (built_names built terminal.2).mp ⟨terminal, member, rfl⟩
    exact ⟨terminal.2.name, mem_map_of_mem present, within⟩
  rintro ⟨longer, member, within⟩
  obtain ⟨entry, present, rfl⟩ := List.mem_map.mp member
  obtain ⟨terminal, here, rfl⟩ := (built_names built entry).mpr present
  exact ⟨terminal, here, within⟩

theorem splice_in_built
    (writable : Writable newEntry) (distinct : newEntry.name ∉ entries.map WriterEntry.name) :
    ∃ after later, spliceIn (start, count) newEntry = .ok (after, later) ∧
      Built (entries ++ [newEntry]) after later := by
  have addable : Addable newEntry start :=
    { valid := built.valid
      within := by simp [built.place]
      absent := by
        intro terminal member same
        have present := (built_names built terminal.2).mp ⟨terminal, member, rfl⟩
        exact distinct (List.mem_map.mpr ⟨terminal.2, present, same⟩)
      inhabited := fun same => absurd (same.symm.trans built.place) writable.named }
  obtain ⟨after, later, ran, added⟩ := node_add_entry writable (newEntry.name.length + 2) count
    start addable (by omega)
  refine ⟨after, later, ran, ?_⟩
  have counted := added.counted
  obtain ⟨numbered, same, order, increasing, bounded⟩ := built.terminals
  refine
    { index := added.index.trans built.index
      place := added.place.trans built.place
      valid := added.valid
      counted := ?_
      indices := ?_
      terminals := ⟨numbered ++ [(later - 1, newEntry)], ?_, ?_, ?_, ?_⟩
      emptyEdge := ?_ }
  · have bounded := added.bounded
    have before := built.counted
    simp only [map_append, map_cons, map_nil, sum_append, sum_singleton]
    omega
  · have numbers : range' count (later - count) ++ range count |>.Perm (range later) := by
      refine perm_append_comm.trans (List.Perm.of_eq ?_)
      have joined := @range'_append_1 0 count (later - count)
      rwa [Nat.zero_add, Nat.add_sub_cancel' counted.le, ← range_eq_range',
        ← range_eq_range'] at joined
    exact (added.indices.trans (built.indices.append_left _)).trans numbers
  · exact (added.terminals.trans (same.cons _)).trans (perm_append_singleton _ _).symm
  · rw [map_append, order]
    rfl
  · refine pairwise_append.mpr ⟨increasing, pairwise_singleton _ _, ?_⟩
    intro terminal member last isLast
    have bound := bounded terminal member
    rw [mem_singleton.mp isLast]
    omega
  · intro terminal member
    rcases mem_append.mp member with old | last
    · have bound := bounded terminal old
      omega
    · rw [mem_singleton.mp last]
      omega
  · intro name
    rw [added.emptyEdge name, built.emptyEdge name, map_append, map_singleton,
      after_extension_snoc, extended_iff_names built]

end

theorem splice_rest_built {rest : List WriterEntry} :
    ∀ {entries : List WriterEntry} {start : Node} {count : Nat}, Built entries start count →
      (∀ entry ∈ rest, Writable entry) →
      ((entries ++ rest).map WriterEntry.name).Nodup →
      ∃ after later, rest.foldlM spliceIn (start, count) = .ok (after, later) ∧
        Built (entries ++ rest) after later := by
  induction rest with
  | nil =>
    intro entries start count built _ _
    exact ⟨start, count, rfl, by rwa [append_nil]⟩
  | cons newEntry rest ih =>
    intro entries start count built writable distinct
    have fresh : newEntry.name ∉ entries.map WriterEntry.name := by
      rw [map_append, map_cons] at distinct
      intro member
      exact (nodup_append.mp distinct).2.2 _ member _ mem_cons_self rfl
    obtain ⟨middle, between, ran, grown⟩ :=
      splice_in_built built (writable newEntry mem_cons_self) fresh
    have regrouped := append_cons entries newEntry rest
    rw [regrouped] at distinct ⊢
    obtain ⟨after, later, ranRest, whole⟩ := ih grown
      (fun entry member => writable entry (.tail _ member)) distinct
    refine ⟨after, later, ?_, whole⟩
    rw [foldlM_cons, ran]
    exact ranRest

theorem splice_all_built (writable : ∀ entry ∈ entries, Writable entry)
    (distinct : (entries.map WriterEntry.name).Nodup) :
    ∃ start count, spliceAll entries = .ok (start, count) ∧ Built entries start count :=
  splice_rest_built start_node_built writable distinct

end DeveloperTools.Ld64.ExportsTrie
