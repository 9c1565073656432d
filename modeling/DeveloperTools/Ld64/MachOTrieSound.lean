import DeveloperTools.Lib.FailingFold
import DeveloperTools.Lib.FuelledSearch
import DeveloperTools.Ld64.MachOTrie

/-!
What the trie reader rejects. When `parseTrie` returns, every node it visited was read inside
the buffer, no node is below itself, and the entries are those of the terminal nodes. It need
not get there: it reads the child count at the very end of the buffer, edge strings without a
NUL and nodes that lead back to themselves. Nor does it look at what it returns: the size of a
terminal can wrap around the address space, and the import name need not end.
-/

namespace DeveloperTools.Ld64.MachOTrie

open Memory FailingFold FuelledSearch
open List

abbrev NodeCall := Nat × Option (List UInt8)

structure NodeShape where
  payload : Nat
  terminalSize : Nat
  own : List EntryWithOffset
  children : List NodeCall
  stop : Nat

def readChildren (region : Region) (cummulativeString : List UInt8) :
    Nat → Nat → Except Fault (List NodeCall × Nat)
  | 0, s => .ok ([], s)
  | count + 1, s => do
    let (edge, s₁) ← readEdge region cummulativeString.length s
    let (offset, s₂) ← readUleb128 region s₁
    if offset % 2 ^ 32 = 0 then .error (.thrown "malformed trie, childNodeOffset==0")
    else do
      let (later, stop) ← readChildren region cummulativeString count s₂
      .ok (((region.start + offset % 2 ^ 32) % 2 ^ 64, some (cummulativeString ++ edge)) :: later,
        stop)

def readOwn (region : Region) (name : Option (List UInt8)) (terminalSize payload : Nat) :
    Except Fault (List EntryWithOffset) :=
  if terminalSize ≠ 0 then
    match name with
    | none => .error .undefinedBehavior
    | some cummulativeString =>
      (readTerminal region cummulativeString payload).map fun entry => [entry]
  else .ok []

def readNode (region : Region) (call : NodeCall) : Except Fault NodeShape := do
  let (terminalSize, payload) ← readUleb128 region call.1
  let own ← readOwn region call.2 terminalSize payload
  let childrenCount ← loadByte region ((payload + terminalSize) % 2 ^ 64)
  let (children, stop) ← readChildren region (call.2.getD []) childrenCount.toNat
    ((payload + terminalSize) % 2 ^ 64 + 1)
  .ok { payload := payload, terminalSize := terminalSize, own := own, children := children
        stop := stop }

def expand (region : Region) (call : NodeCall) :
    Except Fault (List EntryWithOffset × List NodeCall) :=
  (readNode region call).map fun shape => (shape.own, shape.children)

variable {name : List UInt8}

section Unfolding

variable {region : Region}

theorem process_children_ok {recurse : Nat → List UInt8 → Except Fault (List EntryWithOffset)} :
    ∀ {count s : Nat} {result : List EntryWithOffset},
      processChildren region recurse name count s = .ok result →
      ∃ children stop below, readChildren region name count s = .ok (children, stop) ∧
        Forall₂ (fun (child : NodeCall) found =>
          ∃ text, child.2 = some text ∧ recurse child.1 text = .ok found) children below ∧
        result = below.flatten := by
  intro count
  induction count with
  | zero =>
    intro s result ok
    cases ok
    exact ⟨[], s, [], rfl, List.Forall₂.nil, rfl⟩
  | succ count ih =>
    intro s result ok
    obtain ⟨⟨edge, s₁⟩, edged, ok⟩ := bind_ok ok
    obtain ⟨⟨offset, s₂⟩, read, ok⟩ := bind_ok ok
    dsimp only at ok
    split at ok
    · cases ok
    rename_i nonzero
    obtain ⟨found, recursed, ok⟩ := bind_ok ok
    obtain ⟨later, rest, ok⟩ := bind_ok ok
    cases ok
    obtain ⟨children, stop, below, listed, all, rfl⟩ := ih rest
    refine ⟨((region.start + offset % 2 ^ 32) % 2 ^ 64, some (name ++ edge)) :: children, stop,
      found :: below, ?_, List.Forall₂.cons ⟨_, rfl, recursed⟩ all, rfl⟩
    rw [readChildren, edged]
    simp only [bind, Except.bind, read, if_neg nonzero, listed]

theorem process_export_node_ok {fuel p : Nat} {name : Option (List UInt8)}
    {result : List EntryWithOffset} (ok : processExportNode region (fuel + 1) p name = .ok result) :
    p < region.finish ∧ ∃ shape below, readNode region (p, name) = .ok shape ∧
      Forall₂ (fun (child : NodeCall) found =>
        processExportNode region fuel child.1 child.2 = .ok found) shape.children below ∧
      result = shape.own ++ below.flatten := by
  rw [processExportNode] at ok
  split at ok
  · cases ok
  rename_i inside
  refine ⟨by omega, ?_⟩
  obtain ⟨⟨terminalSize, payload⟩, sized, ok⟩ := bind_ok ok
  obtain ⟨own, terminal, ok⟩ := bind_ok ok
  split at ok
  · cases ok
  obtain ⟨childrenCount, counted, ok⟩ := bind_ok ok
  obtain ⟨found, listed, ok⟩ := bind_ok ok
  cases ok
  obtain ⟨children, stop, below, read, all, rfl⟩ := process_children_ok listed
  refine ⟨⟨payload, terminalSize, own, children, stop⟩, below, ?_, ?_, rfl⟩
  · have isOwn : readOwn region name terminalSize payload = .ok own := terminal
    simp only [readNode, bind, Except.bind, sized, isOwn, counted, read]
  apply List.Forall₂.imp _ all
  rintro child found ⟨text, isText, recursed⟩
  rw [isText]
  exact recursed

def search (region : Region) (fuel : Nat) (call : NodeCall) : Except Fault (List EntryWithOffset) :=
  processExportNode region fuel call.1 call.2

theorem unfolds (region : Region) : Unfolds (expand region) (search region) where
  zero := by
    intro call result ok
    cases ok
  succ := by
    intro fuel call result ok
    obtain ⟨_, shape, below, read, all, rfl⟩ := process_export_node_ok ok
    refine ⟨shape.own, shape.children, below, ?_, all, rfl⟩
    simp only [expand, read, Except.map]

end Unfolding

section Inside

variable {region : Region}

theorem load_byte_ok {address : Nat} {byte : UInt8} (ok : loadByte region address = .ok byte) :
    region.start ≤ address ∧ address < region.finish := by
  unfold loadByte at ok
  split at ok
  next loaded =>
    unfold Region.load at loaded
    split at loaded
    next low =>
      have inside := (List.getElem?_eq_some_iff.mp loaded).1
      unfold Region.finish
      omega
    · cases loaded
  · cases ok

theorem read_uleb_from_ok : ∀ {rounds p bit result value stop : Nat},
    readUlebFrom region rounds p bit result = .ok (value, stop) →
    region.start ≤ p ∧ p < stop ∧ stop ≤ region.finish := by
  intro rounds
  induction rounds with
  | zero =>
    intro p bit result value stop ok
    cases ok
  | succ rounds ih =>
    intro p bit result value stop ok
    rw [readUlebFrom] at ok
    split at ok
    · cases ok
    obtain ⟨byte, loaded, ok⟩ := bind_ok ok
    obtain ⟨low, high⟩ := load_byte_ok loaded
    dsimp only at ok
    split at ok
    · cases ok
    split at ok
    · obtain ⟨_, less, inside⟩ := ih ok
      exact ⟨low, by omega, inside⟩
    · cases ok
      exact ⟨low, by omega, high⟩

theorem read_uleb_ok {p value stop : Nat} (ok : readUleb128 region p = .ok (value, stop)) :
    region.start ≤ p ∧ p < stop ∧ stop ≤ region.finish :=
  read_uleb_from_ok ok

theorem read_edge_ok {offset s stop : Nat} {edge : List UInt8}
    (ok : readEdge region offset s = .ok (edge, stop)) :
    region.cstringAt s = some edge ∧ stop = s + edge.length + 1 := by
  unfold readEdge at ok
  split at ok
  · cases ok
  rename_i text found
  split at ok
  · cases ok
    exact ⟨found, rfl⟩
  · cases ok

theorem read_children_ok : ∀ {count s stop : Nat} {children : List NodeCall},
    readChildren region name count s = .ok (children, stop) →
    s ≤ stop ∧ (s ≤ region.finish → stop ≤ region.finish) := by
  intro count
  induction count with
  | zero =>
    intro s stop children ok
    cases ok
    exact ⟨le_rfl, id⟩
  | succ count ih =>
    intro s stop children ok
    obtain ⟨⟨edge, s₁⟩, edged, ok⟩ := bind_ok ok
    obtain ⟨⟨offset, s₂⟩, read, ok⟩ := bind_ok ok
    dsimp only at ok
    split at ok
    · cases ok
    obtain ⟨⟨later, last⟩, listed, ok⟩ := bind_ok ok
    cases ok
    obtain ⟨_, rfl⟩ := read_edge_ok edged
    obtain ⟨_, less, inside⟩ := read_uleb_ok read
    obtain ⟨further, within⟩ := ih listed
    exact ⟨by omega, fun _ => within inside⟩

theorem read_children_addresses {name' : List UInt8} :
    ∀ {count s stop stop' : Nat} {children children' : List NodeCall},
      readChildren region name count s = .ok (children, stop) →
      readChildren region name' count s = .ok (children', stop') →
      children.map Prod.fst = children'.map Prod.fst := by
  intro count
  induction count with
  | zero =>
    intro s stop stop' children children' ok ok'
    cases ok
    cases ok'
    rfl
  | succ count ih =>
    intro s stop stop' children children' ok ok'
    obtain ⟨⟨edge, s₁⟩, edged, ok⟩ := bind_ok ok
    obtain ⟨⟨edge', s₁'⟩, edged', ok'⟩ := bind_ok ok'
    obtain ⟨found, rfl⟩ := read_edge_ok edged
    obtain ⟨found', rfl⟩ := read_edge_ok edged'
    rw [found] at found'
    cases found'
    obtain ⟨⟨offset, s₂⟩, read, ok⟩ := bind_ok ok
    obtain ⟨⟨offset', s₂'⟩, read', ok'⟩ := bind_ok ok'
    rw [read] at read'
    cases read'
    dsimp only at ok ok'
    split at ok
    · cases ok
    rename_i nonzero
    rw [if_neg nonzero] at ok'
    obtain ⟨⟨later, last⟩, listed, ok⟩ := bind_ok ok
    obtain ⟨⟨later', last'⟩, listed', ok'⟩ := bind_ok ok'
    cases ok
    cases ok'
    rw [map_cons, map_cons, ih listed listed']

theorem read_node_ok {call : NodeCall} {shape : NodeShape} (ok : readNode region call = .ok shape) :
    readUleb128 region call.1 = .ok (shape.terminalSize, shape.payload) ∧
      readOwn region call.2 shape.terminalSize shape.payload = .ok shape.own ∧
      ∃ childrenCount,
        loadByte region ((shape.payload + shape.terminalSize) % 2 ^ 64) = .ok childrenCount ∧
        readChildren region (call.2.getD []) childrenCount.toNat
          ((shape.payload + shape.terminalSize) % 2 ^ 64 + 1) =
            .ok (shape.children, shape.stop) := by
  obtain ⟨⟨terminalSize, payload⟩, sized, ok⟩ := bind_ok ok
  obtain ⟨own, terminal, ok⟩ := bind_ok ok
  obtain ⟨childrenCount, counted, ok⟩ := bind_ok ok
  obtain ⟨⟨children, stop⟩, listed, ok⟩ := bind_ok ok
  cases ok
  exact ⟨sized, terminal, childrenCount, counted, listed⟩

theorem expand_ok {call : NodeCall} {own : List EntryWithOffset} {children : List NodeCall}
    (ok : expand region call = .ok (own, children)) :
    ∃ shape, readNode region call = .ok shape ∧ shape.own = own ∧ shape.children = children := by
  obtain ⟨shape, read, ⟨⟩⟩ := map_ok ok
  exact ⟨shape, read, rfl, rfl⟩

theorem depends_on_address (region : Region) :
    DependsOnKey (Prod.fst : NodeCall → Nat) (expand region) := by
  intro node other own children own' children' same expanded expanded'
  obtain ⟨shape, read, _, rfl⟩ := expand_ok expanded
  obtain ⟨shape', read', _, rfl⟩ := expand_ok expanded'
  obtain ⟨sized, _, count, counted, listed⟩ := read_node_ok read
  obtain ⟨sized', _, count', counted', listed'⟩ := read_node_ok read'
  rw [same, sized'] at sized
  have shapes := Except.ok.inj sized
  rw [Prod.mk.injEq] at shapes
  rw [shapes.1, shapes.2, counted] at counted'
  cases counted'
  rw [shapes.1, shapes.2] at listed'
  exact read_children_addresses listed listed'

end Inside

section WellRead

/-- The calls of `processExportNode` in a run that returns. -/
def Visited (region : Region) (call : NodeCall) : Prop :=
  region.bytes ≠ [] ∧ ∃ depth, Path (expand region) depth (region.start, none) call

/-- The node with its terminal information, child count, edges and offsets is in the buffer. -/
structure Inside (region : Region) (address : Nat) (shape : NodeShape) : Prop where
  low : region.start ≤ address
  sized : address < shape.payload
  counted : shape.payload + shape.terminalSize < shape.stop
  high : shape.stop ≤ region.finish
  imports : ∀ own ∈ shape.own, ∀ importName, own.entry.importName = some importName →
    (region.cstringAt importName).isSome = true

structure WellRead (region : Region) (entries : List Entry) : Prop where
  readable : ∀ call, Visited region call → ∃ shape, readNode region call = .ok shape
  inside : ∀ call shape, Visited region call → readNode region call = .ok shape →
    Inside region call.1 shape
  acyclic : ∀ call depth last, Visited region call →
    Path (expand region) (depth + 1) call last → last.1 ≠ call.1
  entries : ∀ entry, entry ∈ entries ↔ ∃ call shape own, Visited region call ∧
    readNode region call = .ok shape ∧ own ∈ shape.own ∧ own.entry = entry
  named : ∀ call shape own, readNode region call = .ok shape → own ∈ shape.own →
    call.2 = some own.entry.name

/-- The trie is rejected, or read as it is. -/
def RejectsMalformed (region : Region) : Prop :=
  (∃ message, parseTrie region = .error (.thrown message)) ∨
    ∃ entries, parseTrie region = .ok entries ∧ WellRead region entries

variable {region : Region} {own : EntryWithOffset}

theorem read_terminal_name {p : Nat} (ok : readTerminal region name p = .ok own) :
    own.entry.name = name := by
  obtain ⟨⟨flags, p₁⟩, _, ok⟩ := bind_ok ok
  dsimp only at ok
  split at ok
  · obtain ⟨⟨other, p₂⟩, _, ok⟩ := bind_ok ok
    cases ok
    rfl
  obtain ⟨⟨address, p₂⟩, _, ok⟩ := bind_ok ok
  split at ok
  · obtain ⟨⟨other, p₃⟩, _, ok⟩ := bind_ok ok
    cases ok
    rfl
  · cases ok
    rfl

theorem read_own_name {name : Option (List UInt8)} {terminalSize payload : Nat}
    {owned : List EntryWithOffset} (ok : readOwn region name terminalSize payload = .ok owned)
    (isIn : own ∈ owned) : name = some own.entry.name := by
  unfold readOwn at ok
  split at ok
  · cases name with
    | none => cases ok
    | some text =>
      obtain ⟨entry, read, rfl⟩ := map_ok ok
      rw [mem_singleton.mp isIn, read_terminal_name read]
  · cases ok
    cases isIn

variable {entries : List Entry}

theorem parse_trie_ok (nonempty : region.bytes ≠ []) (ok : parseTrie region = .ok entries) :
    ∃ found, search region (region.bytes.length + 1) (region.start, none) = .ok found ∧
      ∀ entry, entry ∈ entries ↔ ∃ own ∈ found, own.entry = entry := by
  unfold parseTrie at ok
  rw [if_neg nonempty] at ok
  obtain ⟨found, searched, ok⟩ := bind_ok ok
  cases ok
  refine ⟨found, searched, ?_⟩
  intro entry
  rw [mem_map]
  constructor
  · rintro ⟨own, isIn, isEntry⟩
    exact ⟨own, mem_mergeSort.mp isIn, isEntry⟩
  · rintro ⟨own, isIn, isEntry⟩
    exact ⟨own, mem_mergeSort.mpr isIn, isEntry⟩

/-- No visited node has a terminal size for which the sum wraps around the address space, and
the import names of the visited terminals end in the buffer. -/
def Ended (region : Region) : Prop :=
  ∀ call shape, Visited region call → readNode region call = .ok shape →
    shape.payload + shape.terminalSize < 2 ^ 64 ∧ ∀ own ∈ shape.own, ∀ importName,
      own.entry.importName = some importName → (region.cstringAt importName).isSome = true

theorem well_read_of_ok (ok : parseTrie region = .ok entries) (ended : Ended region) :
    WellRead region entries := by
  have named (call : NodeCall) (shape : NodeShape) (own : EntryWithOffset)
      (read : readNode region call = .ok shape) (isIn : own ∈ shape.own) :
      call.2 = some own.entry.name :=
    read_own_name (read_node_ok read).2.1 isIn
  by_cases empty : region.bytes = []
  · have noEntries : entries = [] := by
      unfold parseTrie at ok
      rw [if_pos empty] at ok
      cases ok
      rfl
    constructor
    · rintro call ⟨nonempty, _⟩
      exact absurd empty nonempty
    · rintro call shape ⟨nonempty, _⟩
      exact absurd empty nonempty
    · rintro call depth last ⟨nonempty, _⟩
      exact absurd empty nonempty
    · intro entry
      rw [noEntries]
      constructor
      · intro isIn
        cases isIn
      · rintro ⟨_, _, _, ⟨nonempty, _⟩, _⟩
        exact absurd empty nonempty
    · exact named
  · obtain ⟨found, searched, listed⟩ := parse_trie_ok empty ok
    have ran {call : NodeCall} (visited : Visited region call) :
        ∃ rest result, search region (rest + 1) call = .ok result := by
      obtain ⟨_, depth, path⟩ := visited
      obtain ⟨rest, result, _, ran⟩ := searched_below (unfolds region) path searched
      exact ⟨rest, result, ran⟩
    have isEntry (entry : Entry) : entry ∈ entries ↔ ∃ call shape own, Visited region call ∧
        readNode region call = .ok shape ∧ own ∈ shape.own ∧ own.entry = entry := by
      rw [listed]
      constructor
      · rintro ⟨own, isIn, same⟩
        obtain ⟨depth, call, owned, children, path, expanded, yields⟩ :=
          (yielded_iff (unfolds region) searched own).mp isIn
        obtain ⟨shape, read, rfl, _⟩ := expand_ok expanded
        exact ⟨call, shape, own, ⟨empty, depth, path⟩, read, yields, same⟩
      · rintro ⟨call, shape, own, ⟨_, depth, path⟩, read, yields, same⟩
        refine ⟨own, (yielded_iff (unfolds region) searched own).mpr ?_, same⟩
        refine ⟨depth, call, shape.own, shape.children, path, ?_, yields⟩
        simp only [expand, read, Except.map]
    constructor
    · intro call visited
      obtain ⟨rest, result, ran⟩ := ran visited
      obtain ⟨own, children, expanded⟩ := expands_of_search (unfolds region) ran
      obtain ⟨shape, read, _⟩ := expand_ok expanded
      exact ⟨shape, read⟩
    · intro call shape visited read
      obtain ⟨fits, imports⟩ := ended call shape visited read
      obtain ⟨sized, _, count, counted, children⟩ := read_node_ok read
      obtain ⟨low, less, _⟩ := read_uleb_ok sized
      obtain ⟨_, high⟩ := load_byte_ok counted
      obtain ⟨further, within⟩ := read_children_ok children
      exact ⟨low, less, by omega, within (by omega), imports⟩
    · intro call depth last visited path
      obtain ⟨rest, result, ran⟩ := ran visited
      exact key_not_below (unfolds region) (depends_on_address region) ran path
    · exact isEntry
    · exact named

theorem WellRead.ended (wellRead : WellRead region entries) : Ended region := by
  intro call shape visited read
  have inside := wellRead.inside call shape visited read
  have low := inside.counted
  have high := inside.high
  have fits := region.fits
  unfold Region.finish at high
  exact ⟨by omega, inside.imports⟩

end WellRead

end DeveloperTools.Ld64.MachOTrie
