import DeveloperTools.Lib.Leb128
import DeveloperTools.Lib.OffsetAssignment

/-!
A transcription of `GenericTrie` and `ExportsTrie` from `mach_o/ExportsTrie.cpp`.
The nodes own their children and no node is shared, so the pointer structure is
a tree; `index` is the position a node got in the vector `allNodes` when it was
created. `trieOffset` lives in a table over these positions, because the passes
that compute it read the offsets of other nodes. Names are byte strings and the
byte one past a name is the NUL of the C string it views.
-/

namespace DeveloperTools.Ld64.ExportsTrie

abbrev Bytes := List UInt8

/-- `GenericTrie::WriterEntry`: the payload is a stride of 32-bit offset and
size into the shared terminal buffer. -/
structure WriterEntry where
  name : Bytes := []
  strideOffset : Nat := 0
  strideSize : Nat := 0
deriving DecidableEq, Repr

def WriterEntry.payload (entry : WriterEntry) (terminalBuffer : Bytes) : Bytes :=
  (terminalBuffer.drop entry.strideOffset).take entry.strideSize

mutual

inductive Node where
  | mk (index : Nat) (cummulativeString : Bytes) (terminalEntry : WriterEntry) (children : Edges)

inductive Edges where
  | nil
  | cons (partialString : Bytes) (child : Node) (rest : Edges)

end

def Node.index : Node → Nat
  | .mk index _ _ _ => index

def Node.cummulativeString : Node → Bytes
  | .mk _ cummulativeString _ _ => cummulativeString

def Node.terminalEntry : Node → WriterEntry
  | .mk _ _ terminalEntry _ => terminalEntry

def Node.children : Node → Edges
  | .mk _ _ _ children => children

def Edges.toList : Edges → List (Bytes × Node)
  | .nil => []
  | .cons partialString child rest => (partialString, child) :: rest.toList

def Edges.pushBack (edges : Edges) (partialString : Bytes) (child : Node) : Edges :=
  match edges with
  | .nil => .cons partialString child .nil
  | .cons label node rest => .cons label node (rest.pushBack partialString child)

/-- `unfinished` stands for a descent deeper than the fuel allows. -/
inductive BuildFault where
  | duplicateSymbol (name : Bytes)
  | unfinished
deriving DecidableEq, Repr

def firstChar (str : Bytes) : UInt8 := str.headD 0

/-- The inner loop of `addEntry`, from the given length downwards. -/
def spliceLength (partialString tail : Bytes) : Nat → Option Nat
  | 0 => none
  | len + 1 =>
    if partialString.take (len + 1) = tail.take (len + 1) then some (len + 1)
    else spliceLength partialString tail len

/-- The loop of `addEntry` over the children of a node whose cumulative string
has `depth` bytes; `none` when no edge was followed or spliced. `recurse` is the
recursive call, given the size of `allNodes`. -/
def Edges.addEntry (recurse : Nat → Node → Except BuildFault (Node × Nat)) (newEntry : WriterEntry)
    (depth : Nat) (tail : Bytes) (allNodes : Nat) : Edges → Except BuildFault (Option (Edges × Nat))
  | .nil => .ok none
  | .cons partialString child rest =>
    let next : Except BuildFault (Option (Edges × Nat)) :=
      (rest.addEntry recurse newEntry depth tail allNodes).map fun found =>
        found.map fun result => (.cons partialString child result.1, result.2)
    if firstChar partialString ≠ firstChar tail then next
    else if partialString.isPrefixOf tail then
      (recurse allNodes child).map fun result =>
        some (.cons partialString result.1 rest, result.2)
    else
      match spliceLength partialString tail (partialString.length - 1) with
      | some len =>
        -- was A--foo-->B, now A--f-->C--oo-->B, and the entry goes below C
        let cNode : Node := .mk allNodes (newEntry.name.take (depth + len)) {}
          (.cons (partialString.drop len) child .nil)
        (recurse (allNodes + 1) cNode).map fun result =>
          some (.cons (partialString.take len) result.1 rest, result.2)
      | none => next

/-- `GenericTrie::Node::addEntry`, with the size of `allNodes` threaded through. -/
def Node.addEntry (newEntry : WriterEntry) : Nat → Nat → Node → Except BuildFault (Node × Nat)
  | 0, _, _ => .error .unfinished
  | fuel + 1, allNodes, .mk index cummulativeString terminalEntry children =>
    let tail := newEntry.name.drop cummulativeString.length
    match children.addEntry (Node.addEntry newEntry fuel) newEntry cummulativeString.length tail
        allNodes with
    | .error fault => .error fault
    | .ok (some (grown, count)) =>
      .ok (.mk index cummulativeString terminalEntry grown, count)
    | .ok none =>
      if tail = [] ∧ terminalEntry.strideSize ≠ 0 then
        .error (.duplicateSymbol newEntry.name)
      else
        .ok (.mk index cummulativeString terminalEntry
          (children.pushBack tail (.mk allNodes newEntry.name newEntry .nil)), allNodes + 1)

def startNode : Node := .mk 0 [] {} .nil

/-- Every descent follows a non-empty edge, except a last one along an empty
edge, so this fuel is enough. -/
def spliceIn (state : Node × Nat) (newEntry : WriterEntry) : Except BuildFault (Node × Nat) :=
  state.1.addEntry newEntry (newEntry.name.length + 2) state.2

def spliceAll (entries : List WriterEntry) : Except BuildFault (Node × Nat) :=
  entries.foldlM spliceIn (startNode, 1)

structure Record where
  index : Nat
  terminalEntry : WriterEntry
  children : List (Bytes × Nat)
deriving DecidableEq, Repr

def Edges.targets : Edges → List (Bytes × Nat)
  | .nil => []
  | .cons partialString child rest => (partialString, child.index) :: rest.targets

mutual

def Node.records : Node → List Record
  | .mk index _ terminalEntry children =>
    { index := index, terminalEntry := terminalEntry, children := children.targets } ::
      children.records

def Edges.records : Edges → List Record
  | .nil => []
  | .cons _ child rest => child.records ++ rest.records

end

/-- The vector `allNodes`: the nodes in the order of their creation. -/
def allNodes (start : Node) : List Record :=
  start.records.mergeSort fun left right => left.index ≤ right.index

/-- `nodeSize` of `updateOffset`, a `uint32_t`. -/
def Record.nodeSize (trieOffset : Nat → Nat) (node : Record) : Nat :=
  (if node.terminalEntry.name ≠ [] then
      node.terminalEntry.strideSize + Leb128.size node.terminalEntry.strideSize
    else 1) + 1 +
    (node.children.map fun edge => edge.1.length + 1 + Leb128.size (trieOffset edge.2)).sum

/-- The do-while loop of `buildTrieBytes` over `updateOffset`. A repeated pass
raises one of the 32-bit offsets, which gives the number of passes allowed. -/
def settleOffsets (nodes : List Record) : Option (Nat → Nat) :=
  OffsetAssignment.settle Record.index Record.nodeSize (2 ^ 32) nodes
    (2 ^ 32 * nodes.length + 1) (fun _ => 0)

def appendString (str : Bytes) : Bytes := str ++ [0]

/-- `GenericTrie::Node::appendToStream`. The number of children is one byte. -/
def Record.appendToStream (terminalBuffer : Bytes) (trieOffset : Nat → Nat) (node : Record) :
    Bytes :=
  (if node.terminalEntry.name ≠ [] then
      Leb128.encode node.terminalEntry.strideSize ++ node.terminalEntry.payload terminalBuffer
    else [0]) ++
    UInt8.ofNat node.children.length ::
      (node.children.map fun edge =>
        appendString edge.1 ++ Leb128.encode (trieOffset edge.2)).flatten

/-- The stream loop; `none` when its assertion fails. -/
def createStream (terminalBuffer : Bytes) (trieOffset : Nat → Nat) :
    List Record → Bytes → Option Bytes
  | [], trieBytes => some trieBytes
  | node :: rest, trieBytes =>
    if trieOffset node.index = trieBytes.length then
      createStream terminalBuffer trieOffset rest
        (trieBytes ++ node.appendToStream terminalBuffer trieOffset)
    else none

def padToEight (bytes : Bytes) : Bytes := bytes ++ List.replicate ((8 - bytes.length % 8) % 8) 0

/-- What became of a build: a build error, an endless loop or a failed
assertion, or the bytes. -/
inductive BuildResult where
  | buildError (fault : BuildFault)
  | stuck
  | bytes (trie : Bytes)
deriving DecidableEq, Repr

def buildTrieBytes (terminalBuffer : Bytes) (entries : List WriterEntry) : BuildResult :=
  match spliceAll entries with
  | .error fault => .buildError fault
  | .ok (start, _) =>
    match settleOffsets (allNodes start) with
    | none => .stuck
    | some trieOffset =>
      match createStream terminalBuffer trieOffset (allNodes start) [] with
      | none => .stuck
      | some trieBytes => .bytes (padToEight trieBytes)

structure Export where
  name : Bytes
  offset : UInt64 := 0
  flags : UInt64 := 0
  other : UInt64 := 0
  importName : Bytes := []
deriving DecidableEq, Repr

def reexportFlag : Nat := 0x08

def stubAndResolverFlag : Nat := 0x10

def Export.isReexport (info : Export) : Bool := info.flags.toNat &&& reexportFlag ≠ 0

def Export.isStubAndResolver (info : Export) : Bool := info.flags.toNat &&& stubAndResolverFlag ≠ 0

/-- The import name written: a re-export that keeps its name has an empty one. -/
def Export.writtenImportName (info : Export) : Bytes :=
  if info.importName = info.name then [] else info.importName

/-- The bytes `exportToEntry` appends to the buffer. -/
def Export.terminal (info : Export) : Bytes :=
  if info.name = [] then []
  else if info.isReexport then
    Leb128.encode info.flags.toNat ++ Leb128.encode info.other.toNat ++
      appendString info.writtenImportName
  else if info.isStubAndResolver then
    Leb128.encode info.flags.toNat ++ Leb128.encode info.offset.toNat ++
      Leb128.encode info.other.toNat
  else
    Leb128.encode info.flags.toNat ++ Leb128.encode info.offset.toNat

def exportToEntry (temp : Bytes) (info : Export) : WriterEntry :=
  { name := info.name
    strideOffset := temp.length % 2 ^ 32
    strideSize := info.terminal.length % 2 ^ 32 }

def exportEntries (temp : Bytes) : List Export → List WriterEntry
  | [] => []
  | info :: rest => exportToEntry temp info :: exportEntries (temp ++ info.terminal) rest

def terminalBytes (exports : List Export) : Bytes := (exports.map Export.terminal).flatten

def exportsTrie (exports : List Export) : BuildResult :=
  buildTrieBytes (terminalBytes exports) (exportEntries [] exports)

end DeveloperTools.Ld64.ExportsTrie
