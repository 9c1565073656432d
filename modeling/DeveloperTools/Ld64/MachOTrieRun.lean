import DeveloperTools.Lib.OrderedSearch
import DeveloperTools.Ld64.MachOTrieSound

/-!
The order in which the trie is read. Reading a node leads to its children one after the other, and
whether the next of them is come to is decided by the bytes of those before it. The reader rejects
what is malformed for the buffers in which nothing it comes to is broken and no node it comes to is
below itself.
-/

namespace DeveloperTools.Ld64.MachOTrie

open Memory FailingFold OrderedSearch
open List

/-- What is still to be read: a node, or the edges left of a node whose name is known. -/
inductive Task where
  | node (call : NodeCall)
  | rest (cummulativeString : List UInt8) (count s : Nat)

namespace Task

def cost : Task → Nat
  | node _ => 1
  | rest _ _ _ => 0

def address : Task → Nat
  | node call => call.1
  | rest _ _ s => s

def nameLength : Task → Nat
  | node call => (call.2.getD []).length
  | rest cummulativeString _ _ => cummulativeString.length

end Task

/-- What is read before the next node, and what that leads to. -/
def head (region : Region) : Task → Except Fault (List EntryWithOffset × List Task)
  | .node (p, name) =>
    if region.finish ≤ p then .error (.thrown "malformed trie, node past end")
    else do
      let (terminalSize, p₁) ← readUleb128 region p
      let own ← readOwn region name terminalSize p₁
      if region.finish < (p₁ + terminalSize) % 2 ^ 64 then
        .error (.thrown "malformed trie, terminalSize extends beyond trie data")
      else
        let childrenCount ← loadByte region ((p₁ + terminalSize) % 2 ^ 64)
        .ok (own, [.rest (name.getD []) childrenCount.toNat ((p₁ + terminalSize) % 2 ^ 64 + 1)])
  | .rest _ 0 _ => .ok ([], [])
  | .rest cummulativeString (count + 1) s => do
    let (edge, s₁) ← readEdge region cummulativeString.length s
    let (offset, s₂) ← readUleb128 region s₁
    if offset % 2 ^ 32 = 0 then .error (.thrown "malformed trie, childNodeOffset==0")
    else
      .ok ([], [.node ((region.start + offset % 2 ^ 32) % 2 ^ 64, some (cummulativeString ++ edge)),
        .rest cummulativeString count s₂])

def perform (region : Region) (fuel : Nat) : Task → Except Fault (List EntryWithOffset)
  | .node call => processExportNode region fuel call.1 call.2
  | .rest cummulativeString count s => processChildren region
      (fun child edge => processExportNode region fuel child (some edge)) cummulativeString count s

def root (region : Region) : Task := .node (region.start, none)

section Order

variable {region : Region}

theorem read_uleb_from_ends : ∀ {rounds p bit result : Nat}, bit ≤ 70 → 70 < bit + 7 * rounds →
    readUlebFrom region rounds p bit result ≠ .error .endlessRecursion := by
  intro rounds
  induction rounds with
  | zero => omega
  | succ rounds ih =>
    intro p bit result small enough
    rw [readUlebFrom]
    split
    · exact fun fails => by cases fails
    refine bind_ne_error ?_ fun byte _ => ?_
    · unfold loadByte
      split <;> exact fun fails => by cases fails
    dsimp only
    split
    · exact fun fails => by cases fails
    split
    · exact ih (by omega) (by omega)
    · exact fun fails => by cases fails

theorem read_uleb_ends (p : Nat) : readUleb128 region p ≠ .error .endlessRecursion :=
  read_uleb_from_ends (by omega) (by omega)

theorem load_byte_inside {address : Nat} (low : region.start ≤ address)
    (high : address < region.finish) : ∃ byte, loadByte region address = .ok byte := by
  have within : address - region.start < region.bytes.length := by
    unfold Region.finish at high
    omega
  refine ⟨region.bytes[address - region.start], ?_⟩
  rw [loadByte, Region.load, if_pos low, getElem?_eq_getElem within]

theorem load_byte_undefined {address : Nat} :
    loadByte region address = .error .undefinedBehavior ↔
      address < region.start ∨ region.finish ≤ address := by
  constructor
  · intro undefined
    by_contra inside
    rw [not_or, not_lt, not_le] at inside
    obtain ⟨byte, loaded⟩ := load_byte_inside inside.1 inside.2
    rw [loaded] at undefined
    cases undefined
  · intro outside
    cases loaded : loadByte region address with
    | ok byte =>
      have inside := load_byte_ok loaded
      omega
    | error fault =>
      unfold loadByte at loaded
      split at loaded
      · cases loaded
      · rw [← loaded]

theorem read_uleb_from_defined : ∀ {rounds p bit result : Nat}, region.start ≤ p →
    p ≤ region.finish → readUlebFrom region rounds p bit result ≠ .error .undefinedBehavior := by
  intro rounds
  induction rounds with
  | zero => exact fun _ _ fails => by cases fails
  | succ rounds ih =>
    intro p bit result low high
    rw [readUlebFrom]
    split
    · exact fun fails => by cases fails
    rename_i notEnd
    obtain ⟨byte, loaded⟩ := load_byte_inside low (by omega)
    rw [loaded]
    refine bind_ne_error (fun fails => by cases fails) fun byte _ => ?_
    dsimp only
    split
    · exact fun fails => by cases fails
    split
    · exact ih (by omega) (by omega)
    · exact fun fails => by cases fails

theorem read_uleb_defined {p : Nat} (low : region.start ≤ p) (high : p ≤ region.finish) :
    readUleb128 region p ≠ .error .undefinedBehavior :=
  read_uleb_from_defined low high

theorem read_terminal_fault {fault : Fault} {p : Nat} {name : List UInt8}
    (read : ∀ q, region.start ≤ q → q ≤ region.finish → readUleb128 region q ≠ .error fault)
    (low : region.start ≤ p) (high : p ≤ region.finish) :
    readTerminal region name p ≠ .error fault := by
  refine bind_ne_error (read p low high) fun ⟨flags, p₁⟩ first => ?_
  obtain ⟨_, less₁, inside₁⟩ := read_uleb_ok first
  dsimp only
  split
  · refine bind_ne_error (read p₁ (by omega) inside₁) fun ⟨other, p₂⟩ _ => ?_
    exact fun fails => by cases fails
  · refine bind_ne_error (read p₁ (by omega) inside₁) fun ⟨address, p₂⟩ second => ?_
    obtain ⟨_, less₂, inside₂⟩ := read_uleb_ok second
    dsimp only
    split
    · refine bind_ne_error (read p₂ (by omega) inside₂) fun ⟨other, p₃⟩ _ => ?_
      exact fun fails => by cases fails
    · exact fun fails => by cases fails

theorem read_own_fault {fault : Fault} {size payload : Nat} {name : Option (List UInt8)}
    (read : ∀ q, region.start ≤ q → q ≤ region.finish → readUleb128 region q ≠ .error fault)
    (low : region.start ≤ payload) (high : payload ≤ region.finish)
    (failed : readOwn region name size payload = .error fault) :
    fault = .undefinedBehavior ∧ size ≠ 0 ∧ name = none := by
  unfold readOwn at failed
  split at failed
  · rename_i terminal
    cases name with
    | none => exact ⟨(Except.error.inj failed).symm, terminal, rfl⟩
    | some text =>
      have failed : (readTerminal region text payload).map (fun entry => [entry]) = .error fault :=
        failed
      cases terminal : readTerminal region text payload with
      | error other =>
        rw [terminal] at failed
        cases failed
        exact absurd terminal (read_terminal_fault read low high)
      | ok entry =>
        rw [terminal] at failed
        cases failed
  · cases failed

theorem head_ends (task : Task) : head region task ≠ .error .endlessRecursion := by
  have uleb (q : Nat) : readUleb128 region q ≠ .error .endlessRecursion := read_uleb_ends q
  have loads (q : Nat) : loadByte region q ≠ .error .endlessRecursion := by
    unfold loadByte
    split <;> exact fun fails => by cases fails
  match task with
  | .node (p, name) =>
    rw [head]
    split
    · exact fun fails => by cases fails
    refine bind_ne_error (uleb p) fun ⟨size, payload⟩ sized => ?_
    obtain ⟨low, less, high⟩ := read_uleb_ok sized
    refine bind_ne_error (fun fails => ?_) fun own _ => ?_
    · cases (read_own_fault (fun q _ _ => uleb q) (by omega) high fails).1
    split
    · exact fun fails => by cases fails
    refine bind_ne_error (loads _) fun count _ => ?_
    exact fun fails => by cases fails
  | .rest _ 0 _ => exact fun fails => by cases fails
  | .rest name (count + 1) s =>
    rw [head]
    refine bind_ne_error ?_ fun ⟨edge, s₁⟩ _ => ?_
    · unfold readEdge
      split
      · exact fun fails => by cases fails
      split <;> exact fun fails => by cases fails
    refine bind_ne_error (uleb s₁) fun ⟨offset, s₂⟩ _ => ?_
    dsimp only
    split <;> exact fun fails => by cases fails

theorem process_export_node_succ (fuel p : Nat) (name : Option (List UInt8)) :
    processExportNode region (fuel + 1) p name =
      (if region.finish ≤ p then .error (.thrown "malformed trie, node past end")
      else do
        let (terminalSize, p₁) ← readUleb128 region p
        let own ← readOwn region name terminalSize p₁
        if region.finish < (p₁ + terminalSize) % 2 ^ 64 then
          .error (.thrown "malformed trie, terminalSize extends beyond trie data")
        else
          let childrenCount ← loadByte region ((p₁ + terminalSize) % 2 ^ 64)
          let below ← processChildren region
            (fun child edge => processExportNode region fuel child (some edge))
            (name.getD []) childrenCount.toNat ((p₁ + terminalSize) % 2 ^ 64 + 1)
          .ok (own ++ below)) :=
  rfl

theorem perform_node (fuel : Nat) (call : NodeCall) : perform region (fuel + 1) (.node call) =
    (head region (.node call)).bind fun found =>
      (performAll (perform region fuel) found.2).map (found.1 ++ ·) := by
  obtain ⟨p, name⟩ := call
  rw [perform, process_export_node_succ, head]
  split
  · rfl
  cases readUleb128 region p with
  | error fault => rfl
  | ok sized =>
    obtain ⟨size, payload⟩ := sized
    simp only [bind, Except.bind]
    cases readOwn region name size payload with
    | error fault => rfl
    | ok own =>
      dsimp only
      split
      · rfl
      cases loadByte region ((payload + size) % 2 ^ 64) with
      | error fault => rfl
      | ok count =>
        simp only [performAll, perform, bind, Except.bind]
        cases processChildren region
          (fun child edge => processExportNode region fuel child (some edge))
          (name.getD []) count.toNat ((payload + size) % 2 ^ 64 + 1) with
        | error fault => rfl
        | ok below =>
          simp only [append_nil]
          rfl

theorem perform_rest (fuel : Nat) (name : List UInt8) (count s : Nat) :
    perform region fuel (.rest name count s) =
      (head region (.rest name count s)).bind fun found =>
        (performAll (perform region fuel) found.2).map (found.1 ++ ·) := by
  cases count with
  | zero => rfl
  | succ count =>
    rw [perform, processChildren, head]
    cases readEdge region name.length s with
    | error fault => rfl
    | ok edged =>
      obtain ⟨edge, s₁⟩ := edged
      simp only [bind, Except.bind]
      cases readUleb128 region s₁ with
      | error fault => rfl
      | ok read =>
        obtain ⟨offset, s₂⟩ := read
        dsimp only
        split
        · rfl
        simp only [performAll, perform, bind, Except.bind]
        cases processExportNode region fuel ((region.start + offset % 2 ^ 32) % 2 ^ 64)
          (some (name ++ edge)) with
        | error fault => rfl
        | ok below =>
          dsimp only
          cases processChildren region
            (fun child edge => processExportNode region fuel child (some edge))
            name count s₂ with
          | error fault => rfl
          | ok later =>
            simp only [append_nil]
            rfl

theorem head_node_tasks {call : NodeCall} {own : List EntryWithOffset} {tasks : List Task}
    (heads : head region (.node call) = .ok (own, tasks)) :
    region.start ≤ call.1 ∧ call.1 < region.finish ∧
      ∃ count s, tasks = [.rest (call.2.getD []) count s] := by
  obtain ⟨p, name⟩ := call
  rw [head] at heads
  split at heads
  · cases heads
  rename_i inside
  obtain ⟨⟨size, payload⟩, sized, heads⟩ := bind_ok heads
  obtain ⟨owned, _, heads⟩ := bind_ok heads
  split at heads
  · cases heads
  obtain ⟨count, _, heads⟩ := bind_ok heads
  cases heads
  exact ⟨(read_uleb_ok sized).1, by omega, _, _, rfl⟩

theorem head_rest_tasks {name : List UInt8} {count s : Nat} {own : List EntryWithOffset}
    {tasks : List Task} (heads : head region (.rest name (count + 1) s) = .ok (own, tasks)) :
    ∃ edge offset s₂, offset % 2 ^ 32 ≠ 0 ∧
      tasks = [.node ((region.start + offset % 2 ^ 32) % 2 ^ 64, some (name ++ edge)),
        .rest name count s₂] := by
  rw [head] at heads
  obtain ⟨⟨edge, s₁⟩, _, heads⟩ := bind_ok heads
  obtain ⟨⟨offset, s₂⟩, _, heads⟩ := bind_ok heads
  dsimp only at heads
  split at heads
  · cases heads
  rename_i nonzero
  cases heads
  exact ⟨edge, offset, s₂, nonzero, rfl⟩

/-- `processExportNode` and its loop read what the order of reading says. -/
theorem performs (region : Region) :
    Performs (head region) Task.cost .endlessRecursion (perform region) where
  costs task := by cases task <;> simp [Task.cost]
  zero task isCost := by
    cases task with
    | node call => rfl
    | rest name count s => cases isCost
  step fuel task := by
    cases task with
    | node call => exact perform_node fuel call
    | rest name count s => exact perform_rest fuel name count s
  tireless := head_ends
  induct := by
    intro motive zero step
    -- the nodes of one bound, then the edges of that bound one after the other
    have rests (fuel : Nat) (nodes : ∀ call, motive fuel (.node call)) (name : List UInt8) :
        ∀ count s, motive fuel (.rest name count s) := by
      intro count
      induction count with
      | zero =>
        intro s
        refine step fuel (.rest name 0 s) fun own tasks heads next isIn => ?_
        cases heads
        cases isIn
      | succ count ih =>
        intro s
        refine step fuel (.rest name (count + 1) s) fun own tasks heads next isIn => ?_
        obtain ⟨edge, offset, s₂, _, rfl⟩ := head_rest_tasks heads
        rcases mem_pair.mp isIn with rfl | rfl
        · exact nodes _
        · exact ih s₂
    have nodes (fuel : Nat) : ∀ call, motive fuel (.node call) := by
      induction fuel with
      | zero => exact fun call => zero (.node call) rfl
      | succ fuel ih =>
        intro call
        refine step fuel (.node call) fun own tasks heads next isIn => ?_
        obtain ⟨_, _, count, s, rfl⟩ := head_node_tasks heads
        rw [mem_singleton.mp isIn]
        exact rests fuel ih _ count s
    intro fuel task
    cases task with
    | node call => exact nodes fuel call
    | rest name count s => exact rests fuel (nodes fuel) name count s

end Order

section Broken

/-- Where reading goes outside the buffer: a node address that wrapped around to before it, a
terminal root, for which no name was written, a child count that would stand at its end or before
it, an edge without a NUL, and a name that does not fit in the name buffer or its `int` index. -/
def Broken (region : Region) : Task → Prop
  | .node (p, name) => p < region.finish ∧ (p < region.start ∨
      ∃ terminalSize payload, readUleb128 region p = .ok (terminalSize, payload) ∧
        (terminalSize ≠ 0 ∧ name = none ∨
          (∃ own, readOwn region name terminalSize payload = .ok own) ∧
          ((payload + terminalSize) % 2 ^ 64 = region.finish ∨
            (payload + terminalSize) % 2 ^ 64 < region.start)))
  | .rest _ 0 _ => False
  | .rest cummulativeString (_ + 1) s => region.cstringAt s = none ∨
      ∃ edge, region.cstringAt s = some edge ∧
        (region.bytes.length ≤ cummulativeString.length + edge.length ∨
          2 ^ 31 ≤ cummulativeString.length + edge.length)

variable {region : Region}

theorem read_uleb_before {p : Nat} (low : p < region.start) :
    readUleb128 region p = .error .undefinedBehavior := by
  have notEnd : ¬p = region.finish := by
    unfold Region.finish
    omega
  rw [readUleb128, readUlebFrom, if_neg notEnd, load_byte_undefined.mpr (.inl low)]
  rfl

theorem read_own_undefined {terminalSize payload : Nat} (terminal : terminalSize ≠ 0) :
    readOwn region none terminalSize payload = .error .undefinedBehavior := by
  rw [readOwn, if_pos terminal]

theorem broken_node_of_head {call : NodeCall}
    (undefined : head region (.node call) = .error .undefinedBehavior) :
    Broken region (.node call) := by
  obtain ⟨p, name⟩ := call
  rw [head] at undefined
  split at undefined
  · cases undefined
  rename_i inside
  refine ⟨by omega, ?_⟩
  by_cases before : p < region.start
  · exact .inl before
  refine .inr ?_
  rcases bind_error undefined with fails | ⟨⟨size, payload⟩, sized, undefined⟩
  · exact absurd fails (read_uleb_defined (by omega) (by omega))
  obtain ⟨low, less, high⟩ := read_uleb_ok sized
  refine ⟨size, payload, sized, ?_⟩
  rcases bind_error undefined with fails | ⟨own, isOwn, undefined⟩
  · refine .inl (read_own_fault (fun q low high => read_uleb_defined low high) ?_ high fails).2
    omega
  split at undefined
  · cases undefined
  rename_i within
  refine .inr ⟨⟨own, isOwn⟩, ?_⟩
  rcases bind_error undefined with fails | ⟨count, _, undefined⟩
  · have outside := load_byte_undefined.mp fails
    omega
  · cases undefined

theorem head_of_broken_node {call : NodeCall} (broken : Broken region (.node call)) :
    head region (.node call) = .error .undefinedBehavior := by
  obtain ⟨p, name⟩ := call
  obtain ⟨inside, cause⟩ := broken
  rw [head, if_neg (not_le.mpr inside)]
  rcases cause with before | ⟨size, payload, sized, cause⟩
  · rw [read_uleb_before before]
    rfl
  rw [sized]
  rcases cause with ⟨terminal, rfl⟩ | ⟨⟨own, isOwn⟩, counted⟩
  · simp only [bind, Except.bind, read_own_undefined terminal]
  have fits : ¬region.finish < (payload + size) % 2 ^ 64 := by
    unfold Region.finish at counted ⊢
    omega
  have outside : loadByte region ((payload + size) % 2 ^ 64) = .error .undefinedBehavior :=
    load_byte_undefined.mpr (by omega)
  simp only [bind, Except.bind, isOwn, if_neg fits, outside]

theorem broken_iff (task : Task) :
    head region task = .error .undefinedBehavior ↔ Broken region task := by
  match task with
  | .node call => exact ⟨broken_node_of_head, head_of_broken_node⟩
  | .rest name 0 s =>
    constructor
    · intro undefined
      cases undefined
    · exact False.elim
  | .rest name (count + 1) s =>
    rw [head, Broken]
    constructor
    · intro undefined
      rcases bind_error undefined with fails | ⟨⟨edge, s₁⟩, edged, undefined⟩
      · unfold readEdge at fails
        cases found : region.cstringAt s with
        | none => exact .inl rfl
        | some edge =>
          rw [found] at fails
          dsimp only at fails
          split at fails
          · cases fails
          · exact .inr ⟨edge, rfl, by omega⟩
      · obtain ⟨found, rfl⟩ := read_edge_ok edged
        rcases bind_error undefined with fails | ⟨⟨offset, s₂⟩, _, undefined⟩
        · have inside := Region.cstring_inside found
          exact absurd fails (read_uleb_defined (by omega) (by omega))
        · dsimp only at undefined
          split at undefined <;> cases undefined
    · intro broken
      have undefined : readEdge region name.length s = .error .undefinedBehavior := by
        unfold readEdge
        rcases broken with none | ⟨edge, found, long⟩
        · rw [none]
        · rw [found]
          dsimp only
          rw [if_neg (by omega)]
      rw [undefined]
      rfl

end Broken

section Repeated

/-- Reading from the same place with a name that is no shorter. -/
inductive Alike : Task → Task → Prop
  | node {p : Nat} {name longer : List UInt8} (grows : name.length ≤ longer.length) :
      Alike (.node (p, some name)) (.node (p, some longer))
  | rest {count s : Nat} {name longer : List UInt8} (grows : name.length ≤ longer.length) :
      Alike (.rest name count s) (.rest longer count s)

variable {region : Region}

theorem read_terminal_renamed (name other : List UInt8) (p : Nat) :
    readTerminal region other p = (readTerminal region name p).map fun found =>
      { found with entry := { found.entry with name := other } } := by
  unfold readTerminal
  cases readUleb128 region p with
  | error fault => rfl
  | ok first =>
    simp only [bind, Except.bind]
    split
    · cases readUleb128 region first.2 with
      | error fault => rfl
      | ok second => rfl
    · cases readUleb128 region first.2 with
      | error fault => rfl
      | ok second =>
        dsimp only
        split
        · cases readUleb128 region second.2 with
          | error fault => rfl
          | ok third => rfl
        · rfl

theorem read_own_renamed {name : List UInt8} (other : List UInt8) {size payload : Nat}
    {own : List EntryWithOffset} (ok : readOwn region (some name) size payload = .ok own) :
    ∃ own', readOwn region (some other) size payload = .ok own' := by
  unfold readOwn at ok ⊢
  split
  · rename_i terminal
    rw [if_pos terminal] at ok
    obtain ⟨entry, read, _⟩ := map_ok ok
    dsimp only
    rw [read_terminal_renamed name other, read]
    exact ⟨_, rfl⟩
  · exact ⟨[], rfl⟩

theorem read_edge_again {offset s s₁ : Nat} {edge : List UInt8} (longer : Nat)
    (ok : readEdge region offset s = .ok (edge, s₁)) :
    readEdge region longer s = .error .undefinedBehavior ∨
      readEdge region longer s = .ok (edge, s₁) := by
  obtain ⟨found, rfl⟩ := read_edge_ok ok
  unfold readEdge
  rw [found]
  dsimp only
  split
  · exact .inr rfl
  · exact .inl rfl

/-- The name decides only how much room is left for the edges. -/
theorem repeats (region : Region) :
    Repeats (head region) Task.cost .undefinedBehavior Alike where
  costs alike := by cases alike <;> rfl
  step := by
    intro task again own tasks alike heads
    cases alike with
    | @node p name longer grows =>
      rw [head] at heads ⊢
      split at heads
      · cases heads
      rename_i inside
      obtain ⟨⟨size, payload⟩, sized, heads⟩ := bind_ok heads
      obtain ⟨owned, isOwn, heads⟩ := bind_ok heads
      split at heads
      · cases heads
      rename_i within
      obtain ⟨count, counted, heads⟩ := bind_ok heads
      cases heads
      obtain ⟨own', isOwn'⟩ := read_own_renamed longer isOwn
      refine .inr ⟨own', _, ?_, .cons (.rest grows) .nil⟩
      rw [if_neg inside, sized]
      simp only [bind, Except.bind, isOwn', if_neg within, counted]
      rfl
    | @rest count s name longer grows =>
      cases count with
      | zero =>
        cases heads
        exact .inr ⟨[], [], rfl, .nil⟩
      | succ count =>
        rw [head] at heads ⊢
        obtain ⟨⟨edge, s₁⟩, edged, heads⟩ := bind_ok heads
        obtain ⟨⟨offset, s₂⟩, read, heads⟩ := bind_ok heads
        dsimp only at heads
        split at heads
        · cases heads
        rename_i nonzero
        cases heads
        rcases read_edge_again longer.length edged with undefined | edged'
        · rw [undefined]
          exact .inl rfl
        have still : (name ++ edge).length ≤ (longer ++ edge).length := by
          rw [length_append, length_append]
          omega
        refine .inr ⟨[], _, ?_, .cons (.node still) (.cons (.rest grows) .nil)⟩
        rw [edged']
        simp only [bind, Except.bind, read, if_neg nonzero]

/-- A node below another has a name, and its offset is not zero. -/
def Below (region : Region) : Task → Prop
  | .node call => call.1 ≠ region.start ∧ ∃ name, call.2 = some name
  | .rest _ _ _ => True

theorem head_below {task next : Task} {own : List EntryWithOffset} {tasks : List Task}
    (heads : head region task = .ok (own, tasks)) (isIn : next ∈ tasks) :
    Below region next ∧ task.nameLength ≤ next.nameLength := by
  match task with
  | .node call =>
    obtain ⟨_, _, count, s, rfl⟩ := head_node_tasks heads
    rw [mem_singleton.mp isIn]
    exact ⟨trivial, le_refl _⟩
  | .rest name 0 s =>
    cases heads
    cases isIn
  | .rest name (count + 1) s =>
    obtain ⟨edge, offset, s₂, nonzero, rfl⟩ := head_rest_tasks heads
    rcases mem_pair.mp isIn with rfl | rfl
    · have fits := region.fits
      refine ⟨⟨?_, name ++ edge, rfl⟩, ?_⟩
      · show (region.start + offset % 2 ^ 32) % 2 ^ 64 ≠ region.start
        omega
      · simp only [Task.nameLength, Option.getD_some, length_append]
        omega
    · exact ⟨trivial, le_refl _⟩

theorem comes_to_below {task last : Task} (comes : ComesTo (head region) task last) :
    (last = task ∨ Below region last) ∧ task.nameLength ≤ last.nameLength := by
  induction comes with
  | here task => exact ⟨.inl rfl, le_refl _⟩
  | down heads _ _ ih =>
    obtain ⟨nextBelow, grows⟩ := head_below heads (mem_append_right _ mem_cons_self)
    refine ⟨.inr ?_, le_trans grows ih.2⟩
    rcases ih.1 with rfl | below
    · exact nextBelow
    · exact below

theorem comes_below_below {task last : Task} (comes : ComesBelow (head region) task last) :
    Below region last ∧ task.nameLength ≤ last.nameLength := by
  obtain ⟨own, front, next, back, heads, done, further⟩ := comes
  obtain ⟨nextBelow, grows⟩ := head_below heads (mem_append_right _ mem_cons_self)
  obtain ⟨isLast, further⟩ := comes_to_below further
  refine ⟨?_, le_trans grows further⟩
  rcases isLast with rfl | below
  · exact nextBelow
  · exact below

/-- The root is never come to again; any other node that is come to again below itself is read
with a name no shorter. -/
theorem alike_of_repeated {call last : NodeCall}
    (comes : ComesTo (head region) (root region) (.node call))
    (below : ComesBelow (head region) (.node call) (.node last)) (same : last.1 = call.1) :
    Alike (.node call) (.node last) := by
  obtain ⟨⟨notStart, longer, isLonger⟩, grows⟩ := comes_below_below below
  rcases (comes_to_below comes).1 with isRoot | ⟨_, name, isName⟩
  · cases isRoot
    exact absurd same notStart
  obtain ⟨p, text⟩ := call
  obtain ⟨q, text'⟩ := last
  cases isName
  cases isLonger
  cases same
  exact .node grows

end Repeated

section Sound

/-- Of the buffer alone: nothing that is come to in the order of reading is broken, no node that is
come to is below itself, and if all of the trie can be read, what the reader does not check holds as
well. -/
structure Sound (region : Region) : Prop where
  whole : ∀ task, ComesTo (head region) (root region) task → ¬Broken region task
  acyclic : ∀ call last, ComesTo (head region) (root region) (.node call) →
    ComesBelow (head region) (.node call) (.node last) → last.1 ≠ call.1
  ended : Finishes (head region) (root region) → Ended region

variable {region : Region}

/-- What the run of the root ends with. -/
def outcome (region : Region) : Except Fault (List EntryWithOffset) :=
  perform region (region.bytes.length + 1) (root region)

theorem parse_trie_outcome (nonempty : region.bytes ≠ []) :
    parseTrie region = (outcome region).map fun entries =>
      (entries.mergeSort fun left right => left.nodeOffset ≤ right.nodeOffset).map
        EntryWithOffset.entry := by
  rw [parseTrie, if_neg nonempty, outcome, root, perform]
  cases processExportNode region (region.bytes.length + 1) region.start none <;> rfl

theorem cost_one {task : Task} (isCost : task.cost = 1) : ∃ call, task = .node call := by
  cases task with
  | node call => exact ⟨call, rfl⟩
  | rest name count s => cases isCost

/-- A way down without a node twice has at most one node more than the buffer has bytes: all but
the last one lie in the buffer. -/
theorem way_short {way : List Task} (nodes : ∀ task ∈ way, task.cost = 1)
    (below : way.Pairwise (ComesBelow (head region)))
    (distinct : way.Pairwise fun task last => last.address ≠ task.address) :
    way.length ≤ region.bytes.length + 1 := by
  rcases eq_nil_or_concat way with rfl | ⟨front, last, isWay⟩
  · exact Nat.zero_le _
  rw [concat_eq_append] at isWay
  subst isWay
  rw [pairwise_append] at below distinct
  have inside : ∀ task ∈ front, task.address - region.start < region.bytes.length ∧
      region.start ≤ task.address := by
    intro task isIn
    obtain ⟨call, rfl⟩ := cost_one (nodes task (mem_append_left _ isIn))
    obtain ⟨own, _, _, _, heads, _⟩ := below.2.2 _ isIn last mem_cons_self
    obtain ⟨low, high, _⟩ := head_node_tasks heads
    unfold Region.finish at high
    exact ⟨by simp only [Task.address]; omega, low⟩
  have nodup : (front.map fun task => task.address - region.start).Nodup := by
    rw [Nodup, pairwise_map]
    refine distinct.1.imp_of_mem fun isTask isLast different same => different ?_
    have low := (inside _ isTask).2
    have low' := (inside _ isLast).2
    omega
  have within : (front.map fun task => task.address - region.start) ⊆
      range region.bytes.length := by
    intro offset isIn
    obtain ⟨task, isTask, rfl⟩ := mem_map.mp isIn
    exact mem_range.mpr (inside task isTask).1
  have short := (nodup.subperm within).length_le
  rw [length_map, length_range] at short
  rw [length_append, length_singleton]
  omega

theorem Sound.rejects (sound : Sound region) : RejectsMalformed region := by
  by_cases empty : region.bytes = []
  · have parsed : parseTrie region = .ok [] := by rw [parseTrie, if_pos empty]
    refine .inr ⟨[], parsed, well_read_of_ok parsed ?_⟩
    exact fun call shape visited => absurd empty visited.1
  have parsed := parse_trie_outcome empty
  cases run : outcome region with
  | ok found =>
    rw [run] at parsed
    exact .inr ⟨_, parsed, well_read_of_ok parsed (sound.ended ((performs region).finishes run))⟩
  | error fault =>
    rw [run] at parsed
    cases fault with
    | thrown message => exact .inl ⟨message, parsed⟩
    | undefinedBehavior =>
      obtain ⟨last, comes, fails⟩ :=
        (performs region).comes_to_fault run (fun same => by cases same)
      exact absurd ((broken_iff last).mp fails) (sound.whole last comes)
    | endlessRecursion =>
      obtain ⟨way, isLength, nodes, below⟩ := (performs region).tired_way run
      have distinct : way.Pairwise fun task last => last.address ≠ task.address := by
        refine below.imp_of_mem fun isTask isLast isBelow => ?_
        obtain ⟨call, rfl⟩ := cost_one (nodes _ isTask).1
        obtain ⟨last, rfl⟩ := cost_one (nodes _ isLast).1
        exact sound.acyclic call last (nodes _ isTask).2 isBelow
      have short := way_short (fun task isIn => (nodes task isIn).1) below distinct
      omega

theorem head_root_empty (empty : region.bytes = []) :
    head region (root region) = .error (.thrown "malformed trie, node past end") := by
  have past : region.finish ≤ region.start := by
    unfold Region.finish
    rw [empty, length_nil, Nat.add_zero]
  rw [root, head, if_pos past]

theorem sound_of_outcome
    (throws : ∀ fault, outcome region = .error fault → ∃ message, fault = .thrown message)
    (ended : Finishes (head region) (root region) → Ended region) : Sound region := by
  have ends : outcome region ≠ .error .endlessRecursion := by
    intro run
    obtain ⟨message, isThrown⟩ := throws _ run
    cases isThrown
  have defined : outcome region ≠ .error .undefinedBehavior := by
    intro run
    obtain ⟨message, isThrown⟩ := throws _ run
    cases isThrown
  refine ⟨fun task comes broken => ?_, fun call last comes below same => ?_, ended⟩
  · have fails := (broken_iff task).mpr broken
    exact defined ((performs region).comes_to_failing comes fails ends)
  · have alike := alike_of_repeated comes below same
    obtain ⟨less, _, callEnds, carried⟩ := (performs region).comes_to_ends comes ends
    rcases (performs region).never_done (repeats region) less rfl alike below with tires | faults
    · exact callEnds tires
    · exact defined (carried _ faults)

theorem sound_of_thrown {message : String} (run : outcome region = .error (.thrown message)) :
    Sound region := by
  refine sound_of_outcome (fun fault failed => ⟨message, ?_⟩) fun finishes => ?_
  · rw [run] at failed
    exact (Except.error.inj failed).symm
  · cases (performs region).done_or_tired finishes _ run

/-- The reader rejects what is malformed if and only if nothing it comes to is broken, no node it
comes to is below itself, and a trie that can be read has terminal sizes that do not wrap and import
names that end. -/
theorem rejects_malformed_iff (region : Region) : RejectsMalformed region ↔ Sound region := by
  refine ⟨fun rejects => ?_, Sound.rejects⟩
  by_cases empty : region.bytes = []
  · have fails := head_root_empty empty
    have run : outcome region = .error (.thrown "malformed trie, node past end") := by
      rw [outcome, empty]
      exact ((performs region).step 0 (root region)).trans (by rw [fails]; rfl)
    exact sound_of_thrown run
  have parsed := parse_trie_outcome empty
  rcases rejects with ⟨message, thrown⟩ | ⟨entries, ok, wellRead⟩
  · rw [thrown] at parsed
    cases run : outcome region with
    | ok found =>
      rw [run] at parsed
      cases parsed
    | error fault =>
      rw [run] at parsed
      cases parsed
      exact sound_of_thrown run
  · rw [ok] at parsed
    refine sound_of_outcome (fun fault failed => ?_) fun _ => wellRead.ended
    rw [failed] at parsed
    cases parsed

end Sound

def oneByte : Region := ⟨0x1000, [0], by decide⟩

/-- The child count of the only node would be the byte after the end. -/
theorem child_count_read_at_end :
    parseTrie oneByte = .error .undefinedBehavior ∧ ¬ RejectsMalformed oneByte := by
  have faults : parseTrie oneByte = .error .undefinedBehavior := by rfl
  refine ⟨faults, ?_⟩
  rintro (⟨message, thrown⟩ | ⟨entries, ok, _⟩)
  · rw [faults] at thrown
    cases thrown
  · rw [faults] at ok
    cases ok

end DeveloperTools.Ld64.MachOTrie
