import DeveloperTools.Ld64.BindSegments
import DeveloperTools.Ld64.RebaseFaithful

/-!
Four encoders put the number of a segment into the low half of an opcode byte: those of rebases,
binds, weak binds and lazy binds. None of them looks whether the number has four bits. A segment is
only announced for a location that is neither where the last one ended nor in the segment announced
last.
-/

namespace DeveloperTools.Ld64.SegmentNibbles

open Nibbles
open BindOpcodes
open List Option Transducer

def liveSlots {Slot : Type} (done : Slot → Bool) (buffer : List Slot) : List Slot :=
  buffer.takeWhile fun slot => !done slot

def rebaseWritten (sections : List FinalSection) (pointerSize : Nat)
    (info : List RebaseOpcodes.RebaseInfo) : Option (List RebaseOpcodes.RebaseTmp) := do
  let ops ← RebaseOpcodes.rebaseTmps sections pointerSize info {}
  let packed ← RebaseOpcodes.packedRuns.run (ops ++ [RebaseOpcodes.doneTmp])
  let paired ← RebaseOpcodes.rebaseAddPairs.run packed
  let skipped ← RebaseOpcodes.skippingRuns.run paired
  some (liveSlots RebaseOpcodes.isDone (RebaseOpcodes.useImmediates pointerSize skipped))

section Binds

variable {Pointer : Type} [DecidableEq Pointer] (string : Pointer → CString)
  (sorter : Sorter Pointer) (sections : List FinalSection) (pointerSize : Nat)

def bindWritten (info : List (BindingInfo Pointer)) : Option (List BindingTmp) := do
  let ops ← bindingTmps (Encoder.step string sections pointerSize)
    (sorter.sort (BindingInfo.less string) info) {}
  let paired ← bindAddPairs.run (ops ++ [doneTmp])
  let skipped ← skippingRuns.run paired
  some (liveSlots isDone (rewriteBuffer isDone (BindingTmp.immediate pointerSize) skipped))

def weakWritten (info : List (BindingInfo Pointer)) : Option (List BindingTmp) := do
  let ops ← bindingTmps (Encoder.weakStep string sections pointerSize)
    (sorter.sort (BindingInfo.weakLess string) info) {}
  let paired ← bindAddPairs.run (ops ++ [doneTmp])
  let skipped ← skippingRuns.run paired
  some (liveSlots isDone (rewriteBuffer isDone (BindingTmp.weakImmediate pointerSize) skipped))

def lazyOrdinal (info : BindingInfo Pointer) : BindingTmp :=
  if info.libraryOrdinal ≤ 0 then
    -- special lookups are encoded as negative numbers in BindingInfo
    { opcode := .setDylibSpecialImm, operand1 := unsigned info.libraryOrdinal }
  else if info.libraryOrdinal ≤ 15 then
    -- small ordinals are encoded in opcode
    { opcode := .setDylibOrdinalImm, operand1 := unsigned info.libraryOrdinal }
  else { opcode := .setDylibOrdinalUleb, operand1 := unsigned info.libraryOrdinal }

/-- The opcodes of one lazy bind; `none` stands for the exception. -/
def lazyWritten (info : BindingInfo Pointer) : Option (List BindingTmp) :=
  (findSegment sections info.address).map fun found =>
    [{ opcode := .setSegmentAndOffsetUleb, operand1 := found.index,
       operand2 := info.address - found.start }, lazyOrdinal info,
      { opcode := .setSymbolTrailingFlagsImm, operand1 := info.flags.code,
        name := (string info.symbolName).chars }, { opcode := .doBind, operand1 := 0 }, doneTmp]

/-- The bytes of the lazy binds, each with the offset that is recorded for its address. -/
def lazyStream : Bytes → List (BindingInfo Pointer) → Option (Bytes × List (Nat × Nat))
  | encoded, [] => some (encoded, [])
  | encoded, info :: rest => do
    let ops ← lazyWritten string sections info
    let (encoded', offsets) ← lazyStream (encoded ++ ops.flatMap BindingTmp.weakBytes) rest
    some (encoded', (info.address, encoded.length) :: offsets)

def lazyEncode (info : List (BindingInfo Pointer)) : Option (Bytes × List (Nat × Nat)) :=
  (lazyStream string sections [] info).map fun written =>
    (RebaseOpcodes.padToSize pointerSize written.1, written.2)

end Binds

theorem write_buffer_slots {Slot : Type} {done : Slot → Bool} {write : Slot → Bytes}
    (nothing : ∀ slot, done slot = true → write slot = []) (buffer : List Slot) :
    writeBuffer done write buffer = (liveSlots done buffer).flatMap write := by
  induction buffer with
  | nil => rfl
  | cons slot rest ih =>
    cases isDone : done slot with
    | true => simp [writeBuffer, liveSlots, isDone, nothing slot isDone]
    | false =>
      rw [writeBuffer, isDone, if_neg (by decide), ih]
      simp [liveSlots, isDone]

theorem rebase_encode_written (sections : List FinalSection) (pointerSize : Nat)
    (info : List RebaseOpcodes.RebaseInfo) : RebaseOpcodes.encodeV1 sections pointerSize info =
      (rebaseWritten sections pointerSize info).map fun ops =>
        RebaseOpcodes.padToSize pointerSize (ops.flatMap RebaseOpcodes.RebaseTmp.bytes) := by
  have nothing : ∀ slot, RebaseOpcodes.isDone slot = true →
      RebaseOpcodes.RebaseTmp.bytes slot = [] := by
    intro slot isDone
    rw [RebaseOpcodes.RebaseTmp.bytes, of_decide_eq_true isDone]
  simp only [RebaseOpcodes.encodeV1, rebaseWritten, RebaseOpcodes.compressed,
    write_buffer_slots nothing, bind_eq_bind, Option.map_bind, Function.comp_def, map_some]

theorem rebase_sorted_written (sections : List FinalSection) (pointerSize : Nat)
    (info : List RebaseOpcodes.RebaseInfo) : RebaseOpcodes.encode sections pointerSize info =
      (rebaseWritten sections pointerSize (info.mergeSort RebaseOpcodes.RebaseInfo.notAfter)).map
        fun ops => RebaseOpcodes.padToSize pointerSize
          (ops.flatMap RebaseOpcodes.RebaseTmp.bytes) := by
  cases info with
  | nil =>
    have padded : RebaseOpcodes.padToSize pointerSize [] = [] := by simp [RebaseOpcodes.padToSize]
    rw [RebaseOpcodes.encode, if_pos rfl, mergeSort_nil, ← rebase_encode_written]
    exact congrArg some padded.symm
  | cons first rest => rw [RebaseOpcodes.encode, if_neg (cons_ne_nil _ _), rebase_encode_written]

theorem bind_encode_written {Pointer : Type} [DecidableEq Pointer] (string : Pointer → CString)
    (sorter : Sorter Pointer) (sections : List FinalSection) (pointerSize : Nat)
    (info : List (BindingInfo Pointer)) : encodeV1 string sorter sections pointerSize info =
      (bindWritten string sorter sections pointerSize info).map fun ops =>
        RebaseOpcodes.padToSize pointerSize (ops.flatMap BindingTmp.bytes) := by
  have nothing : ∀ slot, isDone slot = true → BindingTmp.bytes slot = [] := by
    intro slot isDone
    rw [BindingTmp.bytes, of_decide_eq_true isDone]
  simp only [encodeV1, bindWritten, write_buffer_slots nothing, bind_eq_bind,
    Option.map_bind, Function.comp_def, map_some]

theorem write_buffer_weak (buffer : List BindingTmp) :
    ∃ last, writeBuffer isDone BindingTmp.weakBytes buffer =
        (liveSlots isDone buffer).flatMap BindingTmp.bytes ++ last ∧ (last = [] ∨ last = [0]) := by
  induction buffer with
  | nil => exact ⟨[], rfl, Or.inl rfl⟩
  | cons slot rest ih =>
    cases done : isDone slot with
    | true =>
      refine ⟨[0], ?_, Or.inr rfl⟩
      rw [writeBuffer, done, if_pos rfl, BindingTmp.weakBytes, of_decide_eq_true done]
      simp [liveSlots, done, Opcode.code, pack]
    | false =>
      obtain ⟨last, written, isLast⟩ := ih
      refine ⟨last, ?_, isLast⟩
      rw [writeBuffer, done, if_neg (by decide), written, weak_bytes_of_live done]
      simp [liveSlots, done]

variable {sections : List FinalSection} {pointerSize : Nat}

theorem weak_encode_written {Pointer : Type} [DecidableEq Pointer] {string : Pointer → CString}
    {sorter : Sorter Pointer} {info : List (BindingInfo Pointer)} (nonempty : info ≠ [])
    {ops : List BindingTmp}
    (written : weakWritten string sorter sections pointerSize info = some ops) :
    ∃ last, weakEncode string sorter sections pointerSize info =
        some (RebaseOpcodes.padToSize pointerSize (ops.flatMap BindingTmp.bytes ++ last)) ∧
      (last = [] ∨ last = [0]) := by
  obtain ⟨tmps, made, rest⟩ := bind_eq_some_iff.mp written
  obtain ⟨paired, ran1, rest⟩ := bind_eq_some_iff.mp rest
  obtain ⟨skipped, ran2, rest⟩ := bind_eq_some_iff.mp rest
  cases rest
  obtain ⟨last, bytes, isLast⟩ := write_buffer_weak
    (rewriteBuffer isDone (BindingTmp.weakImmediate pointerSize) skipped)
  refine ⟨last, ?_, isLast⟩
  rw [weakEncode, if_neg nonempty, made]
  simp only [bind_eq_bind, bind_some, ran1, ran2, bytes]

def lazyTmps {Pointer : Type} (string : Pointer → CString) (sections : List FinalSection)
    (info : List (BindingInfo Pointer)) : Option (List BindingTmp) :=
  (info.mapM (lazyWritten string sections)).map List.flatten

theorem lazy_stream_written {Pointer : Type} {string : Pointer → CString}
    {info : List (BindingInfo Pointer)} {ops : List BindingTmp} (encoded : Bytes)
    (written : lazyTmps string sections info = some ops) :
    (lazyStream string sections encoded info).map Prod.fst =
      some (encoded ++ ops.flatMap BindingTmp.weakBytes) := by
  obtain ⟨lists, made, rfl⟩ := map_eq_some_iff.mp written
  clear written
  induction info generalizing encoded lists with
  | nil =>
    cases made
    simp [lazyStream]
  | cons info rest ih =>
    rw [mapM_cons] at made
    obtain ⟨here, isHere, made⟩ := bind_eq_some_iff.mp made
    obtain ⟨more, isMore, made⟩ := bind_eq_some_iff.mp made
    cases made
    have later := ih (encoded ++ here.flatMap BindingTmp.weakBytes) more isMore
    obtain ⟨⟨stream, offsets⟩, isStream, isLater⟩ := map_eq_some_iff.mp later
    rw [lazyStream, isHere, bind_eq_bind, bind_some, isStream]
    simp only [bind_eq_bind, bind_some, map_some, flatten_cons, flatMap_append, ← append_assoc]
    exact congrArg some isLater

/-- How many rebases an opcode carries out. -/
def rebaseTimes (tmp : RebaseOpcodes.RebaseTmp) : Nat :=
  match tmp.opcode with
  | .doRebaseImmTimes | .doRebaseUlebTimes | .doRebaseUlebTimesSkippingUleb => tmp.operand1
  | .doRebaseAddAddrUleb => 1
  | _ => 0

/-- The byte with which an opcode announces a segment. -/
def rebaseMark (tmp : RebaseOpcodes.RebaseTmp) : Option UInt8 :=
  if tmp.opcode = .setSegmentAndOffsetUleb then tmp.bytes.head? else none

def bindTimes (tmp : BindingTmp) : Nat :=
  match tmp.opcode with
  | .doBind | .doBindAddAddrUleb | .doBindAddAddrImmScaled => 1
  | .doBindUlebTimesSkippingUleb => tmp.operand1
  | _ => 0

def bindMark (tmp : BindingTmp) : Option UInt8 :=
  if tmp.opcode = .setSegmentAndOffsetUleb then tmp.bytes.head? else none

/-- The bytes that announce a segment, each with the number of rebases before it. -/
def rebaseAnnounced (ops : List RebaseOpcodes.RebaseTmp) : List (Nat × UInt8) :=
  (program (tally rebaseTimes rebaseMark) ops 0).2

def bindAnnounced (ops : List BindingTmp) : List (Nat × UInt8) :=
  (program (tally bindTimes bindMark) ops 0).2

/-- The byte has this opcode, and the number of the segment that holds the location it was written
for. -/
def Announces (sections : List FinalSection) (number : Nat) (addresses : List Nat)
    (announced : Nat × UInt8) : Prop :=
  opcode announced.2 = number ∧ ∃ address segment, addresses[announced.1]? = some address ∧
    (segments sections)[immediate announced.2]? = some segment ∧ segment.Contains address

/-- Where a loop stands when it comes to a location: its own address and the segment that was
announced last. -/
def announcements (sections : List FinalSection) (code : Nat) (after : Segment → Nat → Nat) :
    Nat → Segment → Nat → List Nat → List (Nat × UInt8)
  | _, _, _, [] => []
  | running, current, count, address :: rest =>
    if running = address ∨ current.start ≤ address ∧ address < current.finish then
      announcements sections code after (after current address) current (count + 1) rest
    else
      match findSegment sections address with
      | none => []
      | some found =>
        (count, pack code found.index) :: announcements sections code after
          (after ⟨found.start, found.finish⟩ address) ⟨found.start, found.finish⟩ (count + 1) rest

theorem announcements_quiet {code running count address : Nat} {after : Segment → Nat → Nat}
    {current : Segment} {rest : List Nat}
    (quiet : running = address ∨ current.Contains address) :
    announcements sections code after running current count (address :: rest) =
      announcements sections code after (after current address) current (count + 1) rest :=
  if_pos quiet

theorem announcements_new {code running count address : Nat} {after : Segment → Nat → Nat}
    {current : Segment} {rest : List Nat} {found : FoundSegment}
    (new : ¬ (running = address ∨ current.Contains address))
    (isFound : findSegment sections address = some found) :
    announcements sections code after running current count (address :: rest) =
      (count, pack code found.index) :: announcements sections code after
        (after ⟨found.start, found.finish⟩ address) ⟨found.start, found.finish⟩ (count + 1)
        rest := by
  refine (if_neg new).trans ?_
  rw [isFound]

section Binds

variable {Pointer : Type} {state next : Encoder Pointer} {info : BindingInfo Pointer}
  {ops : List BindingTmp}

abbrev bindTally (ops : List BindingTmp) : Transducer Nat (Nat × UInt8) :=
  program (tally bindTimes bindMark) ops

def Encoder.current (state : Encoder Pointer) : Segment := ⟨state.curSegStart, state.curSegEnd⟩

/-- The address of a bind once the bind is made. -/
def bindAfter (pointerSize : Nat) (_ : Segment) (address : Nat) : Nat :=
  (address + pointerSize) % 2 ^ 64

theorem quiet_tally (quiet : Quiet sections pointerSize ops) (count : Nat) :
    bindTally ops count = (count, []) := by
  have silent : ∀ tmp ∈ ops, bindMark tmp = none ∧ bindTimes tmp = 0 := by
    intro tmp member
    have sets := quiet.settings tmp member
    obtain ⟨opcode, operand1, operand2, name⟩ := tmp
    cases opcode <;> first | exact ⟨rfl, rfl⟩ | cases sets
  rw [bindTally, program_tally_unmarked _ _ fun tmp member => (silent tmp member).1,
    sum_eq_zero fun times member => ?_, Nat.add_zero]
  obtain ⟨tmp, isIn, rfl⟩ := List.mem_map.mp member
  exact (silent tmp isIn).2

theorem set_address_announces {before placed : Encoder Pointer} {address : List BindingTmp}
    (same : SamePlace before state) (set : before.setAddress sections info = some (placed, address))
    (count : Nat) : placed.address = info.address ∧
      ((¬ (state.address = info.address ∨ (Encoder.current state).Contains info.address) ∧
        ∃ found, findSegment sections info.address = some found ∧
          Encoder.current placed = ⟨found.start, found.finish⟩ ∧
          bindTally address count = (count, [(count, pack 0x70 found.index)])) ∨
      ((state.address = info.address ∨ (Encoder.current state).Contains info.address) ∧
        Encoder.current placed = Encoder.current state ∧
        bindTally address count = (count, []))) := by
  obtain ⟨sameAddress, sameStart, sameEnd, _⟩ := same
  have range : Encoder.current before = Encoder.current state := by
    rw [Encoder.current, Encoder.current, sameStart, sameEnd]
  rw [← sameAddress, ← range]
  unfold Encoder.setAddress at set
  split at set
  next moved =>
    split at set
    next outside =>
      obtain ⟨found, isFound, isPlaced⟩ := map_eq_some_iff.mp set
      cases isPlaced
      refine ⟨rfl, .inl ⟨?_, found, isFound, rfl, rfl⟩⟩
      rintro (here | ⟨low, high⟩)
      · exact moved here
      · exact outside.elim (Nat.not_lt.mpr low) (Nat.not_le.mpr high)
    next inside =>
      cases set
      rw [not_or, Nat.not_lt, Nat.not_le] at inside
      exact ⟨rfl, .inr ⟨.inr inside, rfl, rfl⟩⟩
  next here =>
    cases set
    rw [not_not] at here
    exact ⟨here, .inr ⟨.inl here, rfl, rfl⟩⟩

/-- A round that binds announces a segment as the walk over the addresses does. -/
theorem bound_announces (bound : Bound sections pointerSize state info next ops) (count : Nat)
    (rest : List Nat) :
    ∃ events, bindTally ops count = (count + 1, events) ∧
      announcements sections 0x70 (bindAfter pointerSize) state.address (Encoder.current state)
          count (info.address :: rest) =
        events ++ announcements sections 0x70 (bindAfter pointerSize) next.address
          (Encoder.current next) (count + 1) rest := by
  obtain ⟨before, placed, address, addend, same, set, rfl, rfl, settings, quiet, rfl⟩ := bound
  obtain ⟨⟨sameAddress, sameStart, sameEnd, _⟩, quietAddend⟩ :=
    @set_addend_quiet Pointer sections pointerSize placed info
  obtain ⟨isAddress, outcome⟩ := set_address_announces same set count
  have running : ((placed.setAddend info).1.advance pointerSize).address =
      bindAfter pointerSize (Encoder.current placed) info.address := by
    rw [← isAddress, bindAfter, ← sameAddress]
    rfl
  have range : Encoder.current ((placed.setAddend info).1.advance pointerSize) =
      Encoder.current placed := by
    simp only [Encoder.current, Encoder.advance, sameStart, sameEnd]
  have whole {events : List (Nat × UInt8)} (said : bindTally address count = (count, events)) :
      bindTally (settings ++ (address ++ ((placed.setAddend info).2 ++
        [{ opcode := .doBind, operand1 := 0 }]))) count = (count + 1, events) := by
    have bind : bindTally [{ opcode := .doBind, operand1 := 0 }] count = (count + 1, []) := rfl
    have last := program_then said (program_then (quiet_tally quietAddend count) bind)
    rw [nil_append, append_nil] at last
    exact program_then (quiet_tally quiet count) last
  rw [running, range]
  rcases outcome with ⟨new, found, isFound, isRange, said⟩ | ⟨old, isRange, said⟩
  · refine ⟨_, whole said, ?_⟩
    rw [announcements_new new isFound, isRange, singleton_append]
  · refine ⟨_, whole said, ?_⟩
    rw [announcements_quiet old, isRange, nil_append]

/-- The announcements of a loop are those of a walk over the addresses it binds. -/
theorem loop_announces
    {step : Encoder Pointer → BindingInfo Pointer → Option (Encoder Pointer × List BindingTmp)}
    {binds : BindingInfo Pointer → Bool}
    (bound : ∀ {state info next ops}, step state info = some (next, ops) → binds info = true →
      Bound sections pointerSize state info next ops)
    (unbound : ∀ {state info next ops}, step state info = some (next, ops) → binds info = false →
      SamePlace next state ∧ Quiet sections pointerSize ops)
    {rest : List (BindingInfo Pointer)} (made : bindingTmps step rest state = some ops)
    (count : Nat) :
    (bindTally ops count).2 = announcements sections 0x70 (bindAfter pointerSize) state.address
      (Encoder.current state) count ((rest.filter binds).map BindingInfo.address) := by
  induction rest generalizing state ops count with
  | nil =>
    cases made
    rfl
  | cons info rest ih =>
    obtain ⟨⟨next, here⟩, stepped, made⟩ := bind_eq_some_iff.mp made
    obtain ⟨later, rests, isOps⟩ := bind_eq_some_iff.mp made
    cases isOps
    cases isBound : binds info with
    | true =>
      obtain ⟨events, said, walk⟩ := bound_announces (bound stepped isBound) count
        ((rest.filter binds).map BindingInfo.address)
      rw [bindTally, program_events_then said, filter_cons_of_pos isBound, map_cons, walk,
        ← ih rests (count + 1)]
    | false =>
      obtain ⟨⟨sameAddress, sameStart, sameEnd, _⟩, quiet⟩ := unbound stepped isBound
      have range : Encoder.current next = Encoder.current state := by
        rw [Encoder.current, Encoder.current, sameStart, sameEnd]
      rw [bindTally, program_events_then (quiet_tally quiet count), nil_append,
        filter_cons_of_neg (by simp [isBound]), ← range, ← sameAddress]
      exact ih rests count

end Binds

section Rebases

open RebaseOpcodes (RebaseInfo RebaseTmp rebaseTmps)

abbrev rebaseTally (ops : List RebaseTmp) : Transducer Nat (Nat × UInt8) :=
  program (tally rebaseTimes rebaseMark) ops

def rebaseCurrent (state : RebaseOpcodes.Encoder) : Segment := ⟨state.curSegStart, state.curSegEnd⟩

/-- The address of the loop once a rebase is made, which does not leave the segment. -/
def rebaseAfter (pointerSize : Nat) (current : Segment) (address : Nat) : Nat :=
  let next := (address + pointerSize) % 2 ^ 64
  if current.finish ≤ next then 0 else next

variable {state next : RebaseOpcodes.Encoder} {info : RebaseInfo} {ops : List RebaseTmp}

theorem rebase_address_announces {placed : RebaseOpcodes.Encoder} {address : List RebaseTmp}
    (set : state.setAddress sections info = some (placed, address)) (count : Nat) :
    placed.address = info.address ∧
      ((¬ (state.address = info.address ∨ (rebaseCurrent state).Contains info.address) ∧
        ∃ found, findSegment sections info.address = some found ∧
          rebaseCurrent placed = ⟨found.start, found.finish⟩ ∧
          rebaseTally address count = (count, [(count, pack 0x20 found.index)])) ∨
      ((state.address = info.address ∨ (rebaseCurrent state).Contains info.address) ∧
        rebaseCurrent placed = rebaseCurrent state ∧ rebaseTally address count = (count, []))) := by
  unfold RebaseOpcodes.Encoder.setAddress at set
  split at set
  next moved =>
    split at set
    next outside =>
      obtain ⟨found, isFound, isPlaced⟩ := bind_eq_some_iff.mp set
      cases isPlaced
      refine ⟨rfl, .inl ⟨?_, found, isFound, rfl, rfl⟩⟩
      rintro (here | ⟨low, high⟩)
      · exact moved here
      · exact outside.elim (Nat.not_lt.mpr low) (Nat.not_le.mpr high)
    next inside =>
      cases set
      rw [not_or, Nat.not_lt, Nat.not_le] at inside
      exact ⟨rfl, .inr ⟨.inr inside, rfl, rfl⟩⟩
  next here =>
    cases set
    rw [not_not] at here
    exact ⟨here, .inr ⟨.inl here, rfl, rfl⟩⟩

theorem rebase_type_silent (count : Nat) : rebaseTally (state.setType info).2 count = (count, []) ∧
    (state.setType info).1.address = state.address ∧
    rebaseCurrent (state.setType info).1 = rebaseCurrent state := by
  unfold RebaseOpcodes.Encoder.setType
  split
  · exact ⟨rfl, rfl, rfl⟩
  · exact ⟨rfl, rfl, rfl⟩

theorem rebase_step_announces
    (stepped : state.step sections pointerSize info = some (next, ops)) (count : Nat)
    (rest : List Nat) :
    ∃ events, rebaseTally ops count = (count + 1, events) ∧
      announcements sections 0x20 (rebaseAfter pointerSize) state.address (rebaseCurrent state)
          count (info.address :: rest) =
        events ++ announcements sections 0x20 (rebaseAfter pointerSize) next.address
          (rebaseCurrent next) (count + 1) rest := by
  obtain ⟨⟨placed, address⟩, set, isStep⟩ := bind_eq_some_iff.mp stepped
  obtain ⟨rfl, rfl⟩ := Prod.mk.inj (Option.some.inj isStep)
  replace set : (state.setType info).1.setAddress sections info = some (placed, address) := set
  obtain ⟨silent, sameAddress, sameRange⟩ := @rebase_type_silent state info count
  obtain ⟨isAddress, outcome⟩ := rebase_address_announces set count
  have whole {events : List (Nat × UInt8)} (said : rebaseTally address count = (count, events)) :
      rebaseTally ((state.setType info).2 ++ address ++ [⟨.doRebaseUlebTimes, 1, 0⟩]) count =
        (count + 1, events) := by
    have rebase : rebaseTally [⟨.doRebaseUlebTimes, 1, 0⟩] count = (count + 1, []) := rfl
    have last := program_then (program_then silent said) rebase
    rw [nil_append, append_nil] at last
    exact last
  have running : (placed.advance pointerSize).address =
      rebaseAfter pointerSize (rebaseCurrent placed) info.address := by
    rw [← isAddress]
    rfl
  have range : rebaseCurrent (placed.advance pointerSize) = rebaseCurrent placed := rfl
  rw [sameAddress, sameRange] at outcome
  rw [running, range]
  rcases outcome with ⟨new, found, isFound, isRange, said⟩ | ⟨old, isRange, said⟩
  · refine ⟨_, whole said, ?_⟩
    rw [announcements_new new isFound, isRange, singleton_append]
  · refine ⟨_, whole said, ?_⟩
    rw [announcements_quiet old, isRange, nil_append]

theorem rebase_loop_announces {rest : List RebaseInfo}
    (made : rebaseTmps sections pointerSize rest state = some ops) (count : Nat) :
    (rebaseTally ops count).2 = announcements sections 0x20 (rebaseAfter pointerSize) state.address
      (rebaseCurrent state) count (rest.map RebaseInfo.address) := by
  induction rest generalizing state ops count with
  | nil =>
    cases made
    rfl
  | cons info rest ih =>
    obtain ⟨⟨next, here⟩, stepped, made⟩ := bind_eq_some_iff.mp made
    obtain ⟨later, rests, isOps⟩ := bind_eq_some_iff.mp made
    cases isOps
    obtain ⟨events, said, walk⟩ := rebase_step_announces stepped count
      (rest.map RebaseInfo.address)
    rw [rebaseTally, program_events_then said, map_cons, walk, ← ih rests (count + 1)]

end Rebases

section Walks

variable (separate : Separate (segments sections))
include separate

theorem announces_iff (code : Nat) {count address : Nat} {addresses : List Nat} {found : FoundSegment}
    (high : code % 16 = 0) (fits : code < 256) (place : addresses[count]? = some address)
    (isFound : findSegment sections address = some found) :
    Announces sections (code / 16) addresses (count, pack code found.index) ↔
      LowAt sections address := by
  obtain ⟨isSegment, holds⟩ := find_segment_sound isFound
  constructor
  · rintro ⟨_, other, segment, isOther, isAnnounced, contains⟩ found' isFound'
    cases place.symm.trans isOther
    cases isFound.symm.trans isFound'
    have same := separate _ _ _ _ address isSegment isAnnounced holds contains
    rw [same]
    exact Nat.mod_lt _ (by decide)
  · intro low
    have small := low found isFound
    refine ⟨opcode_pack high fits small, address, ⟨found.start, found.finish⟩, place, ?_, holds⟩
    rw [immediate_pack high fits small]
    exact isSegment

theorem low_of_found {address : Nat} {found : FoundSegment}
    (isFound : findSegment sections address = some found) (low : LowAt sections address)
    {other : Nat} (holds : (⟨found.start, found.finish⟩ : Segment).Contains other) :
    LowAt sections other := by
  intro found' isFound'
  rw [find_segment_of_contains separate (find_segment_sound isFound).1 holds] at isFound'
  cases isFound'
  exact low found isFound

end Walks

/-- Each location is in one of the first 16 segments, or one pointer behind the one before. -/
def LowOrNext (sections : List FinalSection) (pointerSize : Nat) : Option Nat → List Nat → Prop
  | _, [] => True
  | last, next :: rest =>
    (LowAt sections next ∨ ∃ before ∈ last, next = (before + pointerSize) % 2 ^ 64) ∧
      LowOrNext sections pointerSize (some next) rest

/-- A pointer at this address lies in a segment. -/
def Inside (sections : List FinalSection) (pointerSize address : Nat) : Prop :=
  ∃ segment ∈ segments sections, segment.Contains address ∧ address + pointerSize ≤ segment.finish

theorem Inside.found {address : Nat} (inside : Inside sections pointerSize address) :
    ∃ found, findSegment sections address = some found := by
  obtain ⟨segment, member, holds, _⟩ := inside
  exact find_segment_complete member holds

theorem Inside.bound {address : Nat} (inside : Inside sections pointerSize address) :
    address + pointerSize < 2 ^ 64 ∧ address ≠ 2 ^ 64 - 1 := by
  obtain ⟨segment, member, holds, ends⟩ := inside
  have finish := segments_finish segment member
  have below := holds.2
  omega

theorem drop_count {addresses rest : List Nat} {count address : Nat}
    (split : addresses.drop count = address :: rest) :
    addresses[count]? = some address ∧ addresses.drop (count + 1) = rest := by
  constructor
  · rw [← head?_drop, split, head?_cons]
  · rw [← drop_drop, split, drop_one, tail_cons]

section

variable (separate : Separate (segments sections)) {addresses rest : List Nat} {count : Nat}
  {current : Segment} (lowCurrent : ∀ address, current.Contains address → LowAt sections address)
  (inside : ∀ address ∈ rest, Inside sections pointerSize address)
include separate lowCurrent inside

theorem bind_walk_kept {last : Option Nat} {running : Nat}
    (isRunning : running = last.elim (2 ^ 64 - 1) fun before => (before + pointerSize) % 2 ^ 64)
    (split : addresses.drop count = rest) :
    (∀ announced ∈ announcements sections 0x70 (bindAfter pointerSize) running current count rest,
        Announces sections 7 addresses announced) ↔
      LowOrNext sections pointerSize last rest := by
  induction rest generalizing last running current count with
  | nil => exact ⟨fun _ => trivial, fun _ => nofun⟩
  | cons address rest ih =>
    rw [forall_mem_cons] at inside
    obtain ⟨place, split⟩ := drop_count split
    obtain ⟨found, isFound⟩ := inside.1.found
    rw [LowOrNext]
    by_cases old : running = address ∨ current.Contains address
    · have head : LowAt sections address ∨
          ∃ before ∈ last, address = (before + pointerSize) % 2 ^ 64 := by
        rcases old with here | contains
        · cases last with
          | none => exact absurd (here.symm.trans isRunning) inside.1.bound.2
          | some before => exact .inr ⟨before, rfl, here.symm.trans isRunning⟩
        · exact .inl (lowCurrent address contains)
      rw [announcements_quiet old, and_iff_right head]
      exact ih lowCurrent inside.2 rfl split
    · have behind : ¬ ∃ before ∈ last, address = (before + pointerSize) % 2 ^ 64 := by
        rintro ⟨before, rfl, next⟩
        exact old (.inl (isRunning.trans next.symm))
      rw [announcements_new old isFound, forall_mem_cons, or_iff_left behind,
        announces_iff separate 0x70 rfl (by decide) place isFound]
      apply and_congr_right
      intro low
      exact ih (fun _ => low_of_found separate isFound low) inside.2 rfl split

theorem rebase_walk_kept {running : Nat} (nonzero : ∀ address ∈ rest, address ≠ 0)
    (isRunning : running = 2 ^ 64 - 1 ∨ running = 0 ∨ current.Contains running)
    (split : addresses.drop count = rest) :
    (∀ announced ∈ announcements sections 0x20 (rebaseAfter pointerSize) running current count rest,
        Announces sections 2 addresses announced) ↔ ∀ address ∈ rest, LowAt sections address := by
  induction rest generalizing running current count with
  | nil => exact ⟨fun _ => nofun, fun _ => nofun⟩
  | cons address rest ih =>
    rw [forall_mem_cons] at inside nonzero
    obtain ⟨place, split⟩ := drop_count split
    obtain ⟨found, isFound⟩ := inside.1.found
    have bound := inside.1.bound
    -- the loop's own address does not leave the segment it is in
    have stays {segment : Segment} (holds : segment.Contains address) :
        rebaseAfter pointerSize segment address = 2 ^ 64 - 1 ∨
          rebaseAfter pointerSize segment address = 0 ∨
          segment.Contains (rebaseAfter pointerSize segment address) := by
      have low := holds.1
      simp only [rebaseAfter, Nat.mod_eq_of_lt bound.1, Segment.Contains]
      split <;> omega
    rw [forall_mem_cons]
    by_cases old : running = address ∨ current.Contains address
    · have holds : current.Contains address := by
        rcases old with rfl | holds
        · rcases isRunning with least | zero | holds
          · exact absurd least bound.2
          · exact absurd zero nonzero.1
          · exact holds
        · exact holds
      rw [announcements_quiet old, and_iff_right (lowCurrent address holds)]
      exact ih lowCurrent inside.2 nonzero.2 (stays holds) split
    · rw [announcements_new old isFound, forall_mem_cons,
        announces_iff separate 0x20 rfl (by decide) place isFound]
      apply and_congr_right
      intro low
      exact ih (fun _ => low_of_found separate isFound low) inside.2 nonzero.2
        (stays (find_segment_sound isFound).2) split

end

section Passes

theorem tally_rewritten {Slot : Type} {done : Slot → Bool} {rewrite : Slot → Slot}
    {amount : Slot → Nat} {mark : Slot → Option UInt8} {live left : List Slot} {stop : Slot}
    (alive : ∀ slot ∈ live, done slot = false) (stopped : done stop = true)
    (live_rewrite : ∀ slot, done slot = false → done (rewrite slot) = false)
    (same : ∀ slot, amount (rewrite slot) = amount slot ∧ mark (rewrite slot) = mark slot) :
    program (tally amount mark)
        (liveSlots done (rewriteBuffer done rewrite (live ++ stop :: left))) =
      program (tally amount mark) live := by
  have shape : liveSlots done (live.map rewrite ++ stop :: left) = live.map rewrite := by
    rw [liveSlots, takeWhile_append_of_pos]
    · simp [stopped]
    · intro slot isIn
      obtain ⟨old, oldIn, rfl⟩ := List.mem_map.mp isIn
      simp [live_rewrite old (alive old oldIn)]
  have steps : tally amount mark ∘ rewrite = tally amount mark := by
    funext slot count
    rw [Function.comp_apply, tally, tally, (same slot).1, (same slot).2]
  rw [Bytecode.rewrite_buffer_live rewrite left alive stopped, shape, program, program,
    List.map_map, steps]

theorem sum_of_ones {Slot : Type} {amount : Slot → Nat} {run : List Slot}
    (ones : ∀ slot ∈ run, amount slot = 1) : (run.map amount).sum = run.length := by
  rw [map_congr_left ones, map_const', sum_replicate, smul_eq_mul, mul_one]

theorem bind_pairs_tallied : bindAddPairs.Sound (tally bindTimes bindMark) fun _ => True := by
  apply (bind_add_pairs_sound [] 0).tallies
  intro head rest old
  cases rest with
  | nil => exact .inl rfl
  | cons next rest =>
    dsimp only [bindAddPairs]
    split
    next pair =>
      right
      simp [bindMark, bindTimes, pair.1, pair.2]
    · exact .inl rfl

theorem bind_runs_tallied : skippingRuns.Sound (tally bindTimes bindMark) fun _ => True := by
  apply (skipping_runs_sound [] 0).tallies
  intro head rest old
  cases rest with
  | nil => exact .inl rfl
  | cons second rest =>
    dsimp only [skippingRuns]
    split
    next pair =>
      have ones : ∀ tmp ∈ (second :: rest).takeWhile fun tmp =>
          decide (tmp.opcode = .doBindAddAddrUleb ∧ tmp.operand1 = head.operand1),
          bindMark tmp = none ∧ bindTimes tmp = 1 := by
        intro tmp member
        have inside := mem_takeWhile_imp member
        simp [bindMark, bindTimes, (of_decide_eq_true inside).1]
      refine .inr ⟨rfl, ?_, ?_⟩
      · rw [InPlacePass.take_run, forall_mem_cons]
        exact ⟨by simp [bindMark, pair.1], fun tmp member => (ones tmp member).1⟩
      · rw [InPlacePass.take_run, map_cons, sum_cons,
          sum_of_ones fun tmp member => (ones tmp member).2, bindTimes, bindTimes, pair.1]
    · exact .inl rfl

theorem rebase_packs_tallied :
    RebaseOpcodes.packedRuns.Sound (tally rebaseTimes rebaseMark) fun _ => True := by
  apply (RebaseOpcodes.packed_runs_sound [] 0).tallies
  intro head rest old
  dsimp only [RebaseOpcodes.packedRuns]
  split
  next single =>
    have rebases : ∀ tmp ∈ rest.takeWhile fun tmp => decide (tmp.opcode = .doRebaseUlebTimes),
        tmp.opcode = .doRebaseUlebTimes := by
      intro tmp member
      have inside := mem_takeWhile_imp member
      exact of_decide_eq_true inside
    refine .inr ⟨by simp [rebaseMark, single.1], ?_, ?_⟩
    · rw [InPlacePass.take_run, forall_mem_cons]
      refine ⟨by simp [rebaseMark, single.1], fun tmp member => ?_⟩
      simp [rebaseMark, rebases tmp member]
    · have times : (rest.takeWhile fun tmp => decide (tmp.opcode = .doRebaseUlebTimes)).map
          rebaseTimes = (rest.takeWhile fun tmp => decide (tmp.opcode = .doRebaseUlebTimes)).map
            RebaseOpcodes.RebaseTmp.operand1 := by
        apply map_congr_left
        intro tmp member
        rw [rebaseTimes, rebases tmp member]
      rw [InPlacePass.take_run, map_cons, sum_cons, times]
      simp only [rebaseTimes, single.1]
  · exact .inl rfl

theorem rebase_pairs_tallied :
    RebaseOpcodes.rebaseAddPairs.Sound (tally rebaseTimes rebaseMark) fun _ => True := by
  apply (RebaseOpcodes.rebase_add_pairs_sound [] 0).tallies
  intro head rest old
  cases rest with
  | nil => exact .inl rfl
  | cons next rest =>
    dsimp only [RebaseOpcodes.rebaseAddPairs]
    split
    next pair =>
      right
      simp [rebaseMark, rebaseTimes, pair.1, pair.2.1, pair.2.2]
    · exact .inl rfl

theorem rebase_runs_tallied :
    RebaseOpcodes.skippingRuns.Sound (tally rebaseTimes rebaseMark) fun _ => True := by
  apply (RebaseOpcodes.skipping_runs_sound [] 0).tallies
  intro head rest old
  dsimp only [RebaseOpcodes.skippingRuns]
  split
  · split
    next second third rest triple =>
      have ones : ∀ tmp ∈ (second :: third :: rest).takeWhile fun tmp =>
          decide (tmp.opcode = .doRebaseAddAddrUleb ∧ tmp.operand1 = head.operand1),
          rebaseMark tmp = none ∧ rebaseTimes tmp = 1 := by
        intro tmp member
        have inside := mem_takeWhile_imp member
        simp [rebaseMark, rebaseTimes, (of_decide_eq_true inside).1]
      refine .inr ⟨rfl, ?_, ?_⟩
      · rw [InPlacePass.take_run, forall_mem_cons]
        exact ⟨by simp [rebaseMark, triple.1], fun tmp member => (ones tmp member).1⟩
      · rw [InPlacePass.take_run, map_cons, sum_cons,
          sum_of_ones fun tmp member => (ones tmp member).2, rebaseTimes, rebaseTimes, triple.1]
    · exact .inl rfl
  · exact .inl rfl

theorem rebase_immediate_tallied (tmp : RebaseOpcodes.RebaseTmp) :
    rebaseTimes (tmp.immediate pointerSize) = rebaseTimes tmp ∧
      rebaseMark (tmp.immediate pointerSize) = rebaseMark tmp := by
  unfold RebaseOpcodes.RebaseTmp.immediate
  split
  next scaled => simp [rebaseTimes, rebaseMark, scaled.1]
  · split
    next small => simp [rebaseTimes, rebaseMark, small.1]
    · exact ⟨rfl, rfl⟩

theorem weak_immediate_tallied (tmp : BindingTmp) :
    bindTimes (tmp.weakImmediate pointerSize) = bindTimes tmp ∧
      bindMark (tmp.weakImmediate pointerSize) = bindMark tmp := by
  unfold BindingTmp.weakImmediate
  split
  next scalable => simp [bindTimes, bindMark, (of_decide_eq_true scalable).1]
  · exact ⟨rfl, rfl⟩

theorem immediate_tallied (tmp : BindingTmp) :
    bindTimes (tmp.immediate pointerSize) = bindTimes tmp ∧
      bindMark (tmp.immediate pointerSize) = bindMark tmp := by
  rcases immediate_cases pointerSize tmp with same | ⟨kind, -, ordinal⟩
  · rw [same]
    exact weak_immediate_tallied tmp
  · rw [ordinal]
    simp [bindTimes, bindMark, kind]

end Passes

section Written

variable {Pointer : Type} {state : Encoder Pointer} {info : BindingInfo Pointer}

def Alive (ops : List BindingTmp) : Prop := ∀ tmp ∈ ops, isDone tmp = false

theorem quiet_alive {ops : List BindingTmp} (quiet : Quiet sections pointerSize ops) : Alive ops :=
  fun tmp member => (quiet.writable tmp member).1

theorem set_address_total (inside : Inside sections pointerSize info.address) :
    ∃ placed ops, state.setAddress sections info = some (placed, ops) ∧ Alive ops := by
  obtain ⟨found, isFound⟩ := inside.found
  unfold Encoder.setAddress
  split
  · split
    · rw [isFound]
      exact ⟨_, _, rfl, forall_mem_singleton.mpr rfl⟩
    · exact ⟨_, _, rfl, forall_mem_singleton.mpr rfl⟩
  · exact ⟨_, _, rfl, nofun⟩

theorem bind_total (inside : Inside sections pointerSize info.address) :
    ∃ next ops, state.bind sections pointerSize info = some (next, ops) ∧ Alive ops := by
  have quietType := (@set_type_quiet Pointer sections pointerSize state info).2
  obtain ⟨placed, address, set, alive⟩ := @set_address_total _ _ _ (state.setType info).1 _ inside
  have quietAddend := (@set_addend_quiet Pointer sections pointerSize placed info).2
  refine ⟨_, _, congrArg (Option.map _) set, ?_⟩
  rw [Alive, forall_mem_append, forall_mem_append, forall_mem_append, forall_mem_singleton]
  exact ⟨⟨⟨quiet_alive quietType, alive⟩, quiet_alive quietAddend⟩, rfl⟩

theorem loop_total
    {step : Encoder Pointer → BindingInfo Pointer → Option (Encoder Pointer × List BindingTmp)}
    {rest : List (BindingInfo Pointer)}
    (total : ∀ state, ∀ info ∈ rest, ∃ next ops, step state info = some (next, ops) ∧ Alive ops) :
    ∃ ops, bindingTmps step rest state = some ops ∧ Alive ops := by
  induction rest generalizing state with
  | nil => exact ⟨[], rfl, nofun⟩
  | cons info rest ih =>
    obtain ⟨next, here, stepped, alive⟩ := total state info mem_cons_self
    obtain ⟨later, made, rests⟩ := @ih next fun state info member =>
      total state info (mem_cons_of_mem _ member)
    have runs : bindingTmps step (info :: rest) state = some (here ++ later) :=
      bind_eq_some_iff.mpr ⟨_, stepped, bind_eq_some_iff.mpr ⟨later, made, rfl⟩⟩
    exact ⟨here ++ later, runs, forall_mem_append.mpr ⟨alive, rests⟩⟩

variable [DecidableEq Pointer] {string : Pointer → CString}

theorem step_total (inside : Inside sections pointerSize info.address) :
    ∃ next ops, state.step string sections pointerSize info = some (next, ops) ∧ Alive ops := by
  have quietOrdinal := (@set_ordinal_quiet Pointer sections pointerSize state info).2
  have quietSymbol :=
    (@set_symbol_quiet Pointer string sections pointerSize (state.setOrdinal info).1 info _).2
  obtain ⟨next, ops, bound, alive⟩ :=
    @bind_total _ _ _ ((state.setOrdinal info).1.setSymbol string info).1 _ inside
  refine ⟨_, _, congrArg (Option.map _) bound, ?_⟩
  rw [Alive, forall_mem_append, forall_mem_append]
  exact ⟨⟨quiet_alive quietOrdinal, quiet_alive quietSymbol⟩, alive⟩

theorem weak_step_total (inside : info.type ≠ .overrideOfWeakdefInDylib →
      Inside sections pointerSize info.address) :
    ∃ next ops, state.weakStep string sections pointerSize info = some (next, ops) ∧
      Alive ops := by
  have quiet := (@set_symbol_quiet Pointer string sections pointerSize state info _).2
  unfold Encoder.weakStep
  split
  next binds =>
    obtain ⟨next, ops, bound, alive⟩ :=
      @bind_total _ _ _ (state.setSymbol string info).1 _ (inside binds)
    exact ⟨_, _, congrArg (Option.map _) bound,
      forall_mem_append.mpr ⟨quiet_alive quiet, alive⟩⟩
  · exact ⟨_, _, rfl, quiet_alive quiet⟩

/-- The opcodes that are written announce what the opcodes of the loop announce. -/
theorem passes_tallied {tmps : List BindingTmp} {rewrite : BindingTmp → BindingTmp}
    (alive : Alive tmps) (live : ∀ tmp, isDone tmp = false → isDone (rewrite tmp) = false)
    (same : ∀ tmp, bindTimes (rewrite tmp) = bindTimes tmp ∧ bindMark (rewrite tmp) = bindMark tmp) :
    ∃ ops, (do
        let paired ← bindAddPairs.run (tmps ++ [doneTmp])
        let skipped ← skippingRuns.run paired
        some (liveSlots isDone (rewriteBuffer isDone rewrite skipped))) = some ops ∧
      bindAnnounced ops = (bindTally tmps 0).2 := by
  obtain ⟨_, _, out, stop, left, ran1, ran2, rfl, done, fits, tallied⟩ :=
    passes_sound bind_pairs_tallied bind_runs_tallied fun tmp member => ⟨alive tmp member, trivial⟩
  simp only [bind_eq_bind, ran1, ran2, bind_some]
  refine ⟨_, rfl, ?_⟩
  rw [bindAnnounced, tally_rewritten (fun tmp member => (fits tmp member).1) done live same,
    tallied]

variable {sorter : Sorter Pointer} {entries : List (BindingInfo Pointer)}

theorem bind_written_announces
    (inside : ∀ info ∈ entries, Inside sections pointerSize info.address) :
    ∃ ops, bindWritten string sorter sections pointerSize entries = some ops ∧
      bindAnnounced ops = announcements sections 0x70 (bindAfter pointerSize) (2 ^ 64 - 1) ⟨0, 0⟩ 0
        ((sorter.sort (BindingInfo.less string) entries).map BindingInfo.address) := by
  have perm := sorter.permutes (BindingInfo.less string) entries
  obtain ⟨tmps, made, alive⟩ := @loop_total _ {} _ _ fun state info member =>
    @step_total sections pointerSize _ state info _ string (inside info (perm.mem_iff.mp member))
  obtain ⟨ops, ran, announced⟩ := passes_tallied alive (fun _ => immediate_live pointerSize)
    (@immediate_tallied pointerSize)
  refine ⟨ops, bind_eq_some_iff.mpr ⟨tmps, made, ran⟩, announced.trans ?_⟩
  have walk := @loop_announces sections pointerSize Pointer {} tmps _ (fun _ => true)
    (fun stepped _ => step_parts stepped) nofun _ made 0
  rw [filter_true] at walk
  exact walk

def BindingInfo.binds (info : BindingInfo Pointer) : Bool := info.type ≠ .overrideOfWeakdefInDylib

theorem weak_written_announces (inside : ∀ info ∈ entries, BindingInfo.binds info = true →
      Inside sections pointerSize info.address) :
    ∃ ops, weakWritten string sorter sections pointerSize entries = some ops ∧
      bindAnnounced ops = announcements sections 0x70 (bindAfter pointerSize) (2 ^ 64 - 1) ⟨0, 0⟩ 0
        (((sorter.sort (BindingInfo.weakLess string) entries).filter BindingInfo.binds).map
          BindingInfo.address) := by
  have perm := sorter.permutes (BindingInfo.weakLess string) entries
  obtain ⟨tmps, made, alive⟩ := @loop_total _ {} _ _ fun state info member =>
    @weak_step_total sections pointerSize _ state info _ string fun type =>
      inside info (perm.mem_iff.mp member) (decide_eq_true type)
  obtain ⟨ops, ran, announced⟩ := passes_tallied alive (fun _ => weak_immediate_live pointerSize)
    (@weak_immediate_tallied pointerSize)
  refine ⟨ops, bind_eq_some_iff.mpr ⟨tmps, made, ran⟩, announced.trans ?_⟩
  exact loop_announces (fun stepped binds => (weak_step_parts stepped).1 (of_decide_eq_true binds))
    (fun stepped other => (weak_step_parts stepped).2 (not_not.mp (of_decide_eq_false other)))
    made 0

end Written

section RebasesWritten

open RebaseOpcodes (RebaseInfo RebaseTmp rebaseTmps)

theorem rebase_loop_total {rest : List RebaseInfo} {state : RebaseOpcodes.Encoder}
    (inside : ∀ info ∈ rest, Inside sections pointerSize info.address) :
    ∃ ops, rebaseTmps sections pointerSize rest state = some ops ∧
      ∀ tmp ∈ ops, RebaseOpcodes.isDone tmp = false := by
  induction rest generalizing state with
  | nil => exact ⟨[], rfl, nofun⟩
  | cons info rest ih =>
    rw [forall_mem_cons] at inside
    obtain ⟨found, isFound⟩ := inside.1.found
    have typed : ∀ tmp ∈ (state.setType info).2, RebaseOpcodes.isDone tmp = false :=
      fun tmp member => (RebaseOpcodes.set_type_writable state info tmp member).1
    obtain ⟨placed, address, set, alive⟩ : ∃ placed address,
        (state.setType info).1.setAddress sections info = some (placed, address) ∧
          ∀ tmp ∈ address, RebaseOpcodes.isDone tmp = false := by
      unfold RebaseOpcodes.Encoder.setAddress
      split
      · split
        · rw [isFound]
          exact ⟨_, _, rfl, forall_mem_singleton.mpr rfl⟩
        · exact ⟨_, _, rfl, forall_mem_singleton.mpr rfl⟩
      · exact ⟨_, _, rfl, nofun⟩
    obtain ⟨later, made, rests⟩ := @ih (placed.advance pointerSize) inside.2
    have runs : rebaseTmps sections pointerSize (info :: rest) state =
        some ((state.setType info).2 ++ address ++ [⟨.doRebaseUlebTimes, 1, 0⟩] ++ later) :=
      bind_eq_some_iff.mpr ⟨_, bind_eq_some_iff.mpr ⟨_, set, rfl⟩,
        bind_eq_some_iff.mpr ⟨later, made, rfl⟩⟩
    refine ⟨_, runs, ?_⟩
    rw [forall_mem_append, forall_mem_append, forall_mem_append, forall_mem_singleton]
    exact ⟨⟨⟨typed, alive⟩, rfl⟩, rests⟩

theorem rebase_written_announces {info : List RebaseInfo}
    (inside : ∀ rebase ∈ info, Inside sections pointerSize rebase.address) :
    ∃ ops, rebaseWritten sections pointerSize info = some ops ∧
      rebaseAnnounced ops = announcements sections 0x20 (rebaseAfter pointerSize) (2 ^ 64 - 1)
        ⟨0, 0⟩ 0 (info.map RebaseInfo.address) := by
  obtain ⟨tmps, made, alive⟩ := @rebase_loop_total sections pointerSize info {} inside
  obtain ⟨_, _, _, out, stop, left, ran1, ran2, ran3, rfl, done, fits, tallied⟩ :=
    RebaseOpcodes.passes_sound rebase_packs_tallied rebase_pairs_tallied rebase_runs_tallied
      fun tmp member => ⟨alive tmp member, trivial⟩
  rw [rebaseWritten, made]
  simp only [bind_eq_bind, bind_some, ran1, ran2, ran3]
  refine ⟨_, rfl, ?_⟩
  rw [rebaseAnnounced, RebaseOpcodes.useImmediates, tally_rewritten
    (fun tmp member => (fits tmp member).1) done
    (fun _ => RebaseOpcodes.immediate_live pointerSize) rebase_immediate_tallied, tallied]
  exact rebase_loop_announces made 0

end RebasesWritten

section Lazy

variable {Pointer : Type} {string : Pointer → CString}

theorem lazy_ordinal_silent (info : BindingInfo Pointer) :
    bindMark (lazyOrdinal info) = none ∧ bindTimes (lazyOrdinal info) = 0 := by
  unfold lazyOrdinal
  split
  · exact ⟨rfl, rfl⟩
  · split
    · exact ⟨rfl, rfl⟩
    · exact ⟨rfl, rfl⟩

theorem lazy_kept (separate : Separate (segments sections)) {addresses : List Nat} {count : Nat}
    {rest : List (BindingInfo Pointer)}
    (inside : ∀ info ∈ rest, Inside sections pointerSize info.address)
    (split : addresses.drop count = rest.map BindingInfo.address) :
    ∃ ops, lazyTmps string sections rest = some ops ∧
      ((∀ announced ∈ (bindTally ops count).2, Announces sections 7 addresses announced) ↔
        ∀ info ∈ rest, LowAt sections info.address) := by
  induction rest generalizing count with
  | nil => exact ⟨[], rfl, fun _ => nofun, fun _ => nofun⟩
  | cons info rest ih =>
    rw [forall_mem_cons] at inside
    obtain ⟨found, isFound⟩ := inside.1.found
    obtain ⟨place, split⟩ := drop_count split
    obtain ⟨later, made, kept⟩ := ih inside.2 split
    obtain ⟨lists, isLists, rfl⟩ := map_eq_some_iff.mp made
    obtain ⟨here, isHere, said⟩ : ∃ here, lazyWritten string sections info = some here ∧
        bindTally here count = (count + 1, [(count, pack 0x70 found.index)]) := by
      refine ⟨_, by rw [lazyWritten, isFound, map_some], ?_⟩
      obtain ⟨noMark, noTimes⟩ := lazy_ordinal_silent info
      simp only [bindTally, program_cons, program_nil, mul_one, mul_apply, tally, noMark, noTimes]
      rfl
    refine ⟨here ++ lists.flatten, ?_, ?_⟩
    · rw [lazyTmps, mapM_cons, isHere, isLists]
      rfl
    · rw [bindTally, program_events_then said, singleton_append, forall_mem_cons, forall_mem_cons,
        announces_iff separate 0x70 rfl (by decide) place isFound, kept]

end Lazy

/-- What an image has to rebase and to bind. -/
structure Entries (Pointer : Type) where
  rebases : List RebaseOpcodes.RebaseInfo
  binds : List (BindingInfo Pointer)
  weakBinds : List (BindingInfo Pointer)
  lazyBinds : List (BindingInfo Pointer)

section Main

variable {Pointer : Type} [DecidableEq Pointer] (string : Pointer → CString)
  (sorter : Sorter Pointer) (sections : List FinalSection) (pointerSize : Nat)
  (entries : Entries Pointer)

/-- The addresses in the order of the stream. -/
def Entries.rebaseAddresses : List Nat :=
  (entries.rebases.mergeSort RebaseOpcodes.RebaseInfo.notAfter).map RebaseOpcodes.RebaseInfo.address

def Entries.bindAddresses : List Nat :=
  (sorter.sort (BindingInfo.less string) entries.binds).map BindingInfo.address

def Entries.weakAddresses : List Nat :=
  ((sorter.sort (BindingInfo.weakLess string) entries.weakBinds).filter BindingInfo.binds).map
    BindingInfo.address

structure Entries.Located : Prop where
  rebases : ∀ rebase ∈ entries.rebases,
    Inside sections pointerSize rebase.address ∧ rebase.address ≠ 0
  binds : ∀ info ∈ entries.binds, Inside sections pointerSize info.address
  weakBinds : ∀ info ∈ entries.weakBinds, BindingInfo.binds info = true →
    Inside sections pointerSize info.address
  lazyBinds : ∀ info ∈ entries.lazyBinds, Inside sections pointerSize info.address

/-- Each byte of the four streams that announces a segment has its opcode and the number of the
segment of the location it is written for. -/
structure NibblesKept : Prop where
  rebases : ∀ ops, rebaseWritten sections pointerSize
      (entries.rebases.mergeSort RebaseOpcodes.RebaseInfo.notAfter) = some ops →
    RebaseOpcodes.encode sections pointerSize entries.rebases =
      some (RebaseOpcodes.padToSize pointerSize (ops.flatMap RebaseOpcodes.RebaseTmp.bytes)) ∧
    ∀ announced ∈ rebaseAnnounced ops, Announces sections 2 entries.rebaseAddresses announced
  binds : ∀ ops, bindWritten string sorter sections pointerSize entries.binds = some ops →
    encodeV1 string sorter sections pointerSize entries.binds =
      some (RebaseOpcodes.padToSize pointerSize (ops.flatMap BindingTmp.bytes)) ∧
    ∀ announced ∈ bindAnnounced ops,
      Announces sections 7 (entries.bindAddresses string sorter) announced
  weakBinds : ∀ ops, weakWritten string sorter sections pointerSize entries.weakBinds = some ops →
    (entries.weakBinds ≠ [] →
      ∃ last, weakEncode string sorter sections pointerSize entries.weakBinds =
          some (RebaseOpcodes.padToSize pointerSize (ops.flatMap BindingTmp.bytes ++ last)) ∧
        (last = [] ∨ last = [0])) ∧
    ∀ announced ∈ bindAnnounced ops,
      Announces sections 7 (entries.weakAddresses string sorter) announced
  lazyBinds : ∀ ops, lazyTmps string sections entries.lazyBinds = some ops →
    (lazyEncode string sections pointerSize entries.lazyBinds).map Prod.fst =
      some (RebaseOpcodes.padToSize pointerSize (ops.flatMap BindingTmp.weakBytes)) ∧
    ∀ announced ∈ bindAnnounced ops,
      Announces sections 7 (entries.lazyBinds.map BindingInfo.address) announced

/-- Rebases and lazy binds are in the first 16 segments, and so are the binds that do not follow
right behind another one. -/
structure Entries.FitNibbles : Prop where
  rebases : ∀ rebase ∈ entries.rebases, LowAt sections rebase.address
  binds : LowOrNext sections pointerSize none (entries.bindAddresses string sorter)
  weakBinds : LowOrNext sections pointerSize none (entries.weakAddresses string sorter)
  lazyBinds : ∀ info ∈ entries.lazyBinds, LowAt sections info.address

variable {string sorter sections pointerSize entries}

theorem empty_current (address : Nat) (holds : (⟨0, 0⟩ : Segment).Contains address) :
    LowAt sections address := absurd holds.2 (Nat.not_lt_zero _)

omit [DecidableEq Pointer] in
theorem rebases_kept_iff (separate : Separate (segments sections))
    (located : entries.Located sections pointerSize) :
    ∃ ops, rebaseWritten sections pointerSize
        (entries.rebases.mergeSort RebaseOpcodes.RebaseInfo.notAfter) = some ops ∧
      ((∀ announced ∈ rebaseAnnounced ops,
          Announces sections 2 entries.rebaseAddresses announced) ↔
        ∀ rebase ∈ entries.rebases, LowAt sections rebase.address) := by
  have perm := mergeSort_perm entries.rebases RebaseOpcodes.RebaseInfo.notAfter
  have sorted (rebase) (member : rebase ∈ entries.rebases.mergeSort _) :=
    located.rebases rebase (perm.mem_iff.mp member)
  obtain ⟨ops, written, walk⟩ := rebase_written_announces fun rebase member =>
    (sorted rebase member).1
  refine ⟨ops, written, ?_⟩
  rw [walk, rebase_walk_kept separate empty_current
    (List.forall_mem_map.mpr fun rebase member => (sorted rebase member).1)
    (List.forall_mem_map.mpr fun rebase member => (sorted rebase member).2) (.inl rfl)
    (rfl : entries.rebaseAddresses.drop 0 = _), List.forall_mem_map]
  exact forall_congr' fun rebase => by rw [perm.mem_iff]

/-- No number is corrupted, if and only if each location that needs an announcement is in one of
the first 16 segments. -/
theorem nibbles_kept_iff (separate : Separate (segments sections))
    (located : entries.Located sections pointerSize) :
    NibblesKept string sorter sections pointerSize entries ↔
      entries.FitNibbles string sorter sections pointerSize := by
  obtain ⟨rebaseOps, rebasesWritten, rebases⟩ := rebases_kept_iff separate located
  obtain ⟨bindOps, bindsWritten, bindWalk⟩ :=
    @bind_written_announces sections pointerSize _ _ string sorter _ located.binds
  obtain ⟨weakOps, weakIsWritten, weakWalk⟩ :=
    @weak_written_announces sections pointerSize _ _ string sorter _ located.weakBinds
  obtain ⟨lazyOps, lazyIsWritten, lazyBinds⟩ := @lazy_kept sections pointerSize _ string separate
    (entries.lazyBinds.map BindingInfo.address) 0 _ located.lazyBinds drop_zero
  have bindPerm := sorter.permutes (BindingInfo.less string) entries.binds
  have weakPerm := sorter.permutes (BindingInfo.weakLess string) entries.weakBinds
  have binds := @bind_walk_kept sections pointerSize separate
    (entries.bindAddresses string sorter) _ 0 ⟨0, 0⟩ empty_current
    (List.forall_mem_map.mpr fun info member => located.binds info (bindPerm.mem_iff.mp member)) none _
    rfl drop_zero
  have weakBinds := @bind_walk_kept sections pointerSize separate
    (entries.weakAddresses string sorter) _ 0 ⟨0, 0⟩ empty_current
    (List.forall_mem_map.mpr fun info member => located.weakBinds info
      (weakPerm.mem_iff.mp (mem_filter.mp member).1) (mem_filter.mp member).2) none _
    rfl drop_zero
  constructor
  · intro kept
    refine ⟨rebases.mp (kept.rebases _ rebasesWritten).2, binds.mp ?_, weakBinds.mp ?_,
      lazyBinds.mp (kept.lazyBinds _ lazyIsWritten).2⟩
    · exact bindWalk ▸ (kept.binds _ bindsWritten).2
    · exact weakWalk ▸ (kept.weakBinds _ weakIsWritten).2
  · intro fit
    constructor
    · intro ops written
      cases rebasesWritten.symm.trans written
      exact ⟨by rw [rebase_sorted_written, written, map_some], rebases.mpr fit.rebases⟩
    · intro ops written
      cases bindsWritten.symm.trans written
      exact ⟨by rw [bind_encode_written, written, map_some], bindWalk ▸ binds.mpr fit.binds⟩
    · intro ops written
      cases weakIsWritten.symm.trans written
      exact ⟨fun nonempty => weak_encode_written nonempty written,
        weakWalk ▸ weakBinds.mpr fit.weakBinds⟩
    · intro ops written
      cases lazyIsWritten.symm.trans written
      refine ⟨?_, lazyBinds.mpr fit.lazyBinds⟩
      obtain ⟨stream, isStream, bytes⟩ := map_eq_some_iff.mp (lazy_stream_written [] written)
      rw [lazyEncode, isStream, map_some, map_some, bytes, nil_append]

end Main

/-- The second bind is in the segment 16, right behind the first one. -/
def lowEntries : Entries Nat where
  rebases := [⟨.pointer, 0x1000⟩, ⟨.pointer, 0x2008⟩]
  binds := [bindAt 0x10FF8, bindAt 0x11000]
  weakBinds := [bindAt 0x1FF0, bindAt 0x2000]
  lazyBinds := [bindAt 0x3000, bindAt 0x4000]

theorem inside_many {address : Nat} (index : Nat)
    (holds : ∀ segment ∈ (segments manySections)[index]?,
      segment.start ≤ address ∧ address + 8 ≤ segment.finish)
    (small : index < (segments manySections).length) : Inside manySections 8 address := by
  obtain ⟨low, high⟩ := holds _ (getElem?_eq_getElem small)
  exact ⟨_, getElem_mem small, ⟨low, by omega⟩, high⟩

theorem low_entries_located : lowEntries.Located manySections 8 := by
  constructor
  all_goals rw [lowEntries, forall_mem_cons, forall_mem_singleton]
  · exact ⟨⟨inside_many 0 (by decide +kernel) (by decide +kernel), by decide⟩,
      inside_many 1 (by decide +kernel) (by decide +kernel), by decide⟩
  · exact ⟨inside_many 15 (by decide +kernel) (by decide +kernel),
      inside_many 16 (by decide +kernel) (by decide +kernel)⟩
  · exact ⟨fun _ => inside_many 0 (by decide +kernel) (by decide +kernel),
      fun _ => inside_many 1 (by decide +kernel) (by decide +kernel)⟩
  · exact ⟨inside_many 2 (by decide +kernel) (by decide +kernel),
      inside_many 3 (by decide +kernel) (by decide +kernel)⟩

theorem low_entries_kept : NibblesKept lettersAt mergeSorter manySections 8 lowEntries := by
  refine (nibbles_kept_iff many_separate low_entries_located).mpr ⟨?_, ?_, ?_, ?_⟩
  · rw [lowEntries, forall_mem_cons, forall_mem_singleton]
    exact ⟨low_at_many (by decide : 0 < 16) (by decide +kernel),
      low_at_many (by decide : 1 < 16) (by decide +kernel)⟩
  · rw [Entries.bindAddresses, lowEntries, sorted_binds rfl]
    exact ⟨.inl (low_at_many (by decide : 15 < 16) (by decide +kernel)),
      .inr ⟨0x10FF8, rfl, rfl⟩, trivial⟩
  · rw [Entries.weakAddresses, lowEntries, sorted_binds rfl]
    exact ⟨.inl (low_at_many (by decide : 0 < 16) (by decide +kernel)),
      .inl (low_at_many (by decide : 1 < 16) (by decide +kernel)), trivial⟩
  · rw [lowEntries, forall_mem_cons, forall_mem_singleton]
    exact ⟨low_at_many (by decide : 2 < 16) (by decide +kernel),
      low_at_many (by decide : 3 < 16) (by decide +kernel)⟩

def highEntries : Entries Nat := ⟨[⟨.pointer, 0x11000⟩], [], [], [bindAt 0x11000]⟩

/-- In the segment 16: the opcode of the rebase becomes another opcode, and the lazy bind
announces the segment 0. -/
theorem seventeenth_segment_corrupted : Separate (segments manySections) ∧
      highEntries.Located manySections 8 ∧
      rebaseWritten manySections 8 highEntries.rebases =
        some [⟨.setTypeImm, 1, 0⟩, ⟨.setSegmentAndOffsetUleb, 16, 0⟩, ⟨.doRebaseImmTimes, 1, 0⟩] ∧
      rebaseAnnounced [⟨.setTypeImm, 1, 0⟩, ⟨.setSegmentAndOffsetUleb, 16, 0⟩,
        ⟨.doRebaseImmTimes, 1, 0⟩] = [(0, 0x30)] ∧
      (lazyTmps lettersAt manySections highEntries.lazyBinds).map bindAnnounced =
        some [(0, 0x70)] ∧
      ¬ NibblesKept lettersAt mergeSorter manySections 8 highEntries := by
  have inside : Inside manySections 8 0x11000 :=
    inside_many 16 (by decide +kernel) (by decide +kernel)
  have written : rebaseWritten manySections 8 highEntries.rebases =
      some [⟨.setTypeImm, 1, 0⟩, ⟨.setSegmentAndOffsetUleb, 16, 0⟩, ⟨.doRebaseImmTimes, 1, 0⟩] := by
    decide +kernel
  refine ⟨many_separate, ⟨?_, nofun, nofun, ?_⟩, written, by decide +kernel, by decide +kernel, ?_⟩
  · exact forall_mem_singleton.mpr ⟨inside, by decide⟩
  · exact forall_mem_singleton.mpr inside
  intro kept
  have sorted : highEntries.rebases.mergeSort RebaseOpcodes.RebaseInfo.notAfter =
      highEntries.rebases := mergeSort_singleton _
  have announces := (kept.rebases _ (sorted ▸ written)).2 (0, 0x30) (by decide +kernel)
  exact absurd announces.1 (by decide)

end DeveloperTools.Ld64.SegmentNibbles
