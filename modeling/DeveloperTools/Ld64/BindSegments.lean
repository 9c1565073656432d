import DeveloperTools.Ld64.BindFaithful

/-!
The loop of `BindingInfoAtom::encodeV1` moves its running address on by a pointer after a bind,
and emits no opcode when the next bind is at that address, even when the address is not in the
segment any more. A stream is followed here with the segment that the last opcode of that kind
gave.
-/

namespace DeveloperTools.Ld64.BindOpcodes

open List Option Transducer

abbrev Place := Option Nat × Nat

/-- The binds as places. The segment is that before the opcode, which no opcode that binds
changes. -/
def watch (step : Transducer Machine Event) : Transducer Machine Place := fun machine =>
  ((step machine).1,
    ((step machine).2.filterMap Event.bind?).map fun bound => (machine.segment, bound.address))

def BindingTmp.places (layout : List Segment) (pointerSize : Nat) (tmp : BindingTmp) :
    Transducer Machine Place :=
  watch (tmp.meaning layout pointerSize)

def boundPlaces (layout : List Segment) (pointerSize : Nat) (stream : Bytes) :
    Option (List Place) :=
  (codeWith (BindingTmp.places layout pointerSize)).interpret stream.length stream {}

def InSegment (layout : List Segment) (place : Place) : Prop :=
  ∃ index segment, place.1 = some index ∧ layout[index]? = some segment ∧ segment.Contains place.2

/-- Every bind of the stream is in the segment that was announced. -/
def StaysInSegments (layout : List Segment) (pointerSize : Nat) (stream : Bytes) : Prop :=
  ∃ places, boundPlaces layout pointerSize stream = some places ∧
    ∀ place ∈ places, InSegment layout place

section Phases

variable {layout : List Segment} {pointerSize : Nat}

def KeepsSegment (step : Transducer Machine Event) : Prop :=
  ∀ machine, (step machine).1.segment = machine.segment

theorem watch_mul {first : Transducer Machine Event} (keeps : KeepsSegment first)
    (second : Transducer Machine Event) : watch (first * second) = watch first * watch second := by
  funext machine
  simp only [watch, mul_apply, filterMap_append, map_append, keeps machine]

theorem watch_program {ops : List BindingTmp}
    (keeps : ∀ tmp ∈ ops, KeepsSegment (tmp.meaning layout pointerSize)) :
    watch (Transducer.program (BindingTmp.meaning layout pointerSize) ops) =
      Transducer.program (BindingTmp.places layout pointerSize) ops := by
  induction ops with
  | nil => rfl
  | cons tmp rest ih =>
    rw [forall_mem_cons] at keeps
    rw [program_cons, program_cons, watch_mul keeps.1, ih keeps.2]
    rfl

theorem bind_keeps_segment (skip : Nat) : KeepsSegment (bindOnce pointerSize skip) := fun _ => rfl

theorem places_sound {pass : InPlacePass BindingTmp} {valid : BindingTmp → Prop}
    (sound : pass.Sound (BindingTmp.meaning layout pointerSize) valid)
    (keeps : ∀ head rest old, (pass.rewrite head rest old).2 ≠ 0 →
      ∀ tmp ∈ head :: rest.take (pass.rewrite head rest old).2,
        KeepsSegment (tmp.meaning layout pointerSize)) :
    pass.Sound (BindingTmp.places layout pointerSize) valid where
  marked := sound.marked
  live := sound.live
  within := sound.within
  keeps := sound.keeps
  same head rest old alive := by
    have same := congrArg watch (sound.same head rest old alive)
    by_cases single : (pass.rewrite head rest old).2 = 0
    · rw [single, take_zero, program_nil, mul_one] at same ⊢
      exact same
    have kept := keeps head rest old single
    have whole := watch_program kept
    exact same.trans whole

theorem pairs_keep_places :
    bindAddPairs.Sound (BindingTmp.places layout pointerSize) BindingTmp.Encodable := by
  apply places_sound (bind_add_pairs_sound layout pointerSize)
  intro head rest old more tmp isIn
  cases rest with
  | nil => exact absurd rfl more
  | cons next rest =>
    dsimp only [bindAddPairs] at more isIn
    split at isIn
    next pair =>
      rw [take_succ_cons, take_zero, mem_cons, mem_singleton] at isIn
      rcases isIn with rfl | rfl
      · rw [BindingTmp.meaning, pair.1]
        exact bind_keeps_segment 0
      · rw [BindingTmp.meaning, pair.2]
        exact fun _ => rfl
    next other =>
      rw [if_neg other] at more
      exact absurd rfl more

theorem runs_keep_places :
    skippingRuns.Sound (BindingTmp.places layout pointerSize) BindingTmp.Encodable := by
  apply places_sound (skipping_runs_sound layout pointerSize)
  intro head rest old more tmp isIn
  cases rest with
  | nil => exact absurd rfl more
  | cons second rest =>
    dsimp only [skippingRuns] at more isIn
    split at isIn
    next run =>
      rw [InPlacePass.take_run, mem_cons] at isIn
      rcases isIn with rfl | isIn
      · rw [BindingTmp.meaning, run.1]
        exact bind_keeps_segment _
      · have inside := mem_takeWhile_imp isIn
        rw [BindingTmp.meaning, (of_decide_eq_true inside).1]
        exact bind_keeps_segment _
    next other =>
      rw [if_neg other] at more
      exact absurd rfl more

end Phases

section Loop

variable {Pointer : Type} {string : Pointer → CString} {sections : List FinalSection}
  {pointerSize : Nat} {state : Encoder Pointer} {machine : Machine}
  {info : BindingInfo Pointer}

abbrev placesOf (sections : List FinalSection) (pointerSize : Nat) (ops : List BindingTmp) :
    Transducer Machine Place :=
  Transducer.program (BindingTmp.places (segments sections) pointerSize) ops

def isSetting : Opcode → Bool
  | .setDylibOrdinalUleb | .setDylibSpecialImm | .setSymbolTrailingFlagsImm | .setTypeImm
  | .setAddendSleb => true
  | _ => false

structure Quiet (sections : List FinalSection) (pointerSize : Nat) (ops : List BindingTmp) :
    Prop where
  writable : Writable ops
  stays : ∀ machine, ∃ reached, placesOf sections pointerSize ops machine = (reached, []) ∧
    reached.segment = machine.segment ∧ reached.address = machine.address ∧
    reached.threaded = machine.threaded
  settings : ∀ tmp ∈ ops, isSetting tmp.opcode = true

theorem quiet_nil : Quiet sections pointerSize [] :=
  ⟨writable_nil, fun machine => ⟨machine, rfl, rfl, rfl, rfl⟩, nofun⟩

theorem quiet_append {first second : List BindingTmp} (one : Quiet sections pointerSize first)
    (other : Quiet sections pointerSize second) : Quiet sections pointerSize (first ++ second) := by
  refine ⟨writable_append one.writable other.writable, fun machine => ?_,
    forall_mem_append.mpr ⟨one.settings, other.settings⟩⟩
  obtain ⟨middle, early, segment, address, threaded⟩ := one.stays machine
  obtain ⟨reached, late, segment', address', threaded'⟩ := other.stays middle
  exact ⟨reached, program_then early late, segment'.trans segment,
    address'.trans address, threaded'.trans threaded⟩

theorem quiet_setting {tmp : BindingTmp} (sets : isSetting tmp.opcode = true)
    (encodable : tmp.Encodable) : Quiet sections pointerSize [tmp] := by
  refine ⟨?_, ?_, forall_mem_singleton.mpr sets⟩
  all_goals obtain ⟨opcode, operand1, operand2, name⟩ := tmp
  · apply writable_singleton _ encodable
    cases opcode <;> first | rfl | cases sets
  · intro machine
    cases opcode <;> first | exact ⟨_, rfl, rfl, rfl, rfl⟩ | cases sets

def SamePlace (left right : Encoder Pointer) : Prop :=
  left.address = right.address ∧ left.curSegStart = right.curSegStart ∧
    left.curSegEnd = right.curSegEnd ∧ left.curSegIndex = right.curSegIndex

theorem SamePlace.trans {left middle right : Encoder Pointer} (first : SamePlace left middle)
    (second : SamePlace middle right) : SamePlace left right :=
  ⟨first.1.trans second.1, first.2.1.trans second.2.1, first.2.2.1.trans second.2.2.1,
    first.2.2.2.trans second.2.2.2⟩

theorem set_ordinal_quiet : SamePlace (state.setOrdinal info).1 state ∧
    Quiet sections pointerSize (state.setOrdinal info).2 := by
  unfold Encoder.setOrdinal
  split
  · refine ⟨⟨rfl, rfl, rfl, rfl⟩, ?_⟩
    split
    · exact quiet_setting rfl trivial
    · exact quiet_setting rfl trivial
  · exact ⟨⟨rfl, rfl, rfl, rfl⟩, quiet_nil⟩

theorem set_symbol_quiet [DecidableEq Pointer] : SamePlace (state.setSymbol string info).1 state ∧
      Quiet sections pointerSize (state.setSymbol string info).2 := by
  unfold Encoder.setSymbol
  split
  · exact ⟨⟨rfl, rfl, rfl, rfl⟩, quiet_setting rfl
      ⟨flags_code_small info.flags, (string info.symbolName).noNul⟩⟩
  · exact ⟨⟨rfl, rfl, rfl, rfl⟩, quiet_nil⟩

theorem set_type_quiet : SamePlace (state.setType info).1 state ∧
    Quiet sections pointerSize (state.setType info).2 := by
  unfold Encoder.setType
  split
  · exact ⟨⟨rfl, rfl, rfl, rfl⟩, quiet_setting rfl (type_code_small info.type)⟩
  · exact ⟨⟨rfl, rfl, rfl, rfl⟩, quiet_nil⟩

theorem set_addend_quiet : SamePlace (state.setAddend info).1 state ∧
    Quiet sections pointerSize (state.setAddend info).2 := by
  unfold Encoder.setAddend
  split
  · exact ⟨⟨rfl, rfl, rfl, rfl⟩, quiet_setting rfl trivial⟩
  · exact ⟨⟨rfl, rfl, rfl, rfl⟩, quiet_nil⟩

/-- What the loop knows of the machine behind a bind; at first there is none. -/
def Follows (sections : List FinalSection) (pointerSize : Nat)
    (last : Option (BindingInfo Pointer)) (state : Encoder Pointer) (machine : Machine) : Prop :=
  machine.threaded = false ∧ state.address < 2 ^ 64 ∧
    match last with
    | none => machine.segment = none ∧ state.curSegEnd = 0 ∧ state.address = 2 ^ 64 - 1
    | some last =>
      machine.address = state.address ∧ machine.segment = some state.curSegIndex ∧
        (segments sections)[state.curSegIndex]? = some ⟨state.curSegStart, state.curSegEnd⟩ ∧
        state.address = (last.address + pointerSize) % 2 ^ 64 ∧
        (⟨state.curSegStart, state.curSegEnd⟩ : Segment).Contains last.address

variable {last : Option (BindingInfo Pointer)}

/-- A bind that follows the last one right away is in the same segment. -/
def KeptAfter (layout : List Segment) (pointerSize : Nat) (last : Option (BindingInfo Pointer))
    (next : BindingInfo Pointer) : Prop :=
  match last with
  | none => next.address ≠ 2 ^ 64 - 1
  | some last => next.address = (last.address + pointerSize) % 2 ^ 64 →
      ∃ segment ∈ layout, segment.Contains last.address ∧ segment.Contains next.address

structure StandsAt (sections : List FinalSection) (info : BindingInfo Pointer)
    (placed : Encoder Pointer) (reached : Machine) : Prop where
  address : reached.address = info.address
  segment : reached.segment = some placed.curSegIndex
  found : (segments sections)[placed.curSegIndex]? = some ⟨placed.curSegStart, placed.curSegEnd⟩
  holds : (⟨placed.curSegStart, placed.curSegEnd⟩ : Segment).Contains info.address

structure Places (sections : List FinalSection) (pointerSize : Nat)
    (last : Option (BindingInfo Pointer)) (machine : Machine) (info : BindingInfo Pointer)
    (placed : Encoder Pointer) (ops : List BindingTmp) (reached : Machine) : Prop where
  address : placed.address = info.address
  bounded : info.address < 2 ^ 64
  quiet : placesOf sections pointerSize ops machine = (reached, [])
  plain : reached.threaded = false
  stands : (KeptAfter (segments sections) pointerSize last info ∧
      StandsAt sections info placed reached) ∨
    (¬ KeptAfter (segments sections) pointerSize last info ∧
      ¬ InSegment (segments sections) (reached.segment, reached.address))

variable {ops : List BindingTmp} {placed : Encoder Pointer}

theorem set_address_writable (low : LowAt sections info.address)
    (set : state.setAddress sections info = some (placed, ops)) : Writable ops := by
  unfold Encoder.setAddress at set
  split at set
  · split at set
    · obtain ⟨found, isFound, isPlaced⟩ := map_eq_some_iff.mp set
      cases isPlaced
      exact writable_singleton rfl (low _ isFound)
    · cases set
      exact writable_singleton rfl trivial
  · cases set
    exact writable_nil

variable [DecidableEq Pointer] {next : Encoder Pointer}

/-- A round that binds: settings, the address, the addend and the bind itself. -/
def Bound (sections : List FinalSection) (pointerSize : Nat) (state : Encoder Pointer)
    (info : BindingInfo Pointer) (next : Encoder Pointer) (ops : List BindingTmp) : Prop :=
  ∃ before placed address addend, SamePlace before state ∧
    before.setAddress sections info = some (placed, address) ∧
    next = (placed.setAddend info).1.advance pointerSize ∧
    addend = (placed.setAddend info).2 ∧
    ∃ settings, Quiet sections pointerSize settings ∧
      ops = settings ++ (address ++ (addend ++ [{ opcode := .doBind, operand1 := 0 }]))

omit [DecidableEq Pointer] in
theorem bind_parts (bound : state.bind sections pointerSize info = some (next, ops)) :
    Bound sections pointerSize state info next ops := by
  obtain ⟨⟨placed, address⟩, isPlaced, isBound⟩ := map_eq_some_iff.mp bound
  cases isBound
  obtain ⟨same, quiet⟩ := @set_type_quiet Pointer sections pointerSize state info
  refine ⟨_, placed, address, _, same, isPlaced, rfl, rfl, _, quiet, ?_⟩
  simp only [append_assoc]

omit [DecidableEq Pointer] in
theorem Bound.after {middle : Encoder Pointer} {early : List BindingTmp}
    (bound : Bound sections pointerSize middle info next ops) (same : SamePlace middle state)
    (quiet : Quiet sections pointerSize early) :
    Bound sections pointerSize state info next (early ++ ops) := by
  obtain ⟨before, placed, address, addend, same', set, moved, isAddend, settings, quiet', rfl⟩ :=
    bound
  exact ⟨before, placed, address, addend, same'.trans same, set, moved, isAddend, _,
    quiet_append quiet quiet', (append_assoc _ _ _).symm⟩

theorem step_parts (stepped : state.step string sections pointerSize info = some (next, ops)) :
    Bound sections pointerSize state info next ops := by
  obtain ⟨⟨reached, bind⟩, isBound, isStep⟩ := map_eq_some_iff.mp stepped
  cases isStep
  obtain ⟨sameOrdinal, quietOrdinal⟩ := @set_ordinal_quiet Pointer sections pointerSize state info
  obtain ⟨sameSymbol, quietSymbol⟩ :=
    @set_symbol_quiet Pointer string sections pointerSize (state.setOrdinal info).1 info _
  exact (bind_parts isBound).after (sameSymbol.trans sameOrdinal)
    (quiet_append quietOrdinal quietSymbol)

theorem weak_step_parts
    (stepped : state.weakStep string sections pointerSize info = some (next, ops)) :
    (info.type ≠ .overrideOfWeakdefInDylib → Bound sections pointerSize state info next ops) ∧
      (info.type = .overrideOfWeakdefInDylib →
        SamePlace next state ∧ Quiet sections pointerSize ops) := by
  obtain ⟨same, quiet⟩ := @set_symbol_quiet Pointer string sections pointerSize state info _
  unfold Encoder.weakStep at stepped
  split at stepped
  next binds =>
    refine ⟨fun _ => ?_, fun type => absurd type binds⟩
    obtain ⟨⟨reached, bind⟩, isBound, isStep⟩ := map_eq_some_iff.mp stepped
    cases isStep
    exact (bind_parts isBound).after same quiet
  next other =>
    refine ⟨fun type => absurd type other, fun _ => ?_⟩
    rw [Option.some.inj stepped] at same quiet
    exact ⟨same, quiet⟩

omit [DecidableEq Pointer] in
theorem Bound.writable (low : LowAt sections info.address)
    (bound : Bound sections pointerSize state info next ops) : Writable ops := by
  obtain ⟨before, placed, address, addend, _, set, _, rfl, settings, quiet, rfl⟩ := bound
  have quietAddend := (@set_addend_quiet Pointer sections pointerSize placed info).2
  exact writable_append quiet.writable (writable_append (set_address_writable low set)
    (writable_append quietAddend.writable (writable_singleton rfl trivial)))

theorem step_writable (low : LowAt sections info.address)
    (stepped : state.step string sections pointerSize info = some (next, ops)) : Writable ops :=
  (step_parts stepped).writable low

theorem weak_step_writable (low : LowAt sections info.address)
    (stepped : state.weakStep string sections pointerSize info = some (next, ops)) :
    Writable ops := by
  by_cases type : info.type = .overrideOfWeakdefInDylib
  · exact ((weak_step_parts stepped).2 type).2.writable
  · exact ((weak_step_parts stepped).1 type).writable low

/-- No bind follows another one right away in another segment. -/
def Kept (layout : List Segment) (pointerSize : Nat) :
    Option (BindingInfo Pointer) → List (BindingInfo Pointer) → Prop
  | _, [] => True
  | last, next :: rest =>
    KeptAfter layout pointerSize last next ∧ Kept layout pointerSize (some next) rest

variable {rest : List (BindingInfo Pointer)}

omit [DecidableEq Pointer] in
theorem run_writable
    {step : Encoder Pointer → BindingInfo Pointer → Option (Encoder Pointer × List BindingTmp)}
    (writes : ∀ {state info next ops}, info ∈ rest → step state info = some (next, ops) →
      Writable ops)
    (made : bindingTmps step rest state = some ops) :
    Writable ops := by
  induction rest generalizing state ops with
  | nil =>
    cases made
    exact writable_nil
  | cons info rest ih =>
    obtain ⟨⟨next, here⟩, stepped, made⟩ := bind_eq_some_iff.mp made
    obtain ⟨later, rests, isOps⟩ := bind_eq_some_iff.mp made
    cases isOps
    exact writable_append (writes mem_cons_self stepped)
      (ih (fun member => writes (mem_cons_of_mem info member)) rests)

section

variable (separate : Separate (segments sections))
include separate

section

variable (follows : Follows sections pointerSize last state machine)
include follows

omit [DecidableEq Pointer] in
theorem same_address_places (same : state.address = info.address) :
    Places sections pointerSize last machine info state [] machine := by
  obtain ⟨plain, bounded, known⟩ := follows
  refine ⟨same, same ▸ bounded, rfl, plain, ?_⟩
  cases last with
  | none =>
    obtain ⟨segment, _, start⟩ := known
    refine Or.inr ⟨fun kept => kept (same.symm.trans start), ?_⟩
    rintro ⟨index, _, isIndex, _⟩
    cases segment.symm.trans isIndex
  | some last =>
    obtain ⟨address, segment, found, next, holds⟩ := known
    by_cases inside : (⟨state.curSegStart, state.curSegEnd⟩ : Segment).Contains info.address
    · exact Or.inl ⟨fun _ => ⟨_, mem_of_getElem? found, holds, inside⟩,
        address.trans same, segment, found, inside⟩
    refine Or.inr ⟨fun kept => ?_, ?_⟩
    · obtain ⟨other, isIn, holdsLast, holdsNext⟩ := kept (same.symm.trans next)
      obtain ⟨index, isOther⟩ := getElem?_of_mem isIn
      have sameIndex := separate _ _ _ _ _ isOther found holdsLast holds
      rw [sameIndex, found] at isOther
      cases isOther
      exact inside holdsNext
    · rintro ⟨index, other, isIndex, isOther, holdsNext⟩
      rw [segment] at isIndex
      cases isIndex
      rw [found] at isOther
      cases isOther
      rw [address, same] at holdsNext
      exact inside holdsNext

omit [DecidableEq Pointer] in
theorem set_address_places (set : state.setAddress sections info = some (placed, ops)) :
    ∃ reached, Places sections pointerSize last machine info placed ops reached := by
  unfold Encoder.setAddress at set
  split at set
  next moved =>
    have kept : KeptAfter (segments sections) pointerSize last info := by
      obtain ⟨_, _, known⟩ := follows
      cases last with
      | none => exact fun start => moved (known.2.2.trans start.symm)
      | some last => exact fun next => absurd (known.2.2.2.1.trans next.symm) moved
    split at set
    · obtain ⟨found, isFound, isPlaced⟩ := map_eq_some_iff.mp set
      cases isPlaced
      obtain ⟨foundPlace, start, finish⟩ := find_segment_sound isFound
      have below := segments_finish _ (mem_of_getElem? foundPlace)
      have address : (found.start + (info.address - found.start)) % 2 ^ 64 = info.address := by
        dsimp only at below
        omega
      refine ⟨{ machine with segment := some found.index, address := info.address },
        rfl, ?_, ?_, follows.1, Or.inl ⟨kept, rfl, rfl, foundPlace, start, finish⟩⟩
      · dsimp only at below
        omega
      · rw [placesOf, program_singleton]
        simp only [BindingTmp.places, watch, BindingTmp.meaning, foundPlace, elim_some,
          address, filterMap_nil, map_nil]
    next inside =>
      cases set
      obtain ⟨plain, bounded, known⟩ := follows
      cases last with
      | none =>
        rw [known.2.1] at inside
        exact absurd (Or.inr (Nat.zero_le _)) inside
      | some last =>
        obtain ⟨address, segment, found, _, _⟩ := known
        have below := segments_finish _ (mem_of_getElem? found)
        have holds : (⟨state.curSegStart, state.curSegEnd⟩ : Segment).Contains info.address := by
          unfold Segment.Contains
          dsimp only
          omega
        have small : info.address < 2 ^ 64 := holds.2.trans below
        have added : (state.address + (info.address + 2 ^ 64 - state.address) % 2 ^ 64) % 2 ^ 64 =
            info.address := by omega
        refine ⟨{ machine with address := info.address }, rfl, small, ?_, plain,
          Or.inl ⟨kept, rfl, segment, found, holds⟩⟩
        rw [placesOf, program_singleton]
        simp only [BindingTmp.places, watch, BindingTmp.meaning, Machine.add, address, added,
          filterMap_nil, map_nil]
  next same =>
    cases set
    exact ⟨machine, same_address_places separate follows (not_not.mp same)⟩

theorem step_places (stepped : state.step string sections pointerSize info = some (next, ops)) :
    ∃ reached place, placesOf sections pointerSize ops machine = (reached, [place]) ∧
      ((KeptAfter (segments sections) pointerSize last info ∧ InSegment (segments sections) place ∧
          Follows sections pointerSize (some info) next reached) ∨
        (¬ KeptAfter (segments sections) pointerSize last info ∧
          ¬ InSegment (segments sections) place)) := by
  obtain ⟨before, placed, address, addend, same, set, rfl, rfl, settings, quiet, rfl⟩ :=
    step_parts stepped
  obtain ⟨first, early, segment, atFirst, threaded⟩ := quiet.2 machine
  have moved : Follows sections pointerSize last before first := by
    obtain ⟨sameAddress, sameStart, sameEnd, sameIndex⟩ := same
    unfold Follows
    rw [sameAddress, sameStart, sameEnd, sameIndex, segment, atFirst, threaded]
    exact follows
  obtain ⟨middle, places⟩ := set_address_places separate moved set
  obtain ⟨sameAddend, quietAddend⟩ := @set_addend_quiet Pointer sections pointerSize placed info
  obtain ⟨ready, late, sameSegment, sameAddress, sameThreaded⟩ := quietAddend.2 middle
  have plain : ready.threaded = false := sameThreaded.trans places.plain
  have bound : placesOf sections pointerSize [{ opcode := .doBind, operand1 := 0 }] ready =
      ((ready.add pointerSize).add 0, [(ready.segment, ready.address)]) := by
    simp [BindingTmp.places, watch, BindingTmp.meaning, bindOnce, plain, Event.bind?, Machine.bound]
  refine ⟨_, _, program_then early (program_then places.quiet (program_then late bound)), ?_⟩
  rw [sameSegment, sameAddress]
  rcases places.stands with ⟨kept, stands⟩ | bad
  · refine Or.inl ⟨kept, ⟨_, _, stands.segment, stands.found, ?_⟩, plain, ?_, ?_⟩
    · dsimp only
      rw [stands.address]
      exact stands.holds
    · exact Nat.mod_lt _ (Nat.two_pow_pos 64)
    obtain ⟨isAddress, isStart, isEnd, isIndex⟩ := sameAddend
    refine ⟨?_, ?_, ?_, ?_, ?_⟩
    · simp only [Machine.add, Encoder.advance, sameAddress, stands.address, isAddress,
        places.address, Nat.add_zero, Nat.mod_mod]
    · change ready.segment = some (placed.setAddend info).1.curSegIndex
      rw [sameSegment, stands.segment, isIndex]
    · change (segments sections)[(placed.setAddend info).1.curSegIndex]? = some
        ⟨(placed.setAddend info).1.curSegStart, (placed.setAddend info).1.curSegEnd⟩
      rw [isIndex, isStart, isEnd]
      exact stands.found
    · change ((placed.setAddend info).1.address + pointerSize) % 2 ^ 64 = _
      rw [isAddress, places.address]
    change (⟨(placed.setAddend info).1.curSegStart, (placed.setAddend info).1.curSegEnd⟩ :
      Segment).Contains info.address
    rw [isStart, isEnd]
    exact stands.holds
  · exact Or.inr bad

theorem run_places
    (made : bindingTmps (Encoder.step string sections pointerSize) rest state = some ops) :
    (∀ place ∈ (placesOf sections pointerSize ops machine).2, InSegment (segments sections) place) ↔
      Kept (segments sections) pointerSize last rest := by
  induction rest generalizing state machine last ops with
  | nil =>
    cases made
    exact ⟨fun _ => trivial, fun _ _ isIn => absurd isIn not_mem_nil⟩
  | cons info rest ih =>
    obtain ⟨⟨next, here⟩, stepped, made⟩ := bind_eq_some_iff.mp made
    obtain ⟨later, rests, isOps⟩ := bind_eq_some_iff.mp made
    cases isOps
    obtain ⟨reached, place, placed, outcome⟩ := step_places separate follows stepped
    rw [placesOf, program_events_then placed, singleton_append, forall_mem_cons, Kept]
    rcases outcome with ⟨kept, inside, still⟩ | ⟨strays, outside⟩
    · rw [and_iff_right inside, and_iff_right kept]
      exact ih still rests
    · exact ⟨fun all => absurd all.1 outside, fun all => absurd all.1 strays⟩

end

end

/-- The binds of the stream stay in the segments that were announced, if and only if no bind
follows another one, in the order of the stream, at the next pointer but in another segment. -/
theorem binds_stay_iff {sorter : Sorter Pointer} {entries : List (BindingInfo Pointer)}
    {stream : Bytes} (separate : Separate (segments sections))
    (low : ∀ info ∈ entries, LowAt sections info.address)
    (encoded : encodeV1 string sorter sections pointerSize entries = some stream) :
    StaysInSegments (segments sections) pointerSize stream ↔
      Kept (segments sections) pointerSize none
        (sorter.sort (BindingInfo.less string) entries) := by
  have start : @Follows Pointer sections pointerSize none {} {} :=
    ⟨rfl, (by decide : 2 ^ 64 - 1 < 2 ^ 64), rfl, rfl, rfl⟩
  have same := sorter.permutes (BindingInfo.less string) entries
  obtain ⟨ops, made, _⟩ := bind_eq_some_iff.mp encoded
  obtain ⟨written, isWritten, places⟩ := encode_v1_carried pairs_keep_places runs_keep_places
    (fun _ _ same => congrArg watch same)
    (run_writable (fun member => step_writable (low _ (same.mem_iff.mp member))) made) made {}
  obtain rfl : written = stream := Option.some.inj (isWritten.symm.trans encoded)
  rw [← run_places separate start made, StaysInSegments, boundPlaces, places]
  simp

end Loop

def adjacentSections : List FinalSection :=
  [⟨"__DATA", 0x4000, 0x1000⟩, ⟨"__MORE", 0x5000, 0x1000⟩, ⟨"__LINKEDIT", 0x6000, 0x1000⟩]

theorem adjacent_separate : Separate (segments adjacentSections) := separate_of_ordered (by decide)

def bindAt (address : Nat) : BindingInfo Nat := ⟨.pointer, .none, 1, 2, address, 0⟩

theorem sorted_binds {less : BindingInfo Nat → BindingInfo Nat → Bool} {first second : Nat}
    (ordered : less (bindAt second) (bindAt first) = false) :
    mergeSorter.sort less [bindAt first, bindAt second] =
      [bindAt first, bindAt second] := by
  apply mergeSort_of_pairwise
  simp [ordered]

/-- Each segment ends where the next one starts, and not all of the indices have four bits. -/
def manySections : List FinalSection :=
  (List.range 18).map fun i =>
    ⟨String.ofList (List.replicate i 'a'), 0x1000 * (i + 1), 0x1000⟩

theorem many_separate : Separate (segments manySections) := separate_of_ordered (by decide +kernel)

theorem low_at_many {address index : Nat} (small : index < 16)
    (found : (findSegment manySections address).map FoundSegment.index = some index) :
    LowAt manySections address := by
  intro other isFound
  rw [isFound] at found
  cases found
  exact small

theorem apart_binds_stay : ∃ stream,
    encodeV1 lettersAt mergeSorter manySections 8 [bindAt 0x1FF0, bindAt 0x2000] = some stream ∧
    StaysInSegments (segments manySections) 8 stream := by
  obtain ⟨stream, encoded⟩ : ∃ stream, encodeV1 lettersAt mergeSorter manySections 8
      [bindAt 0x1FF0, bindAt 0x2000] = some stream := by
    rw [encodeV1, sorted_binds rfl]
    exact ⟨[0x11, 0x40, 0x61, 0x61, 0, 0x51, 0x70, 0xF0, 0x1F, 0x90, 0x71, 0, 0x90, 0, 0, 0],
      by decide +kernel⟩
  refine ⟨stream, encoded, (binds_stay_iff many_separate ?_ encoded).mpr ?_⟩
  · intro info member
    simp only [mem_cons, not_mem_nil, or_false] at member
    rcases member with rfl | rfl
    · exact low_at_many (by decide : 0 < 16) (by decide +kernel)
    · exact low_at_many (by decide : 1 < 16) (by decide +kernel)
  · rw [sorted_binds rfl]
    exact ⟨(by decide : 0x1FF0 ≠ 2 ^ 64 - 1), fun next => absurd next (by decide), trivial⟩

/-- The second bind happens at the start of the segment 1, and the stream has announced the
segment 0. -/
theorem adjacent_bind_strays : Separate (segments adjacentSections) ∧
      encodeV1 lettersAt mergeSorter adjacentSections 8 [bindAt 0x4FF8, bindAt 0x5000] =
        some [0x11, 0x40, 0x61, 0x61, 0, 0x51, 0x70, 0xF8, 0x1F, 0x90, 0x90, 0, 0, 0, 0, 0] ∧
      boundPlaces (segments adjacentSections) 8
          [0x11, 0x40, 0x61, 0x61, 0, 0x51, 0x70, 0xF8, 0x1F, 0x90, 0x90, 0, 0, 0, 0, 0] =
        some [(some 0, 0x4FF8), (some 0, 0x5000)] ∧
      ¬ InSegment (segments adjacentSections) (some 0, 0x5000) := by
  refine ⟨adjacent_separate, ?_, by decide +kernel, ?_⟩
  · rw [encodeV1, sorted_binds rfl]
    decide +kernel
  rintro ⟨index, segment, isIndex, isSegment, holds⟩
  cases isIndex
  cases isSegment
  exact absurd holds (by decide)

section Plain

variable {Pointer : Type} [DecidableEq Pointer] {string : Pointer → CString}
  {sections : List FinalSection} {pointerSize : Nat}

theorem plain_interpreted {ops : List BindingTmp} (writable : Writable ops) :
    interpret (segments sections) pointerSize (ops.flatMap BindingTmp.bytes) =
      some (effect sections pointerSize ops {}).2 :=
  Bytecode.interpret_whole (fun tmp member => bind_readable (segments sections) pointerSize
    (writable tmp member).1 (writable tmp member).2) _

/-- Both streams do what the opcodes do that their loops have made, written as they are. -/
theorem bind_phases_keep (sorter : Sorter Pointer) (few : (segments sections).length ≤ 16)
    (info : List (BindingInfo Pointer)) :
    (∀ ops, bindingTmps (Encoder.step string sections pointerSize)
        (sorter.sort (BindingInfo.less string) info) {} = some ops →
      ∃ stream events, encodeV1 string sorter sections pointerSize info = some stream ∧
        interpret (segments sections) pointerSize stream = some events ∧
        interpret (segments sections) pointerSize (ops.flatMap BindingTmp.bytes) = some events) ∧
    ∀ ops, info ≠ [] → bindingTmps (Encoder.weakStep string sections pointerSize)
        (sorter.sort (BindingInfo.weakLess string) info) {} = some ops →
      ∃ stream events, weakEncode string sorter sections pointerSize info = some stream ∧
        interpret (segments sections) pointerSize stream = some events ∧
        interpret (segments sections) pointerSize (ops.flatMap BindingTmp.bytes) = some events := by
  have low := finds_low_of_few few
  constructor
  · intro ops made
    have writable := run_writable (fun _ => step_writable (low _)) made
    obtain ⟨stream, encoded, events⟩ := encode_v1_interpreted writable made
    exact ⟨stream, _, encoded, events, plain_interpreted writable⟩
  · intro ops nonempty made
    have writable := run_writable (fun _ => weak_step_writable (low _)) made
    obtain ⟨stream, encoded, events⟩ := weak_encode_interpreted writable nonempty made
    exact ⟨stream, _, encoded, events, plain_interpreted writable⟩

theorem apart_phases_keep :
    (∃ ops stream events, bindingTmps (Encoder.step lettersAt adjacentSections 8)
        (mergeSorter.sort (BindingInfo.less lettersAt) [bindAt 0x4000, bindAt 0x4010]) {} =
          some ops ∧
      encodeV1 lettersAt mergeSorter adjacentSections 8 [bindAt 0x4000, bindAt 0x4010] =
        some stream ∧ interpret (segments adjacentSections) 8 stream = some events ∧
      interpret (segments adjacentSections) 8 (ops.flatMap BindingTmp.bytes) = some events) ∧
    ∃ ops stream events, bindingTmps (Encoder.weakStep lettersAt adjacentSections 8)
        (mergeSorter.sort (BindingInfo.weakLess lettersAt) [bindAt 0x4000, bindAt 0x4010]) {} =
          some ops ∧
      weakEncode lettersAt mergeSorter adjacentSections 8 [bindAt 0x4000, bindAt 0x4010] =
        some stream ∧ interpret (segments adjacentSections) 8 stream = some events ∧
      interpret (segments adjacentSections) 8 (ops.flatMap BindingTmp.bytes) = some events := by
  constructor
  · obtain ⟨ops, made⟩ : ∃ ops, bindingTmps (Encoder.step lettersAt adjacentSections 8)
        (mergeSorter.sort (BindingInfo.less lettersAt) [bindAt 0x4000, bindAt 0x4010]) {} =
          some ops := by
      rw [sorted_binds rfl]
      exact ⟨_, rfl⟩
    obtain ⟨stream, events, kept⟩ := (bind_phases_keep mergeSorter (by decide) _).1 ops made
    exact ⟨ops, stream, events, made, kept⟩
  · obtain ⟨ops, made⟩ : ∃ ops, bindingTmps (Encoder.weakStep lettersAt adjacentSections 8)
        (mergeSorter.sort (BindingInfo.weakLess lettersAt) [bindAt 0x4000, bindAt 0x4010]) {} =
          some ops := by
      rw [sorted_binds rfl]
      exact ⟨_, rfl⟩
    obtain ⟨stream, events, kept⟩ :=
      (bind_phases_keep mergeSorter (by decide) _).2 ops (cons_ne_nil _ _) made
    exact ⟨ops, stream, events, made, kept⟩

end Plain

end DeveloperTools.Ld64.BindOpcodes
