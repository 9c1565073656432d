import DeveloperTools.Ld64.RebaseEncoding

/-!
The loop of `encodeV1` keeps its variables in step with the machine that will
carry the opcodes out, except at the end of a segment: there it sets its own
address to zero, while the machine stands one pointer further on. The next
location then needs a new segment. If it lies in the same segment, the encoder
writes its distance from zero.
-/

namespace DeveloperTools.Ld64.RebaseOpcodes

open List Option Transducer

def RebaseInfo.exact (sections : List FinalSection) (info : RebaseInfo) : Rebase :=
  ⟨info.type.code, (findSegment sections info.address).map FoundSegment.index, info.address⟩

abbrev effect (sections : List FinalSection) (pointerSize : Nat) (ops : List RebaseTmp) :
    Transducer Machine Rebase :=
  Transducer.program (RebaseTmp.meaning (segments sections) pointerSize) ops

variable {rest : List RebaseInfo}

section Step

variable {sections : List FinalSection} {pointerSize : Nat}

/-- The encoder has just emitted a rebase of `last`, and so has the machine. -/
structure Synced (sections : List FinalSection) (pointerSize : Nat) (last : RebaseInfo)
    (state : Encoder) (machine : Machine) : Prop where
  type : state.type = last.type.code
  machineType : machine.type = last.type.code
  place : (segments sections)[state.curSegIndex]? = some ⟨state.curSegStart, state.curSegEnd⟩
  holds : (Segment.mk state.curSegStart state.curSegEnd).Contains last.address
  selected : machine.segment = some state.curSegIndex
  machineAddress : machine.address = (last.address + pointerSize) % 2 ^ 64
  address : state.address = if state.curSegEnd ≤ machine.address then 0 else machine.address

def Writable (ops : List RebaseTmp) : Prop := ∀ tmp ∈ ops, isDone tmp = false ∧ tmp.Encodable

theorem writable_singleton {tmp : RebaseTmp} (alive : isDone tmp = false)
    (encodable : tmp.Encodable) : Writable [tmp] :=
  forall_mem_singleton.mpr ⟨alive, encodable⟩

theorem writable_append {first second : List RebaseTmp} (left : Writable first)
    (right : Writable second) : Writable (first ++ second) :=
  forall_mem_append.mpr ⟨left, right⟩

theorem set_type_writable (state : Encoder) (info : RebaseInfo) :
    Writable (state.setType info).2 := by
  unfold Encoder.setType
  split
  · apply writable_singleton rfl
    intro _
    cases info.type <;> decide
  · intro tmp member
    cases member

variable {state : Encoder} {info : RebaseInfo} {ops : List RebaseTmp} {next : Encoder}

theorem set_address_writable (low : FindsLow sections)
    (ran : state.setAddress sections info = some (next, ops)) : Writable ops := by
  unfold Encoder.setAddress at ran
  split at ran
  · split at ran
    · obtain ⟨found, search, rest⟩ := bind_eq_some_iff.mp ran
      cases rest
      apply writable_singleton rfl
      exact fun _ => low _ _ search
    · cases ran
      exact writable_singleton rfl (by simp [RebaseTmp.Encodable])
  · cases ran
    intro tmp member
    cases member

theorem step_writable (low : FindsLow sections)
    (ran : state.step sections pointerSize info = some (next, ops)) : Writable ops := by
  obtain ⟨⟨placed, addressOps⟩, moved, rest⟩ := bind_eq_some_iff.mp ran
  cases rest
  apply writable_append
  · exact writable_append (set_type_writable state info) (set_address_writable low moved)
  · exact writable_singleton rfl (by simp [RebaseTmp.Encodable])

theorem rebase_tmps_writable (low : FindsLow sections) {info : List RebaseInfo} :
    ∀ {state : Encoder} {ops : List RebaseTmp},
      rebaseTmps sections pointerSize info state = some ops → Writable ops := by
  induction info with
  | nil =>
    intro _ _ ran
    cases ran
    intro tmp member
    cases member
  | cons info rest ih =>
    intro state ops ran
    obtain ⟨⟨next, here⟩, stepped, ran⟩ := bind_eq_some_iff.mp ran
    obtain ⟨more, later, rest⟩ := bind_eq_some_iff.mp ran
    cases rest
    exact writable_append (step_writable low stepped) (ih later)

theorem passes_sound {State Seen : Type} {meaning : RebaseTmp → Transducer State Seen}
    {valid : RebaseTmp → Prop} (packs : packedRuns.Sound meaning valid)
    (pairs : rebaseAddPairs.Sound meaning valid) (runs : skippingRuns.Sound meaning valid)
    (fits : ∀ tmp ∈ ops, isDone tmp = false ∧ valid tmp) :
    ∃ packed paired skipped out stop left, packedRuns.run (ops ++ [doneTmp]) = some packed ∧
      rebaseAddPairs.run packed = some paired ∧ skippingRuns.run paired = some skipped ∧
      skipped = out ++ stop :: left ∧ isDone stop = true ∧
      (∀ tmp ∈ out, isDone tmp = false ∧ valid tmp) ∧
      Transducer.program meaning out = Transducer.program meaning ops := by
  have start : packedRuns.Holds (ops ++ [doneTmp]) ops :=
    ⟨fun tmp member => (fits tmp member).1, doneTmp, [], rfl, rfl⟩
  obtain ⟨packed, out1, ran1, held1, valid1, meant1⟩ :=
    InPlacePass.run_sound packs start fun tmp member => (fits tmp member).2
  obtain ⟨paired, out2, ran2, held2, valid2, meant2⟩ := InPlacePass.run_sound pairs held1 valid1
  obtain ⟨skipped, out, ran3, held3, valid3, meant3⟩ := InPlacePass.run_sound runs held2 valid2
  obtain ⟨alive, stop, left, done, content⟩ := held3
  exact ⟨packed, paired, skipped, out, stop, left, ran1, ran2, ran3, content, done,
    fun tmp member => ⟨alive tmp member, valid3 tmp member⟩, meant3.trans (meant2.trans meant1)⟩

theorem encode_v1_interpreted (few : (segments sections).length ≤ 16) {info : List RebaseInfo}
    (made : rebaseTmps sections pointerSize info {} = some ops) :
    ∃ stream, encodeV1 sections pointerSize info = some stream ∧
      interpret (segments sections) pointerSize stream =
        some (effect sections pointerSize ops {}).2 := by
  obtain ⟨packed, paired, skipped, out, stop, left, ran1, ran2, ran3, content, done, fits, meant⟩ :=
    passes_sound (packed_runs_sound (segments sections) pointerSize) (rebase_add_pairs_sound _ _)
      (skipping_runs_sound _ _) (rebase_tmps_writable (finds_low_of_few few) made)
  have nothing : stop.bytes = [] := by
    rw [RebaseTmp.bytes, of_decide_eq_true done]
  refine ⟨padToSize pointerSize (compressed (useImmediates pointerSize skipped)), ?_, ?_⟩
  · rw [encodeV1, made]
    simp only [bind_eq_bind, bind_some, ran1, ran2, ran3]
  rw [effect, ← meant]
  apply Bytecode.interpret_rewritten content (fun tmp member => (fits tmp member).1) done
    (fun _ => immediate_live pointerSize) (immediate_meaning (segments sections) pointerSize)
  · intro old member
    exact rebase_readable _ _ (immediate_live pointerSize (fits old member).1)
      (immediate_encodable pointerSize (fits old member).2)
  · change (rebaseCode (segments sections) pointerSize).Stops (stop.bytes ++ _)
    rw [nothing, nil_append]
    exact rebase_padding_stops _ _ _

variable {addressOps : List RebaseTmp}

theorem step_of_moved {placed : Encoder}
    (moved : (state.setType info).1.setAddress sections info = some (placed, addressOps)) :
    state.step sections pointerSize info = some (placed.advance pointerSize,
      (state.setType info).2 ++ addressOps ++ [⟨.doRebaseUlebTimes, 1, 0⟩]) := by
  change ((state.setType info).1.setAddress sections info).bind _ = _
  rw [moved]
  rfl

theorem step_emits {state placed : Encoder} {machine reached : Machine} {info : RebaseInfo}
    (same : state.type = machine.type)
    (moved : { state with type := info.type.code }.setAddress sections info =
      some (placed, addressOps))
    (reaches : effect sections pointerSize addressOps { machine with type := info.type.code } =
      (reached, [])) :
    ∃ ops, state.step sections pointerSize info = some (placed.advance pointerSize, ops) ∧
      effect sections pointerSize ops machine =
        (reached.add pointerSize, [⟨reached.type, reached.segment, reached.address⟩]) := by
  have typed : (state.setType info).1 = { state with type := info.type.code } ∧
      effect sections pointerSize (state.setType info).2 machine =
        ({ machine with type := info.type.code }, []) := by
    unfold Encoder.setType
    split
    · exact ⟨rfl, rfl⟩
    rename_i equal
    rw [ne_eq, not_not] at equal
    constructor
    · rw [← equal]
    · rw [effect, program_nil, one_apply, ← equal, same]
  refine ⟨(state.setType info).2 ++ addressOps ++ [⟨.doRebaseUlebTimes, 1, 0⟩], ?_, ?_⟩
  · apply step_of_moved
    rw [typed.1, moved]
  · apply program_then (program_then typed.2 reaches)
    rw [program_singleton, RebaseTmp.meaning, pow_one]
    simp only [rebaseOnce, Machine.add_add, Nat.add_zero]

/-- `next` lies in the segment of `last`, and the pointer at `last` reaches its
end. -/
def SharesEnd (sections : List FinalSection) (pointerSize : Nat) (last next : RebaseInfo) : Prop :=
  last.address + pointerSize < 2 ^ 64 ∧
    ∃ segment ∈ segments sections, segment.Contains last.address ∧
      segment.Contains next.address ∧ segment.finish ≤ last.address + pointerSize

/-- Behind the pointer at `last` the address space starts again, at `next`. -/
def WrapsTo (pointerSize : Nat) (last next : RebaseInfo) : Prop :=
  last.address + pointerSize = next.address + 2 ^ 64

def Followable (sections : List FinalSection) (pointerSize : Nat) (last next : RebaseInfo) : Prop :=
  ¬ SharesEnd sections pointerSize last next ∧ ¬ WrapsTo pointerSize last next

instance (last next : RebaseInfo) : Decidable (SharesEnd sections pointerSize last next) :=
  inferInstanceAs (Decidable (_ ∧ _))

instance (last next : RebaseInfo) : Decidable (WrapsTo pointerSize last next) :=
  inferInstanceAs (Decidable (_ = _))

instance (last next : RebaseInfo) : Decidable (Followable sections pointerSize last next) :=
  inferInstanceAs (Decidable (_ ∧ _))

variable {machine : Machine}

theorem advance_synced (type : state.type = info.type.code)
    (machineType : machine.type = info.type.code)
    (place : (segments sections)[state.curSegIndex]? = some ⟨state.curSegStart, state.curSegEnd⟩)
    (holds : (Segment.mk state.curSegStart state.curSegEnd).Contains info.address)
    (selected : machine.segment = some state.curSegIndex)
    (machineAddress : machine.address = info.address) (address : state.address = info.address) :
    Synced sections pointerSize info (state.advance pointerSize) (machine.add pointerSize) where
  type := type
  machineType := machineType
  place := place
  holds := holds
  selected := selected
  machineAddress := by rw [← machineAddress]; rfl
  address := by simp only [Encoder.advance, Machine.add, machineAddress, address]

def Rebases (sections : List FinalSection) (pointerSize : Nat) (state : Encoder)
    (machine : Machine) (info : RebaseInfo) : Prop :=
  ∃ next ops machine', state.step sections pointerSize info = some (next, ops) ∧
    effect sections pointerSize ops machine = (machine', [info.exact sections]) ∧
    Synced sections pointerSize info next machine'

theorem step_selects (same : state.type = machine.type) (differs : state.address ≠ info.address)
    (outside : info.address < state.curSegStart ∨ state.curSegEnd ≤ info.address)
    (held : ∃ found, findSegment sections info.address = some found) :
    Rebases sections pointerSize state machine info := by
  obtain ⟨found, search⟩ := held
  obtain ⟨place, lower, upper⟩ := find_segment_sound search
  have small := segments_finish _ (mem_of_getElem? place)
  have reach : (found.start + (info.address - found.start)) % 2 ^ 64 = info.address := by
    rw [Nat.add_sub_cancel' lower]
    exact Nat.mod_eq_of_lt (upper.trans small)
  have moved : { state with type := info.type.code }.setAddress sections info =
      some (⟨found.start, found.finish, found.index, info.type.code, info.address⟩,
        [⟨.setSegmentAndOffsetUleb, found.index, info.address - found.start⟩]) := by
    simp only [Encoder.setAddress, if_pos differs, if_pos outside, search]
    rfl
  have reaches : effect sections pointerSize
      [⟨.setSegmentAndOffsetUleb, found.index, info.address - found.start⟩]
      { machine with type := info.type.code } =
        (⟨info.type.code, some found.index, info.address⟩, []) := by
    rw [effect, program_singleton, RebaseTmp.meaning, place]
    simp only [elim_some, reach]
  obtain ⟨ops, stepped, emitted⟩ := step_emits same moved reaches
  refine ⟨_, ops, Machine.add pointerSize ⟨info.type.code, some found.index, info.address⟩,
    stepped, ?_, advance_synced rfl rfl place ⟨lower, upper⟩ rfl rfl rfl⟩
  rw [emitted, RebaseInfo.exact, search]
  rfl

variable (sections pointerSize) in
/-- Inside the current segment the machine moves by the distance from the
encoder's own address, which need not be the machine's. -/
theorem step_adds (same : state.type = machine.type) (differs : state.address ≠ info.address)
    (inside : (Segment.mk state.curSegStart state.curSegEnd).Contains info.address) :
    ∃ ops, state.step sections pointerSize info =
        some ({ state with type := info.type.code, address := info.address }.advance pointerSize,
          ops) ∧
      effect sections pointerSize ops machine =
        let address := (machine.address + (info.address + 2 ^ 64 - state.address) % 2 ^ 64) % 2 ^ 64
        (Machine.add pointerSize ⟨info.type.code, machine.segment, address⟩,
          [⟨info.type.code, machine.segment, address⟩]) := by
  have within : ¬ (info.address < state.curSegStart ∨ state.curSegEnd ≤ info.address) := by
    have lower : state.curSegStart ≤ info.address := inside.1
    have upper : info.address < state.curSegEnd := inside.2
    omega
  have moved : { state with type := info.type.code }.setAddress sections info =
      some ({ state with type := info.type.code, address := info.address },
        [⟨.addAddrUleb, (info.address + 2 ^ 64 - state.address) % 2 ^ 64, 0⟩]) := by
    simp only [Encoder.setAddress, if_pos differs, if_neg within]
  have reaches : effect sections pointerSize
      [⟨.addAddrUleb, (info.address + 2 ^ 64 - state.address) % 2 ^ 64, 0⟩]
      { machine with type := info.type.code } =
        (⟨info.type.code, machine.segment,
          (machine.address + (info.address + 2 ^ 64 - state.address) % 2 ^ 64) % 2 ^ 64⟩, []) := by
    rw [effect, program_singleton]
    rfl
  exact step_emits same moved reaches

variable (sections pointerSize) in
theorem step_stays (same : state.type = machine.type) (equal : state.address = info.address) :
    ∃ ops, state.step sections pointerSize info =
        some ({ state with type := info.type.code }.advance pointerSize, ops) ∧
      effect sections pointerSize ops machine =
        (Machine.add pointerSize { machine with type := info.type.code },
          [⟨info.type.code, machine.segment, machine.address⟩]) := by
  have moved : { state with type := info.type.code }.setAddress sections info =
      some ({ state with type := info.type.code }, []) := by
    simp only [Encoder.setAddress, if_neg (not_not.mpr equal)]
  exact step_emits same moved rfl

variable {last : RebaseInfo}

/-- The rebase emitted for `next` where encoder and machine part: the segment
of `last` is still selected. -/
def Strays (sections : List FinalSection) (pointerSize : Nat) (last next : RebaseInfo)
    (wrong : Rebase) : Prop :=
  wrong.type = next.type.code ∧
    ∃ index segment, wrong.segment = some index ∧ (segments sections)[index]? = some segment ∧
      segment.Contains last.address ∧
      ((WrapsTo pointerSize last next ∧ wrong.address = next.address) ∨
        (last.address + pointerSize < 2 ^ 64 ∧ segment.finish ≤ last.address + pointerSize ∧
          wrong.address = (last.address + pointerSize + next.address) % 2 ^ 64))

def Encoded (sections : List FinalSection) (info : List RebaseInfo) : Prop :=
  ∀ location ∈ info, 0 < location.address ∧
    ∃ found, findSegment sections location.address = some found

theorem step_total (held : ∃ found, findSegment sections info.address = some found)
    (state : Encoder) : ∃ next ops, state.step sections pointerSize info = some (next, ops) := by
  obtain ⟨found, search⟩ := held
  have moved : ∃ placed addressOps,
      (state.setType info).1.setAddress sections info = some (placed, addressOps) := by
    unfold Encoder.setAddress
    rw [search]
    split
    · split
      · exact ⟨_, _, rfl⟩
      · exact ⟨_, _, rfl⟩
    · exact ⟨_, _, rfl⟩
  obtain ⟨placed, addressOps, moved⟩ := moved
  exact ⟨_, _, step_of_moved moved⟩

theorem rebase_tmps_cons (stepped : state.step sections pointerSize info = some (next, ops)) :
    rebaseTmps sections pointerSize (info :: rest) state =
      (rebaseTmps sections pointerSize rest next).map (ops ++ ·) := by
  rw [rebaseTmps, stepped, bind_eq_bind, bind_some, map_eq_bind]
  rfl

variable (pointerSize) in
theorem rebase_tmps_total {info : List RebaseInfo} : ∀ (state : Encoder), Encoded sections info →
      ∃ ops, rebaseTmps sections pointerSize info state = some ops := by
  induction info with
  | nil =>
    intro state _
    exact ⟨[], rfl⟩
  | cons info rest ih =>
    intro state encoded
    obtain ⟨next, ops, stepped⟩ := step_total (encoded info mem_cons_self).2 state
    obtain ⟨more, later⟩ := ih next fun location member =>
      encoded location (.tail _ member)
    refine ⟨ops ++ more, ?_⟩
    rw [rebase_tmps_cons stepped, later, map_some]

/-- After `last`, what was asked for is emitted, or it goes wrong at a first
location that cannot follow the one before it. -/
def Outcome (sections : List FinalSection) (pointerSize : Nat) (last : RebaseInfo)
    (rest : List RebaseInfo) (emitted : List Rebase) : Prop :=
  ((last :: rest).IsChain (Followable sections pointerSize) ∧
      emitted = rest.map (RebaseInfo.exact sections)) ∨
    ∃ before next after wrong more, rest = before ++ next :: after ∧
      ¬ Followable sections pointerSize (before.getLastD last) next ∧
      Strays sections pointerSize (before.getLastD last) next wrong ∧
      emitted = before.map (RebaseInfo.exact sections) ++ wrong :: more

section

variable (separate : Separate (segments sections))
include separate

theorem exact_of_holds {segment : Segment} {index : Nat}
    (place : (segments sections)[index]? = some segment) (holds : segment.Contains info.address) :
    info.exact sections = ⟨info.type.code, some index, info.address⟩ := by
  rw [RebaseInfo.exact, find_segment_of_contains separate place holds]
  rfl

/-- One round keeps encoder and machine together unless the segment ends
between the two locations. -/
theorem step_synced (small : pointerSize ≤ 8)
    (synced : Synced sections pointerSize last state machine) (nonzero : 0 < info.address)
    (held : ∃ found, findSegment sections info.address = some found)
    (followable : Followable sections pointerSize last info) :
    Rebases sections pointerSize state machine info := by
  have same : state.type = machine.type := synced.type.trans synced.machineType.symm
  have finish : state.curSegEnd < 2 ^ 64 := segments_finish _ (mem_of_getElem? synced.place)
  have lower : state.curSegStart ≤ last.address := synced.holds.1
  have upper : last.address < state.curSegEnd := synced.holds.2
  have machineAddress := synced.machineAddress
  have address := synced.address
  have noWrap : last.address + pointerSize ≠ info.address + 2 ^ 64 := followable.2
  by_cases equal : state.address = info.address
  · -- the encoder's address is not zero, so it is the machine's
    have reached : machine.address = info.address := by
      split at address <;> omega
    have inside : (Segment.mk state.curSegStart state.curSegEnd).Contains info.address := by
      constructor
      · change state.curSegStart ≤ info.address
        omega
      · change info.address < state.curSegEnd
        split at address <;> omega
    obtain ⟨ops, stepped, emitted⟩ := step_stays sections pointerSize same equal
    refine ⟨_, ops, Machine.add pointerSize { machine with type := info.type.code }, stepped, ?_,
      advance_synced rfl rfl synced.place inside synced.selected reached equal⟩
    rw [emitted, exact_of_holds separate synced.place inside, synced.selected, reached]
  · by_cases inside : (Segment.mk state.curSegStart state.curSegEnd).Contains info.address
    · have apart : ¬ state.curSegEnd ≤ machine.address := by
        intro ended
        apply followable.1
        have noEnd : last.address + pointerSize < 2 ^ 64 := by omega
        refine ⟨noEnd, _, mem_of_getElem? synced.place, synced.holds, inside, ?_⟩
        change state.curSegEnd ≤ last.address + pointerSize
        omega
      rw [if_neg apart] at address
      have infoSmall : info.address < 2 ^ 64 := inside.2.trans finish
      have reached :
          (machine.address + (info.address + 2 ^ 64 - state.address) % 2 ^ 64) % 2 ^ 64 =
            info.address := by
        omega
      obtain ⟨ops, stepped, emitted⟩ := step_adds sections pointerSize same equal inside
      refine ⟨_, ops, Machine.add pointerSize ⟨info.type.code, machine.segment, _⟩, stepped, ?_,
        advance_synced rfl rfl synced.place inside synced.selected reached rfl⟩
      rw [emitted, exact_of_holds separate synced.place inside, synced.selected]
      simp only [reached]
    · apply step_selects same equal _ held
      have unheld : ¬ (state.curSegStart ≤ info.address ∧ info.address < state.curSegEnd) := inside
      omega

theorem step_strays (small : pointerSize ≤ 8)
    (synced : Synced sections pointerSize last state machine) (nonzero : 0 < info.address)
    (unfollowable : ¬ Followable sections pointerSize last info) :
    ∃ next ops machine' wrong, state.step sections pointerSize info = some (next, ops) ∧
      effect sections pointerSize ops machine = (machine', [wrong]) ∧
      Strays sections pointerSize last info wrong := by
  have same : state.type = machine.type := synced.type.trans synced.machineType.symm
  have finish : state.curSegEnd < 2 ^ 64 := segments_finish _ (mem_of_getElem? synced.place)
  have upper : last.address < state.curSegEnd := synced.holds.2
  have machineAddress := synced.machineAddress
  have address := synced.address
  rw [Followable, not_and_or, not_not, not_not] at unfollowable
  rcases unfollowable with shares | wraps
  · obtain ⟨noWrap, segment, member, holdsLast, holdsNext, ends⟩ := shares
    obtain ⟨index, place⟩ := mem_iff_getElem?.mp member
    have sameIndex :=
      separate index state.curSegIndex segment _ last.address place synced.place holdsLast
        synced.holds
    rw [sameIndex, synced.place] at place
    cases place
    have ended : state.curSegEnd ≤ last.address + pointerSize := ends
    rw [Nat.mod_eq_of_lt noWrap] at machineAddress
    rw [machineAddress, if_pos ended] at address
    have differs : state.address ≠ info.address := by omega
    have reached : (machine.address + (info.address + 2 ^ 64 - state.address) % 2 ^ 64) % 2 ^ 64 =
        (last.address + pointerSize + info.address) % 2 ^ 64 := by
      rw [address, machineAddress, Nat.sub_zero, Nat.add_mod_right, Nat.add_mod_mod]
    obtain ⟨ops, stepped, emitted⟩ := step_adds sections pointerSize same differs holdsNext
    refine ⟨_, ops, _, _, stepped, emitted, rfl, state.curSegIndex, _, synced.selected,
      synced.place, synced.holds, Or.inr ⟨noWrap, ends, reached⟩⟩
  · have wrapped : last.address + pointerSize = info.address + 2 ^ 64 := wraps
    have reached : machine.address = info.address := by omega
    have equal : state.address = info.address := by
      rw [address, if_neg (by omega), reached]
    obtain ⟨ops, stepped, emitted⟩ := step_stays sections pointerSize same equal
    refine ⟨_, ops, _, _, stepped, emitted, rfl, state.curSegIndex, _, synced.selected,
      synced.place, synced.holds, Or.inl ⟨wraps, reached⟩⟩

theorem run_outcome (small : pointerSize ≤ 8) :
    ∀ {last : RebaseInfo} {state : Encoder} {machine : Machine} {ops : List RebaseTmp},
      Synced sections pointerSize last state machine → Encoded sections rest →
      rebaseTmps sections pointerSize rest state = some ops →
      Outcome sections pointerSize last rest (effect sections pointerSize ops machine).2 := by
  induction rest with
  | nil =>
    intro last state machine ops _ _ made
    cases made
    exact Or.inl ⟨isChain_singleton last, rfl⟩
  | cons info rest ih =>
    intro last state machine ops synced encoded made
    obtain ⟨nonzero, held⟩ := encoded info mem_cons_self
    by_cases followable : Followable sections pointerSize last info
    · obtain ⟨next, here, machine', stepped, emitted, still⟩ :=
        step_synced separate small synced nonzero held followable
      rw [rebase_tmps_cons stepped] at made
      obtain ⟨more, later, rfl⟩ := map_eq_some_iff.mp made
      have restEncoded : Encoded sections rest := fun location member =>
        encoded location (.tail _ member)
      rw [effect, program_events_then emitted]
      rcases ih still restEncoded later with ⟨chain, all⟩ | strayed
      · exact Or.inl ⟨isChain_cons_cons.mpr ⟨followable, chain⟩, by rw [all]; rfl⟩
      obtain ⟨before, next, after, wrong, more, split, unfollowable, strays, all⟩ := strayed
      refine Or.inr ⟨info :: before, next, after, wrong, more, by rw [split]; rfl, ?_, ?_,
        by rw [all]; rfl⟩
      · rwa [getLastD_cons]
      · rwa [getLastD_cons]
    · obtain ⟨next, here, machine', wrong, stepped, emitted, strays⟩ :=
        step_strays separate small synced nonzero followable
      rw [rebase_tmps_cons stepped] at made
      obtain ⟨more, later, rfl⟩ := map_eq_some_iff.mp made
      rw [effect, program_events_then emitted]
      exact Or.inr ⟨[], info, rest, wrong, _, rfl, followable, strays, rfl⟩

end

end Step

/-- What `addDyldInfo` and the layout promise: every location is in a segment,
which fixes its type, and is not at zero. -/
structure Rebasable (sections : List FinalSection) (pointerSize : Nat) (info : List RebaseInfo) :
    Prop where
  pointer : pointerSize = 4 ∨ pointerSize = 8
  few : (segments sections).length ≤ 16
  separate : Separate (segments sections)
  encoded : Encoded sections info
  typed : ∃ readOnly : Nat → Bool, ∀ location ∈ info, ∀ found,
    findSegment sections location.address = some found →
      location.type = if readOnly found.index then .textAbsolute32 else .pointer

/-- The stream rebases what was asked for, each location inside the segment
selected last. -/
def Faithful (sections : List FinalSection) (pointerSize : Nat) (info : List RebaseInfo) : Prop :=
  ∃ stream rebases, encode sections pointerSize info = some stream ∧
    interpret (segments sections) pointerSize stream = some rebases ∧
    (rebases.map fun rebase => (rebase.type, rebase.address)).Perm
      (info.map fun location => (location.type.code, location.address)) ∧
    ∀ rebase ∈ rebases, ∃ index segment, rebase.segment = some index ∧
      (segments sections)[index]? = some segment ∧ segment.Contains rebase.address

theorem sorted_locations (info : List RebaseInfo) :
    (info.mergeSort RebaseInfo.notAfter).Pairwise fun left right => left.notAfter right := by
  apply pairwise_mergeSort
  · intro first second third before after
    simp only [RebaseInfo.notAfter, decide_eq_true_eq] at before after ⊢
    omega
  · intro first second
    simp only [RebaseInfo.notAfter, Bool.or_eq_true, decide_eq_true_eq]
    omega

theorem address_le_of_not_after {left right : RebaseInfo} (order : left.notAfter right)
    (same : left.type.code = right.type.code) : left.address ≤ right.address := by
  simp only [RebaseInfo.notAfter, decide_eq_true_eq] at order
  omega

section Runs

variable {sections : List FinalSection} {pointerSize : Nat} {info : List RebaseInfo}

theorem start_outcome (rebasable : Rebasable sections pointerSize info) {first : RebaseInfo}
    (encoded : Encoded sections (first :: rest)) :
    ∃ stream emitted, encodeV1 sections pointerSize (first :: rest) = some stream ∧
      interpret (segments sections) pointerSize stream = some (first.exact sections :: emitted) ∧
      Outcome sections pointerSize first rest emitted := by
  obtain ⟨-, found, search⟩ := encoded first mem_cons_self
  obtain ⟨place, lower, upper⟩ := find_segment_sound search
  have small : found.finish < 2 ^ 64 := segments_finish _ (mem_of_getElem? place)
  have differs : ({} : Encoder).address ≠ first.address := by
    change 2 ^ 64 - 1 ≠ first.address
    omega
  have started : Rebases sections pointerSize {} {} first :=
    step_selects rfl differs (Or.inr (Nat.zero_le _)) ⟨found, search⟩
  obtain ⟨next, here, machine, stepped, emitted, synced⟩ := started
  have restEncoded : Encoded sections rest := fun location member =>
    encoded location (.tail _ member)
  obtain ⟨more, later⟩ := rebase_tmps_total pointerSize next restEncoded
  have made : rebaseTmps sections pointerSize (first :: rest) {} = _ := rebase_tmps_cons stepped
  rw [later, map_some] at made
  obtain ⟨stream, written, read⟩ := encode_v1_interpreted rebasable.few made
  rw [effect, program_events_then emitted] at read
  have pointer : pointerSize ≤ 8 := by
    rcases rebasable.pointer with four | eight <;> omega
  exact ⟨stream, _, written, read, run_outcome rebasable.separate pointer synced restEncoded later⟩

theorem faithful_of_exact {stream : Bytes} (encoded : Encoded sections info)
    (written : encode sections pointerSize info = some stream)
    (read : interpret (segments sections) pointerSize stream =
      some ((info.mergeSort RebaseInfo.notAfter).map (RebaseInfo.exact sections))) :
    Faithful sections pointerSize info := by
  refine ⟨stream, _, written, read, ?_, ?_⟩
  · rw [List.map_map]
    exact (mergeSort_perm info RebaseInfo.notAfter).map _
  intro rebase member
  obtain ⟨location, sorted, rfl⟩ := List.mem_map.mp member
  obtain ⟨-, found, search⟩ := encoded location (mem_mergeSort.mp sorted)
  obtain ⟨place, range⟩ := find_segment_sound search
  refine ⟨found.index, _, ?_, place, range⟩
  rw [RebaseInfo.exact, search]
  rfl

theorem stray_unfaithful (rebasable : Rebasable sections pointerSize info) {first next : RebaseInfo}
    {before after : List RebaseInfo} {wrong : Rebase} {more : List Rebase}
    (sorted : info.mergeSort RebaseInfo.notAfter = first :: (before ++ next :: after))
    (strays : Strays sections pointerSize (before.getLastD first) next wrong)
    (inside : ∃ index segment, wrong.segment = some index ∧
      (segments sections)[index]? = some segment ∧ segment.Contains wrong.address)
    (same : (((first :: before).map (RebaseInfo.exact sections) ++ wrong :: more).map
      fun rebase => (rebase.type, rebase.address)).Perm
        (info.map fun location => (location.type.code, location.address))) : False := by
  have order := sorted_locations info
  have permuted := (mergeSort_perm info RebaseInfo.notAfter).symm.map
    fun location => (location.type.code, location.address)
  have lastMember : before.getLastD first ∈ first :: before := by
    cases before with
    | nil => exact mem_cons_self
    | cons head tail => exact .tail _ (getLast_mem _)
  rw [sorted, ← cons_append] at order permuted
  obtain ⟨-, later, across⟩ := pairwise_append.mp order
  have remaining := same.trans permuted
  rw [map_append, map_append, List.map_map] at remaining
  have asked := (perm_append_left_iff _).mp remaining
  obtain ⟨location, locationMember, pair⟩ := List.mem_map.mp (asked.mem_iff.mp mem_cons_self)
  obtain ⟨type, index, segment, selected, place, holdsLast, reason⟩ := strays
  obtain ⟨index', segment', selected', place', holdsWrong⟩ := inside
  rw [selected] at selected'
  cases selected'
  rw [place] at place'
  cases place'
  have sameType : location.type.code = next.type.code := (Prod.mk.inj pair).1.trans type
  have sameAddress : location.address = wrong.address := (Prod.mk.inj pair).2
  have lowerLocation : next.address ≤ location.address := by
    rcases mem_cons.mp locationMember with here | there
    · rw [here]
    · exact address_le_of_not_after (rel_of_pairwise_cons later there) sameType.symm
  rcases reason with ⟨wraps, address⟩ | ⟨noWrap, ends, address⟩
  · -- both locations are in the selected segment, so they have one type and are sorted
    obtain ⟨readOnly, typed⟩ := rebasable.typed
    have member : ∀ location ∈ (first :: before) ++ next :: after, location ∈ info := by
      intro location listed
      rw [cons_append, ← sorted] at listed
      exact mem_mergeSort.mp listed
    have typeAt : ∀ location ∈ (first :: before) ++ next :: after,
        segment.Contains location.address →
          location.type = if readOnly index then .textAbsolute32 else .pointer := by
      intro location listed holds
      exact typed location (member location listed) _
        (find_segment_of_contains rebasable.separate place holds)
    rw [address] at holdsWrong
    have lastType := typeAt _ (mem_append_left _ lastMember) holdsLast
    have nextType := typeAt next (mem_append_right _ mem_cons_self) holdsWrong
    have ordered := address_le_of_not_after (across _ lastMember next mem_cons_self)
      (by rw [lastType, nextType])
    have wrapped : (before.getLastD first).address + pointerSize = next.address + 2 ^ 64 := wraps
    rcases rebasable.pointer with four | eight <;> omega
  · have upper : wrong.address < segment.finish := holdsWrong.2
    omega

/-- The stream is faithful exactly when no location in a segment follows one
whose pointer reaches the segment's end, and no location follows across the end
of the address space. -/
theorem rebase_opcodes_faithful_iff (rebasable : Rebasable sections pointerSize info) :
    Faithful sections pointerSize info ↔
      (info.mergeSort RebaseInfo.notAfter).IsChain (Followable sections pointerSize) := by
  have encoded : Encoded sections (info.mergeSort RebaseInfo.notAfter) := fun location member =>
    rebasable.encoded location (mem_mergeSort.mp member)
  cases sorted : info.mergeSort RebaseInfo.notAfter with
  | nil =>
    have empty : info = [] := by
      rw [← length_eq_zero_iff, ← length_mergeSort info, sorted, length_nil]
    refine iff_of_true ?_ isChain_nil
    rw [empty]
    exact ⟨[], [], rfl, rfl, List.Perm.refl _, fun _ member => nomatch member⟩
  | cons first rest =>
    rw [sorted] at encoded
    obtain ⟨stream, emitted, written, read, outcome⟩ := start_outcome rebasable encoded
    have made : encode sections pointerSize info = some stream := by
      rw [encode, if_neg, sorted, written]
      rintro rfl
      rw [mergeSort_nil] at sorted
      cases sorted
    rcases outcome with ⟨chain, exactly⟩ | strayed
    · refine iff_of_true (faithful_of_exact rebasable.encoded made ?_) chain
      rw [read, exactly, sorted, map_cons]
    obtain ⟨before, next, after, wrong, more, split, unfollowable, strays, events⟩ := strayed
    subst split
    refine iff_of_false ?_ ?_
    · rintro ⟨stream', rebases', made', read', same, inside⟩
      rw [made] at made'
      cases made'
      rw [read, events] at read'
      cases read'
      exact stray_unfaithful rebasable sorted strays (inside wrong (by simp)) same
    · rw [← List.cons_append, isChain_append]
      rintro ⟨-, -, joined⟩
      apply unfollowable
      apply joined _ _ next rfl
      rw [List.getLast?_cons, ← List.getLastD_eq_getLast?]
      rfl

end Runs

section Example

theorem small_rebasable {info : List RebaseInfo}
    (inData : ∀ location ∈ info, location.type = .pointer ∧
      0x4000 ≤ location.address ∧ location.address < 0x4010) : Rebasable smallSections 8 info where
  pointer := Or.inr rfl
  few := by decide
  separate := separate_of_ordered (by decide)
  encoded location member := by
    obtain ⟨-, lower, upper⟩ := inData location member
    have data : (⟨0x4000, 0x4010⟩ : Segment) ∈ segments smallSections := by decide
    exact ⟨by omega, find_segment_complete data ⟨lower, upper⟩⟩
  typed := ⟨fun _ => false, fun location member _ _ => (inData location member).1⟩

theorem two_pointers_rebased : Rebasable smallSections 8 [⟨.pointer, 0x4008⟩, ⟨.pointer, 0x4000⟩] ∧
      Faithful smallSections 8 [⟨.pointer, 0x4008⟩, ⟨.pointer, 0x4000⟩] := by
  have rebasable : Rebasable smallSections 8 [⟨.pointer, 0x4008⟩, ⟨.pointer, 0x4000⟩] :=
    small_rebasable (by decide)
  refine ⟨rebasable, (rebase_opcodes_faithful_iff rebasable).mpr ?_⟩
  have sorted : [⟨.pointer, 0x4008⟩, ⟨.pointer, 0x4000⟩].mergeSort RebaseInfo.notAfter =
      [⟨.pointer, 0x4000⟩, ⟨.pointer, 0x4008⟩] := by
    simp [List.mergeSort, RebaseInfo.notAfter]
  rw [sorted, isChain_pair]
  decide

/-- The last pointer of a segment, listed twice: the second rebase happens at
the first one's end plus the whole address. -/
theorem last_pointer_twice_strays :
    Rebasable smallSections 8 [⟨.pointer, 0x4008⟩, ⟨.pointer, 0x4008⟩] ∧
      ¬ Faithful smallSections 8 [⟨.pointer, 0x4008⟩, ⟨.pointer, 0x4008⟩] := by
  refine ⟨small_rebasable (by decide), ?_⟩
  rintro ⟨stream, rebases, made, read, same, -⟩
  have sorted : [⟨.pointer, 0x4008⟩, ⟨.pointer, 0x4008⟩].mergeSort RebaseInfo.notAfter =
      [⟨.pointer, 0x4008⟩, ⟨.pointer, 0x4008⟩] := mergeSort_of_pairwise (by decide)
  have written : encodeV1 smallSections 8 [⟨.pointer, 0x4008⟩, ⟨.pointer, 0x4008⟩] =
      some [0x11, 0x21, 0x08, 0x70, 0x88, 0x80, 0x01, 0x51] := by decide +kernel
  rw [encode, if_neg (by decide), sorted, written] at made
  cases made
  have carriedOut : interpret (segments smallSections) 8
      [0x11, 0x21, 0x08, 0x70, 0x88, 0x80, 0x01, 0x51] =
        some [⟨1, some 1, 0x4008⟩, ⟨1, some 1, 0x8018⟩] := by decide +kernel
  have given := read.symm.trans carriedOut
  cases given
  revert same
  decide

end Example

/-- The stream does what the opcodes do that the loop has made, written as they are. -/
theorem rebase_phases_keep {sections : List FinalSection} {pointerSize : Nat}
    {info : List RebaseInfo} {ops : List RebaseTmp} (few : (segments sections).length ≤ 16)
    (made : rebaseTmps sections pointerSize info {} = some ops) :
    ∃ stream events, encodeV1 sections pointerSize info = some stream ∧
      interpret (segments sections) pointerSize stream = some events ∧
      interpret (segments sections) pointerSize (ops.flatMap RebaseTmp.bytes) = some events := by
  have writable := rebase_tmps_writable (finds_low_of_few few) made
  obtain ⟨stream, encoded, events⟩ := encode_v1_interpreted few made
  refine ⟨stream, _, encoded, events, Bytecode.interpret_whole (fun tmp member => ?_) _⟩
  exact rebase_readable (segments sections) pointerSize (writable tmp member).1
    (writable tmp member).2

theorem two_pointers_kept : ∃ ops stream events,
    rebaseTmps smallSections 8 [⟨.pointer, 0x4000⟩, ⟨.pointer, 0x4008⟩] {} = some ops ∧
      encodeV1 smallSections 8 [⟨.pointer, 0x4000⟩, ⟨.pointer, 0x4008⟩] = some stream ∧
      interpret (segments smallSections) 8 stream = some events ∧
      interpret (segments smallSections) 8 (ops.flatMap RebaseTmp.bytes) = some events := by
  have few : (segments smallSections).length ≤ 16 := by decide
  obtain ⟨ops, made⟩ : ∃ ops, rebaseTmps smallSections 8
      [⟨.pointer, 0x4000⟩, ⟨.pointer, 0x4008⟩] {} = some ops := ⟨_, rfl⟩
  obtain ⟨stream, events, kept⟩ := rebase_phases_keep few made
  exact ⟨ops, stream, events, made, kept⟩

end DeveloperTools.Ld64.RebaseOpcodes
