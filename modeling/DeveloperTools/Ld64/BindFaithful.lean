import DeveloperTools.Ld64.BindEncoding

/-!
The loops emit an opcode only where a variable changes. Each variable is in step
with the machine from its first opcode on, so every round binds what its entry
asks for. Unlike the rebase loop these loops never reset their address, and the
machine's address is theirs modulo 2^64.
-/

namespace DeveloperTools.Ld64.BindOpcodes

open List Option Transducer

variable {ordinal : Int}

section Pieces

variable {Pointer : Type} {string : Pointer → CString}
  {sections : List FinalSection} {pointerSize : Nat} {all : List (BindingInfo Pointer)}
  {state : Encoder Pointer} {machine : Machine} {info : BindingInfo Pointer}

def BindingInfo.exact (string : Pointer → CString) (info : BindingInfo Pointer) : Bind where
  type := info.type.code
  ordinal := info.libraryOrdinal
  symbol := (string info.symbolName).chars
  flags := info.flags.code
  address := info.address
  addend := info.addend.toInt

abbrev effect (sections : List FinalSection) (pointerSize : Nat) (ops : List BindingTmp) :
    Transducer Machine Event :=
  Transducer.program (BindingTmp.meaning (segments sections) pointerSize) ops

/-- What the encoder knows of the machine, on entries from `all`. Nothing is
known of the ordinal, the symbol and the address before they are first set. -/
structure Agrees (string : Pointer → CString) (all : List (BindingInfo Pointer))
    (state : Encoder Pointer) (machine : Machine) : Prop where
  ordinal : state.ordinal = -2 ^ 31 ∨ machine.ordinal = state.ordinal
  symbol : ∀ info ∈ all, state.symbolName = some info.symbolName →
    machine.symbol = (string info.symbolName).chars ∧ machine.flags = info.flags.code
  type : machine.type = state.type
  addend : machine.addend = state.addend.toInt
  address : machine.address = state.address ∨ (state.address = 2 ^ 64 - 1 ∧ state.curSegEnd = 0)
  bounded : state.address < 2 ^ 64
  plain : machine.threaded = false

theorem agrees_at_start : Agrees string all {} {} where
  ordinal := Or.inl rfl
  symbol _ _ set := nomatch set
  type := rfl
  addend := rfl
  address := Or.inr ⟨rfl, rfl⟩
  bounded := Nat.sub_lt (Nat.two_pow_pos 64) Nat.one_pos
  plain := rfl

theorem writable_nil : Writable [] := by
  intro tmp member
  cases member

theorem writable_singleton {tmp : BindingTmp} (alive : isDone tmp = false)
    (encodable : tmp.Encodable) : Writable [tmp] :=
  forall_mem_singleton.mpr ⟨alive, encodable⟩

theorem writable_append {first second : List BindingTmp} (left : Writable first)
    (right : Writable second) : Writable (first ++ second) :=
  forall_mem_append.mpr ⟨left, right⟩

theorem flags_code_small (flags : SymbolFlags) : flags.code < 16 := by
  cases flags <;> decide

theorem type_code_small (type : BindType) : type.code < 16 := by
  cases type <;> decide

theorem special_ordinal_unsigned (lower : -3 ≤ ordinal) (upper : ordinal ≤ 0) :
    specialOrdinal (unsigned ordinal &&& 0x0F) = ordinal := by
  interval_cases ordinal <;> decide

theorem unsigned_of_positive (lower : 0 < ordinal) (upper : ordinal < 2 ^ 31) :
    (unsigned ordinal : Int) = ordinal := by
  rw [unsigned, BitVec.toNat_ofInt]
  omega

variable (sections pointerSize) in
theorem set_ordinal_effect (agrees : Agrees string all state machine)
    (lower : -3 ≤ info.libraryOrdinal) (upper : info.libraryOrdinal < 2 ^ 31) :
    effect sections pointerSize (state.setOrdinal info).2 machine =
        ({ machine with ordinal := info.libraryOrdinal }, []) ∧
      Agrees string all (state.setOrdinal info).1
        { machine with ordinal := info.libraryOrdinal } ∧
      Writable (state.setOrdinal info).2 := by
  unfold Encoder.setOrdinal
  split
  · refine ⟨?_, { agrees with ordinal := Or.inr rfl }, ?_⟩
    · dsimp only
      split
      next special =>
        rw [effect, program_singleton, BindingTmp.meaning]
        simp only [special_ordinal_unsigned lower special]
      next positive =>
        rw [effect, program_singleton, BindingTmp.meaning]
        simp only [unsigned_of_positive (not_le.mp positive) upper]
    · dsimp only
      split
      · exact writable_singleton rfl trivial
      · exact writable_singleton rfl trivial
  next same =>
    rw [ne_eq, not_not] at same
    have known : machine.ordinal = info.libraryOrdinal := by
      rcases agrees.ordinal with unset | set
      · omega
      · rw [set, same]
    rw [← known]
    exact ⟨rfl, agrees, writable_nil⟩

variable (sections pointerSize machine info) in
theorem set_type_moves (known : machine.type = state.type) :
    effect sections pointerSize (state.setType info).2 machine =
        ({ machine with type := info.type.code }, []) ∧
      (state.setType info).1 = { state with type := info.type.code } ∧
      Writable (state.setType info).2 := by
  unfold Encoder.setType
  split
  · exact ⟨rfl, rfl, writable_singleton rfl (type_code_small info.type)⟩
  rename_i same
  rw [ne_eq, not_not] at same
  rw [← same]
  refine ⟨?_, rfl, writable_nil⟩
  rw [← known]
  rfl

variable (sections pointerSize machine info) in
theorem set_addend_moves (known : machine.addend = state.addend.toInt) :
    effect sections pointerSize (state.setAddend info).2 machine =
        ({ machine with addend := info.addend.toInt }, []) ∧
      (state.setAddend info).1 = { state with addend := info.addend } ∧
      Writable (state.setAddend info).2 := by
  unfold Encoder.setAddend
  split
  · refine ⟨?_, rfl, writable_singleton rfl trivial⟩
    rw [effect, program_singleton, BindingTmp.meaning]
    simp only [signed, BitVec.ofNat_toNat, BitVec.setWidth_eq]
  rename_i same
  rw [ne_eq, not_not] at same
  rw [← same]
  refine ⟨?_, rfl, writable_nil⟩
  rw [← known]
  rfl

section Symbol

variable [DecidableEq Pointer]

def announced (string : Pointer → CString) (state : Encoder Pointer) (info : BindingInfo Pointer) :
    List Event :=
  if state.symbolName ≠ some info.symbolName then
    [.announce (string info.symbolName).chars info.flags.code]
  else []

def weakEvents (string : Pointer → CString) (state : Encoder Pointer) (info : BindingInfo Pointer)
    (ordinal : Int) : List Event :=
  announced string state info ++
    if info.type ≠ .overrideOfWeakdefInDylib then
      [.bind { info.exact string with ordinal := ordinal }]
    else []

variable (sections pointerSize machine) in
theorem set_symbol_moves (known : state.symbolName = some info.symbolName →
      machine.symbol = (string info.symbolName).chars) :
    effect sections pointerSize (state.setSymbol string info).2 machine =
        ({ machine with
            symbol := (string info.symbolName).chars
            flags :=
              if state.symbolName ≠ some info.symbolName then info.flags.code else machine.flags },
          announced string state info) ∧
      (state.setSymbol string info).1 = { state with symbolName := some info.symbolName } ∧
      Writable (state.setSymbol string info).2 := by
  unfold Encoder.setSymbol announced
  split
  · refine ⟨rfl, rfl, writable_singleton rfl ?_⟩
    exact ⟨flags_code_small info.flags, (string info.symbolName).noNul⟩
  rename_i same
  rw [ne_eq, not_not] at same
  rw [← known same, ← same]
  exact ⟨rfl, rfl, writable_nil⟩

variable (sections pointerSize) in
theorem set_symbol_effect (agrees : Agrees string all state machine) (member : info ∈ all)
    (flags : ∀ other ∈ all, other.symbolName = info.symbolName → other.flags = info.flags) :
    effect sections pointerSize (state.setSymbol string info).2 machine =
        ({ machine with symbol := (string info.symbolName).chars, flags := info.flags.code },
          announced string state info) ∧
      Agrees string all (state.setSymbol string info).1
        { machine with symbol := (string info.symbolName).chars, flags := info.flags.code } ∧
      (state.setSymbol string info).1.symbolName = some info.symbolName ∧
      Writable (state.setSymbol string info).2 := by
  obtain ⟨moved, named, writable⟩ :=
    set_symbol_moves sections pointerSize machine fun same => (agrees.symbol info member same).1
  have code : (if state.symbolName ≠ some info.symbolName then info.flags.code
      else machine.flags) = info.flags.code := by
    split
    · rfl
    next same =>
      exact (agrees.symbol info member (not_not.mp same)).2
  rw [code] at moved
  rw [named]
  refine ⟨moved, { agrees with symbol := ?_ }, rfl, writable⟩
  intro other otherMember set
  have same : info.symbolName = other.symbolName := Option.some.inj set
  rw [flags other otherMember same.symm, same]
  exact ⟨rfl, rfl⟩

end Symbol

variable (pointerSize) (few : (segments sections).length ≤ 16)
  (agrees : Agrees string all state machine)
  (held : ∃ segment ∈ segments sections, segment.Contains info.address)
include few agrees held

theorem set_address_effect : ∃ placed ops segment,
    state.setAddress sections info = some (placed, ops) ∧
      effect sections pointerSize ops machine =
        ({ machine with segment := segment, address := info.address }, []) ∧
      Agrees string all placed { machine with segment := segment, address := info.address } ∧
      placed.symbolName = state.symbolName ∧ placed.address = info.address ∧ Writable ops := by
  obtain ⟨segment, member, holds⟩ := held
  have small : info.address < 2 ^ 64 - 1 := by
    have upper : info.address < segment.finish := holds.2
    have bound := segments_finish segment member
    omega
  unfold Encoder.setAddress
  split
  · split
    · obtain ⟨found, search⟩ := find_segment_complete member holds
      obtain ⟨place, lower, -⟩ := find_segment_sound search
      have inside := (List.getElem?_eq_some_iff.mp place).choose
      have reach : (found.start + (info.address - found.start)) % 2 ^ 64 = info.address := by
        omega
      rw [search]
      refine ⟨_, _, some found.index, rfl, ?_,
        { agrees with address := Or.inl rfl, bounded := by dsimp only; omega }, rfl, rfl,
        writable_singleton rfl (lt_of_lt_of_le inside few)⟩
      rw [effect, program_singleton, BindingTmp.meaning]
      simp only [place, elim_some, reach]
    next within =>
      -- the current segment is not the initial one, so the addresses agree
      have same : machine.address = state.address := by
        rcases agrees.address with same | unset
        · exact same
        · omega
      refine ⟨_, _, machine.segment, rfl, ?_,
        { agrees with address := Or.inl rfl, bounded := by dsimp only; omega }, rfl, rfl,
        writable_singleton rfl trivial⟩
      have bounded := agrees.bounded
      have reach : (machine.address + (info.address + 2 ^ 64 - state.address) % 2 ^ 64) % 2 ^ 64 =
          info.address := by
        omega
      rw [effect, program_singleton, BindingTmp.meaning]
      simp only [Machine.add, reach]
  next same =>
    rw [ne_eq, not_not] at same
    have known : machine.address = info.address := by
      rcases agrees.address with equal | unset
      · rw [equal, same]
      · omega
    refine ⟨state, [], machine.segment, rfl, ?_, ?_, rfl, same, writable_nil⟩
    · rw [← known]
      rfl
    · rw [← known]
      exact agrees

theorem bind_effect : ∃ next ops machine', state.bind sections pointerSize info = some (next, ops) ∧
      effect sections pointerSize ops machine =
        (machine', [.bind ⟨info.type.code, machine.ordinal, machine.symbol, machine.flags,
          info.address, info.addend.toInt⟩]) ∧
      Agrees string all next machine' ∧ next.symbolName = state.symbolName ∧ Writable ops := by
  obtain ⟨typeEffect, typed, typeWritable⟩ := set_type_moves sections pointerSize machine info
    agrees.type
  have typeAgrees : Agrees string all (state.setType info).1
      { machine with type := info.type.code } := by
    rw [typed]
    exact { agrees with type := rfl }
  obtain ⟨placed, placeOps, segment, placedAt, placeEffect, placeAgrees, placeSymbol, placeAddress,
    placeWritable⟩ := set_address_effect pointerSize few typeAgrees held
  obtain ⟨addEffect, added, addWritable⟩ :=
    set_addend_moves sections pointerSize _ info placeAgrees.addend
  have doBind : Writable [{ opcode := .doBind, operand1 := 0 }] := writable_singleton rfl trivial
  have made : state.bind sections pointerSize info =
      some ((placed.setAddend info).1.advance pointerSize,
        (state.setType info).2 ++ placeOps ++ (placed.setAddend info).2 ++
          [{ opcode := .doBind, operand1 := 0 }]) := by
    rw [Encoder.bind, placedAt]
    rfl
  refine ⟨_, _, Machine.add pointerSize ⟨machine.ordinal, machine.symbol, machine.flags,
    info.type.code, info.addend.toInt, segment, info.address, machine.threaded⟩, made, ?_, ?_, ?_,
    writable_append (writable_append (writable_append typeWritable placeWritable) addWritable)
      doBind⟩
  · apply program_then (program_then (program_then typeEffect placeEffect) addEffect)
    rw [program_singleton, BindingTmp.meaning]
    simp only [bindOnce, Machine.add_add, Nat.add_zero, agrees.plain]
    rfl
  · rw [added]
    exact { placeAgrees with
      addend := rfl
      address := Or.inl (by simp only [Encoder.advance, Machine.add, placeAddress])
      bounded := Nat.mod_lt _ (Nat.two_pow_pos 64) }
  · rw [added]
    change placed.symbolName = state.symbolName
    rw [placeSymbol, typed]

variable [DecidableEq Pointer] (member : info ∈ all)
  (flags : ∀ other ∈ all, other.symbolName = info.symbolName → other.flags = info.flags)
include member flags

theorem step_effect (lower : -3 ≤ info.libraryOrdinal) (upper : info.libraryOrdinal < 2 ^ 31) :
    ∃ next ops machine', state.step string sections pointerSize info = some (next, ops) ∧
      effect sections pointerSize ops machine =
        (machine', announced string state info ++ [.bind (info.exact string)]) ∧
      Agrees string all next machine' ∧ Writable ops := by
  obtain ⟨ordinalEffect, chosen, ordinalWritable⟩ :=
    set_ordinal_effect sections pointerSize agrees lower upper
  obtain ⟨symbolEffect, named, -, symbolWritable⟩ :=
    set_symbol_effect sections pointerSize chosen member flags
  obtain ⟨next, ops, machine', bound, bindEffect, still, -, bindWritable⟩ :=
    bind_effect pointerSize few named held
  refine ⟨next, (state.setOrdinal info).2 ++ ((state.setOrdinal info).1.setSymbol string info).2 ++
    ops, machine', ?_, ?_, still,
    writable_append (writable_append ordinalWritable symbolWritable) bindWritable⟩
  · rw [Encoder.step, bound]
    rfl
  have sameSymbol : (state.setOrdinal info).1.symbolName = state.symbolName := by
    unfold Encoder.setOrdinal
    split <;> rfl
  rw [announced, sameSymbol, ← announced] at symbolEffect
  exact program_then (program_then ordinalEffect symbolEffect) bindEffect

theorem weak_step_effect : ∃ next ops machine',
    state.weakStep string sections pointerSize info = some (next, ops) ∧
      effect sections pointerSize ops machine =
        (machine', weakEvents string state info machine.ordinal) ∧
      Agrees string all next machine' ∧ next.symbolName = some info.symbolName ∧ Writable ops := by
  obtain ⟨symbolEffect, named, symbolSet, symbolWritable⟩ :=
    set_symbol_effect sections pointerSize agrees member flags
  unfold Encoder.weakStep weakEvents
  split
  · obtain ⟨next, ops, machine', bound, bindEffect, still, kept, bindWritable⟩ :=
      bind_effect pointerSize few named held
    refine ⟨next, (state.setSymbol string info).2 ++ ops, machine', ?_, ?_, still,
      kept.trans symbolSet, writable_append symbolWritable bindWritable⟩
    · dsimp only
      rw [bound]
      rfl
    · exact program_then symbolEffect bindEffect
  · refine ⟨(state.setSymbol string info).1, (state.setSymbol string info).2, _, rfl, ?_, named,
      symbolSet, symbolWritable⟩
    rw [append_nil]
    exact symbolEffect

end Pieces

section Runs

variable {Pointer : Type} {string : Pointer → CString}
  {sections : List FinalSection} {pointerSize : Nat}

/-- What the lists of bindings are taken to be: at most 16 segments, an
address in one of them for each entry, and one set of flags for each name. -/
structure Bindable (string : Pointer → CString) (sections : List FinalSection)
    (info : List (BindingInfo Pointer)) : Prop where
  few : (segments sections).length ≤ 16
  held : ∀ entry ∈ info, ∃ segment ∈ segments sections, segment.Contains entry.address
  flags : ∀ first ∈ info, ∀ second ∈ info,
    (string first.symbolName).chars = (string second.symbolName).chars → first.flags = second.flags

variable {rest : List (BindingInfo Pointer)} {entry : BindingInfo Pointer}

variable {state next : Encoder Pointer}

theorem binding_tmps_cons
    {step : Encoder Pointer → BindingInfo Pointer → Option (Encoder Pointer × List BindingTmp)}
    {ops : List BindingTmp}
    (stepped : step state entry = some (next, ops)) :
    bindingTmps step (entry :: rest) state = (bindingTmps step rest next).map (ops ++ ·) := by
  rw [bindingTmps, stepped, bind_eq_bind, bind_some, map_eq_bind]
  rfl

theorem Bindable.flags_of_pointer {info : List (BindingInfo Pointer)}
    (bindable : Bindable string sections info) (member : entry ∈ info) :
    ∀ other ∈ info, other.symbolName = entry.symbolName → other.flags = entry.flags := by
  intro other otherMember same
  exact bindable.flags other otherMember entry member (by rw [same])

theorem Bindable.of_perm {info other : List (BindingInfo Pointer)} (same : other.Perm info)
    (bindable : Bindable string sections info) : Bindable string sections other where
  few := bindable.few
  held entry member := bindable.held entry (same.mem_iff.mp member)
  flags first firstMember second secondMember :=
    bindable.flags first (same.mem_iff.mp firstMember) second (same.mem_iff.mp secondMember)

variable [DecidableEq Pointer]

theorem announced_binds (state : Encoder Pointer) (entry : BindingInfo Pointer) :
    (announced string state entry).filterMap Event.bind? = [] := by
  unfold announced
  split <;> rfl

variable {all : List (BindingInfo Pointer)}

variable (pointerSize) in
theorem run_effect (bindable : Bindable string sections all)
    (ordinals : ∀ entry ∈ all, -3 ≤ entry.libraryOrdinal ∧ entry.libraryOrdinal < 2 ^ 31) :
    ∀ {state : Encoder Pointer} {machine : Machine}, rest ⊆ all → Agrees string all state machine →
      ∃ ops, bindingTmps (Encoder.step string sections pointerSize) rest state = some ops ∧
        Writable ops ∧
        (effect sections pointerSize ops machine).2.filterMap Event.bind? =
          rest.map (BindingInfo.exact string) := by
  induction rest with
  | nil =>
    intro state machine _ _
    exact ⟨[], rfl, writable_nil, rfl⟩
  | cons entry rest ih =>
    intro state machine within agrees
    have member : entry ∈ all := within mem_cons_self
    obtain ⟨next, here, machine', stepped, hereEffect, still, hereWritable⟩ :=
      step_effect pointerSize bindable.few agrees (bindable.held entry member) member
        (bindable.flags_of_pointer member) (ordinals entry member).1 (ordinals entry member).2
    obtain ⟨later, made, laterWritable, laterBinds⟩ :=
      ih (fun other inside => within (.tail _ inside)) still
    refine ⟨here ++ later, ?_, writable_append hereWritable laterWritable, ?_⟩
    · rw [binding_tmps_cons stepped, made, map_some]
    · rw [effect, program_events_then hereEffect later, filterMap_append,
        filterMap_append, announced_binds, laterBinds]
      rfl

def Bind.withoutOrdinal (bound : Bind) : Bind := { bound with ordinal := 0 }

def BindingInfo.announcement (string : Pointer → CString) (entry : BindingInfo Pointer) :
    Bytes × Nat :=
  ((string entry.symbolName).chars, entry.flags.code)

/-- What a run of the weak loop does from a given state. A symbol that is not
announced again is the last one announced. -/
structure WeakRun (string : Pointer → CString) (state : Encoder Pointer)
    (rest : List (BindingInfo Pointer)) (events : List Event) : Prop where
  binds : (events.filterMap Event.bind?).map Bind.withoutOrdinal =
    (rest.filter fun entry => entry.type ≠ .overrideOfWeakdefInDylib).map
      fun entry => (entry.exact string).withoutOrdinal
  asked : ∀ pair ∈ events.filterMap Event.announcement?,
    ∃ entry ∈ rest, entry.announcement string = pair
  given : ∀ entry ∈ rest, entry.announcement string ∈ events.filterMap Event.announcement? ∨
    state.symbolName = some entry.symbolName

theorem announcements_cons (state : Encoder Pointer) (entry : BindingInfo Pointer) (ordinal : Int)
    (later : List Event) :
    (weakEvents string state entry ordinal ++ later).filterMap Event.announcement? =
        (if state.symbolName ≠ some entry.symbolName then [entry.announcement string] else []) ++
          later.filterMap Event.announcement? := by
  have silent : (weakEvents string state entry ordinal).filterMap Event.announcement? =
      (announced string state entry).filterMap Event.announcement? := by
    unfold weakEvents
    split
    · rw [filterMap_append]
      exact append_nil _
    · rw [append_nil]
  rw [filterMap_append, silent, announced]
  split <;> rfl

theorem weak_run_cons (bindable : Bindable string sections all)
    {later : List Event} (within : entry :: rest ⊆ all)
    (named : next.symbolName = some entry.symbolName) (run : WeakRun string next rest later) :
    WeakRun string state (entry :: rest) (weakEvents string state entry ordinal ++ later) where
  binds := by
    rw [weakEvents, filterMap_append, filterMap_append, announced_binds,
      nil_append, map_append, run.binds]
    by_cases binds : entry.type ≠ .overrideOfWeakdefInDylib
    · rw [if_pos binds, filter_cons_of_pos (by simpa using binds)]
      rfl
    · rw [if_neg binds, filter_cons_of_neg (by simpa using binds)]
      rfl
  asked := by
    intro pair announced
    rw [announcements_cons, mem_append] at announced
    rcases announced with here | there
    · split at here
      · exact ⟨entry, mem_cons_self, (mem_singleton.mp here).symm⟩
      · cases here
    · obtain ⟨other, member, same⟩ := run.asked pair there
      exact ⟨other, .tail _ member, same⟩
  given := by
    rw [announcements_cons]
    have own : entry.announcement string ∈ (if state.symbolName ≠ some entry.symbolName then
        [entry.announcement string] else []) ∨ state.symbolName = some entry.symbolName := by
      by_cases same : state.symbolName = some entry.symbolName
      · exact Or.inr same
      · rw [if_pos same]
        exact Or.inl (mem_singleton.mpr rfl)
    intro other member
    rcases mem_cons.mp member with rfl | later
    · exact own.imp_left (mem_append_left _)
    rcases run.given other later with there | kept
    · exact Or.inl (mem_append_right _ there)
    -- the pointer of `entry` again, hence its flags
    have same : other.symbolName = entry.symbolName := by
      rw [named] at kept
      exact (Option.some.inj kept).symm
    have pair : other.announcement string = entry.announcement string := by
      rw [BindingInfo.announcement, BindingInfo.announcement, same,
        bindable.flags_of_pointer (within mem_cons_self) other (within member) same]
    rw [pair, same]
    exact own.imp_left (mem_append_left _)

variable (pointerSize) in
theorem weak_run_effect (bindable : Bindable string sections all) :
    ∀ {state : Encoder Pointer} {machine : Machine}, rest ⊆ all → Agrees string all state machine →
      ∃ ops, bindingTmps (Encoder.weakStep string sections pointerSize) rest state = some ops ∧
        Writable ops ∧ WeakRun string state rest (effect sections pointerSize ops machine).2 := by
  induction rest with
  | nil =>
    intro state machine _ _
    exact ⟨[], rfl, writable_nil, rfl, nofun, nofun⟩
  | cons entry rest ih =>
    intro state machine within agrees
    have member : entry ∈ all := within mem_cons_self
    obtain ⟨next, here, machine', stepped, hereEffect, still, named, hereWritable⟩ :=
      weak_step_effect pointerSize bindable.few agrees (bindable.held entry member) member
        (bindable.flags_of_pointer member)
    obtain ⟨later, made, laterWritable, laterRun⟩ :=
      ih (fun other inside => within (.tail _ inside)) still
    refine ⟨here ++ later, ?_, writable_append hereWritable laterWritable, ?_⟩
    · rw [binding_tmps_cons stepped, made, map_some]
    · rw [effect, program_events_then hereEffect later]
      exact weak_run_cons bindable within named laterRun

end Runs

section Faithful

variable {Pointer : Type} [DecidableEq Pointer]

/-- The stream performs the binds of the list. -/
def Faithful (string : Pointer → CString) (sorter : Sorter Pointer)
    (sections : List FinalSection) (pointerSize : Nat) (info : List (BindingInfo Pointer)) : Prop :=
  ∃ stream events, encodeV1 string sorter sections pointerSize info = some stream ∧
    interpret (segments sections) pointerSize stream = some events ∧
    (events.filterMap Event.bind?).Perm (info.map (BindingInfo.exact string))

/-- The stream performs the binds of the entries that are more than an
announcement, and announces the symbols of the entries and no others. -/
def WeakFaithful (string : Pointer → CString) (sorter : Sorter Pointer)
    (sections : List FinalSection) (pointerSize : Nat) (info : List (BindingInfo Pointer)) : Prop :=
  ∃ stream events, weakEncode string sorter sections pointerSize info = some stream ∧
    interpret (segments sections) pointerSize stream = some events ∧
    ((events.filterMap Event.bind?).map Bind.withoutOrdinal).Perm
      ((info.filter fun entry => entry.type ≠ .overrideOfWeakdefInDylib).map
        fun entry => (entry.exact string).withoutOrdinal) ∧
    ∀ pair, pair ∈ events.filterMap Event.announcement? ↔
      ∃ entry ∈ info, entry.announcement string = pair

variable {string : Pointer → CString} {sections : List FinalSection}
  {info : List (BindingInfo Pointer)}

theorem weak_encode_faithful (sorter : Sorter Pointer) (pointerSize : Nat)
    (bindable : Bindable string sections info) :
    WeakFaithful string sorter sections pointerSize info := by
  by_cases empty : info = []
  · subst empty
    refine ⟨[], [], rfl, rfl, List.Perm.refl _, ?_⟩
    simp
  have same := sorter.permutes (BindingInfo.weakLess string) info
  obtain ⟨ops, made, writable, run⟩ := weak_run_effect pointerSize
    (bindable.of_perm same) (List.Subset.refl _) agrees_at_start
  obtain ⟨stream, encoded, events⟩ := weak_encode_interpreted writable empty made
  refine ⟨stream, _, encoded, events, ?_, ?_⟩
  · rw [run.binds]
    exact (same.filter _).map _
  intro pair
  constructor
  · intro announced
    obtain ⟨entry, member, given⟩ := run.asked pair announced
    exact ⟨entry, same.mem_iff.mp member, given⟩
  rintro ⟨entry, member, rfl⟩
  rcases run.given entry (same.mem_iff.mpr member) with announced | unset
  · exact announced
  · cases unset

/-- Both bind streams are faithful, for any order the sort leaves the bindings
in and any pointer size. -/
theorem bind_opcodes_faithful (sorter : Sorter Pointer) (pointerSize : Nat)
    {weakInfo : List (BindingInfo Pointer)} (bindable : Bindable string sections info)
    (ordinals : ∀ entry ∈ info, -3 ≤ entry.libraryOrdinal ∧ entry.libraryOrdinal < 2 ^ 31)
    (weakBindable : Bindable string sections weakInfo) :
    Faithful string sorter sections pointerSize info ∧
      WeakFaithful string sorter sections pointerSize weakInfo := by
  refine ⟨?_, weak_encode_faithful sorter pointerSize weakBindable⟩
  have same := sorter.permutes (BindingInfo.less string) info
  obtain ⟨ops, made, writable, binds⟩ := run_effect pointerSize
    (bindable.of_perm same) (fun entry member => ordinals entry (same.mem_iff.mp member))
    (List.Subset.refl _) agrees_at_start
  obtain ⟨stream, encoded, events⟩ := encode_v1_interpreted writable made
  refine ⟨stream, _, encoded, events, ?_⟩
  rw [binds]
  exact same.map _

end Faithful

section Example

def mergeSorter : Sorter Nat where
  sort less info := info.mergeSort fun left right => !less right left
  permutes _ info := mergeSort_perm info _

def lettersAt (pointer : Nat) : CString where
  chars := List.replicate pointer 0x61
  noNul := by
    intro member
    cases (mem_replicate.mp member).2

def threeBindings : List (BindingInfo Nat) :=
  [⟨.pointer, .none, -2, 1, 0x4000, -8⟩, ⟨.pointer, .weakImport, 300, 2, 0x4008, 0⟩,
    ⟨.pointer, .weakImport, 300, 2, 0x1000, 0⟩]

def twoWeakBindings : List (BindingInfo Nat) :=
  [⟨.overrideOfWeakdefInDylib, .nonWeakDefinition, 0, 1, 0x4000, 0⟩,
    ⟨.pointer, .none, 0, 2, 0x4008, 0⟩]

theorem three_bindings_bindable : Bindable lettersAt smallSections threeBindings where
  few := by decide
  held := by decide
  flags := by decide

theorem two_weak_bindings_bindable : Bindable lettersAt smallSections twoWeakBindings where
  few := by decide
  held := by decide
  flags := by decide

theorem three_bindings_faithful : Bindable lettersAt smallSections threeBindings ∧
      Bindable lettersAt smallSections twoWeakBindings ∧
      Faithful lettersAt mergeSorter smallSections 8 threeBindings ∧
      WeakFaithful lettersAt mergeSorter smallSections 8 twoWeakBindings :=
  ⟨three_bindings_bindable, two_weak_bindings_bindable,
    bind_opcodes_faithful mergeSorter 8 three_bindings_bindable (by decide)
      two_weak_bindings_bindable⟩

end Example

end DeveloperTools.Ld64.BindOpcodes
