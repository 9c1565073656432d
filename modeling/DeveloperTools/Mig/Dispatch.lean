import Mathlib.Algebra.Group.Int.Defs
import Mathlib.Algebra.Group.Nat.Defs
import Mathlib.Data.List.Induction

/-!
The message ids of a `mig` subsystem: the numbers the parser gives to its statements, the routine
table and the symbol table written for the server, the server's demultiplexer and the ids the
user stubs send and expect.
-/

namespace DeveloperTools.Mig.Dispatch
open List

/-- The statements that take a number.  The user stub of a simple routine waits for no reply. -/
inductive Statement where
  | routine (name : String) (simple : Bool)
  | skip

structure Routine where
  rtNumber : Nat
  rtName : String
  simple : Bool

structure Parsed where
  rtNumber : Nat := 0
  stats : List Routine := []

/-- `rtAlloc` numbers a routine; `rtSkip` only counts. -/
def Parsed.statement (parsed : Parsed) : Statement → Parsed
  | .routine name simple =>
    ⟨parsed.rtNumber + 1, parsed.stats ++ [⟨parsed.rtNumber, name, simple⟩]⟩
  | .skip => { parsed with rtNumber := parsed.rtNumber + 1 }

def parse (statements : List Statement) : Parsed :=
  statements.foldl Parsed.statement {}

section Tables
variable {α : Type} (blank : α) (entry : Nat → Routine → α)

/-- `while (current++ < number)`, the same loop as `while (++current <= number)`: the empty
entries it writes and the counter it leaves. -/
def gap (current number : Nat) : List α × Nat :=
  if current < number then
    let (more, last) := gap (current + 1) number
    (blank :: more, last)
  else ([], current + 1)
termination_by number - current

def writeStats : List Routine → Nat → List α × Nat
  | [], current => ([], current)
  | rt :: rest, current =>
    let (empty, current) := gap blank current rt.rtNumber
    let (more, last) := writeStats rest current
    (empty ++ entry current rt :: more, last)

/-- Both tables are written by one loop over the routines and one behind the last of them. -/
def writeTable (parsed : Parsed) : List α :=
  let (entries, current) := writeStats blank entry parsed.stats 0
  entries ++ (gap blank current parsed.rtNumber).1
end Tables

def writeRoutineEntries : Parsed → List (Option String) :=
  writeTable none fun _ rt => some ("_X" ++ rt.rtName)

structure Symbol where
  name : String
  id : Int
  stub : Option String

/-- A number of type `u_int` is written with `%d`, so as an `int`. -/
def writeSymTabEntries (base : BitVec 32) : Parsed → List Symbol :=
  writeTable ⟨"", 0, none⟩ fun current rt =>
    ⟨rt.rtName, (base + BitVec.ofNat 32 current - 1).toInt, some ("_X" ++ rt.rtName)⟩

inductive Answer where
  | call (stub : String)
  | badId
  /-- The routine table is read behind its end. -/
  | outside
  deriving DecidableEq

def select : Option (Option String) → Answer
  | some (some stub) => .call stub
  | some none => .badId
  | none => .outside

/-- The test that `WriteDispatcher` writes, and the call behind it. -/
def demux (base : BitVec 32) (parsed : Parsed) (id : Int) : Answer :=
  if id > (base + BitVec.ofNat 32 parsed.rtNumber - 1).toInt ∨ id < base.toInt then .badId
  else select (writeRoutineEntries parsed)[(id - base.toInt).toNat]?

/-- `OutHeadP->msgh_id = InHeadP->msgh_id + 100`, where an `int` wraps. -/
def demuxReplyId (id : Int) : Int :=
  (BitVec.ofInt 32 id + 100).toInt

def requestId (base : BitVec 32) (rt : Routine) : Int :=
  (BitVec.ofNat 32 rt.rtNumber + base).toInt

/-- The id that `WriteCheckIdentity` compares the reply with. -/
def replyId (base : BitVec 32) (rt : Routine) : Option Int :=
  if rt.simple then none else some (BitVec.ofNat 32 rt.rtNumber + base + 100).toInt

section Written
variable {α : Type} (blank : α) (entry : Nat → Routine → α) (statements : List Statement)

theorem gap_eq (current number : Nat) :
    gap blank current number = (replicate (number - current) blank, max current number + 1) := by
  fun_induction gap blank current number with
  | case1 current below more last rest ih =>
    have counted : number - current = number - (current + 1) + 1 := by omega
    rw [rest, Prod.mk.injEq] at ih
    rw [ih.1, ih.2, counted, replicate_succ]
    congr 2
    omega
  | case2 current above =>
    rw [Nat.sub_eq_zero_of_le (by omega), replicate_zero, Nat.max_eq_left (by omega)]

theorem write_stats_append (first second : List Routine) (current : Nat) :
    writeStats blank entry (first ++ second) current =
      let written := writeStats blank entry first current
      let behind := writeStats blank entry second written.2
      (written.1 ++ behind.1, behind.2) := by
  induction first generalizing current with
  | nil => rfl
  | cons rt rest ih => simp [writeStats, ih]

theorem parse_append (last : Statement) :
    parse (statements ++ [last]) = (parse statements).statement last :=
  foldl_append

theorem parse_number : (parse statements).rtNumber = statements.length := by
  induction statements using reverseRecOn with
  | nil => rfl
  | append_singleton statements last ih =>
    rw [parse_append, length_append, ← ih]
    cases last <;> rfl

def entryOf (number : Nat) : Statement → α
  | .routine name simple => entry (number + 1) ⟨number, name, simple⟩
  | .skip => blank

/-- The counter never runs ahead of the numbers, and the entries missing behind the last routine
are those of the skips that follow it. -/
theorem stats_written :
    let (written, current) := writeStats blank entry (parse statements).stats 0
    current ≤ statements.length ∧ written ++ replicate (statements.length - current) blank =
      statements.mapIdx (entryOf blank entry) := by
  induction statements using reverseRecOn with
  | nil => exact ⟨Nat.le_refl _, rfl⟩
  | append_singleton statements last ih =>
    obtain ⟨behind, entries⟩ := ih
    rw [parse_append, mapIdx_concat, ← entries, length_append]
    cases last with
    | skip =>
      simp only [Parsed.statement, length_singleton, Nat.sub_add_comm behind]
      exact ⟨Nat.le_succ_of_le behind, by simp [replicate_succ', entryOf]⟩
    | routine name simple =>
      simp only [Parsed.statement, write_stats_append, writeStats, gap_eq, parse_number,
        Nat.max_eq_right behind]
      exact ⟨Nat.le_refl _, by simp [entryOf]⟩

theorem write_table :
    writeTable blank entry (parse statements) = statements.mapIdx (entryOf blank entry) := by
  rw [← (stats_written blank entry statements).2]
  simp only [writeTable, gap_eq, parse_number]
end Written

section Ids
variable (base : BitVec 32) (statements : List Statement)

/-- Every routine is reached by the id its user stub sends, answers with the id that stub waits
for and is listed under it; every other id is refused. -/
structure Dispatches : Prop where
  /-- The table is declared as `routine[%d]`. -/
  declared : (BitVec.ofNat 32 (parse statements).rtNumber).toInt = statements.length
  entries : (writeRoutineEntries (parse statements)).length = statements.length
  symbols : (writeSymTabEntries base (parse statements)).length = statements.length
  reached : ∀ i name simple, statements[i]? = some (.routine name simple) →
    let rt : Routine := ⟨i, name, simple⟩
    rt ∈ (parse statements).stats ∧
    demux base (parse statements) (requestId base rt) = .call ("_X" ++ name) ∧
    (∀ expected ∈ replyId base rt, demuxReplyId (requestId base rt) = expected) ∧
    (writeSymTabEntries base (parse statements))[i]? =
      some ⟨name, requestId base rt, some ("_X" ++ name)⟩
  refused : ∀ id : BitVec 32,
    (id.toInt < base.toInt ∨ base.toInt + statements.length ≤ id.toInt ∨
      ∃ i : Nat, id.toInt = base.toInt + i ∧ statements[i]? = some .skip) →
    demux base (parse statements) id.toInt = .badId

/-- The numbers written with `%d` do not leave the range of an `int`. -/
structure Fits : Prop where
  few : statements.length < 2 ^ 31
  last : (∃ name simple, .routine name simple ∈ statements) →
    base.toInt + statements.length ≤ 2 ^ 31
  first : -2 ^ 31 < base.toInt + statements.length

variable {base statements}

theorem bound_eq : (base + BitVec.ofNat 32 (parse statements).rtNumber - 1).toInt =
    (base.toInt + statements.length - 1).bmod (2 ^ 32) := by
  rw [parse_number, BitVec.toInt_sub, BitVec.toInt_add, BitVec.toInt_ofNat']
  simp

theorem demux_wrapped (few : statements.length < 2 ^ 31)
    (wraps : 2 ^ 31 < base.toInt + statements.length) (id : Int) :
    demux base (parse statements) id = .badId := by
  rw [demux, bound_eq, Int.bmod_def, if_pos (by omega)]

theorem demux_unlisted (last : base.toInt + statements.length ≤ 2 ^ 31)
    (first : -2 ^ 31 < base.toInt + statements.length) {id : Int}
    (unlisted : id < base.toInt ∨ base.toInt + statements.length ≤ id) :
    demux base (parse statements) id = .badId := by
  rw [demux, bound_eq, Int.bmod_eq_of_le (by omega) (by omega), if_pos (by omega)]

section Entry
variable {i : Nat}

theorem demux_listed (last : base.toInt + statements.length ≤ 2 ^ 31) {statement : Statement}
    (found : statements[i]? = some statement) :
    demux base (parse statements) (base.toInt + i) =
      select (some (entryOf none (fun _ rt => some ("_X" ++ rt.rtName)) i statement)) := by
  have ⟨below, _⟩ := List.getElem?_eq_some_iff.mp found
  have low := BitVec.le_toInt base
  have index : (base.toInt + i - base.toInt).toNat = i := by omega
  rw [demux, bound_eq, Int.bmod_eq_of_le (by omega) (by omega), if_neg (by omega), index,
    writeRoutineEntries, write_table, getElem?_mapIdx, found]
  rfl

variable {name : String} {simple : Bool} (found : statements[i]? = some (.routine name simple))
include found

theorem stats_mem : ⟨i, name, simple⟩ ∈ (parse statements).stats := by
  induction statements using reverseRecOn with
  | nil => simp at found
  | append_singleton statements last ih =>
    rw [parse_append]
    rw [getElem?_append, getElem?_singleton] at found
    split_ifs at found with earlier here
    · cases last
      · exact mem_append_left _ (ih found)
      · exact ih found
    · cases found
      obtain rfl : i = (parse statements).rtNumber := by
        rw [parse_number]
        omega
      exact mem_append_right _ (mem_singleton_self _)

theorem symbol_listed : (writeSymTabEntries base (parse statements))[i]? =
    some ⟨name, requestId base ⟨i, name, simple⟩, some ("_X" ++ name)⟩ := by
  have written : base + BitVec.ofNat 32 (i + 1) - 1 = BitVec.ofNat 32 i + base := by
    bv_omega
  rw [writeSymTabEntries, write_table, getElem?_mapIdx, found]
  simp only [Option.map_some, entryOf, written]
  rfl

theorem stub_called (last : base.toInt + statements.length ≤ 2 ^ 31) :
    demux base (parse statements) (requestId base ⟨i, name, simple⟩) = .call ("_X" ++ name) := by
  have ⟨below, _⟩ := List.getElem?_eq_some_iff.mp found
  have low := BitVec.le_toInt base
  have sent : requestId base ⟨i, name, simple⟩ = base.toInt + i := by
    simp only [requestId, BitVec.toInt_add, BitVec.toInt_ofNat', Int.bmod_add_bmod]
    rw [Int.bmod_eq_of_le (by omega) (by omega), Int.add_comm]
  rw [sent, demux_listed last found]
  rfl
end Entry

theorem reply_expected (rt : Routine) {expected : Int} (wanted : expected ∈ replyId base rt) :
    demuxReplyId (requestId base rt) = expected := by
  rw [replyId] at wanted
  split at wanted
  · simp at wanted
  · rw [demuxReplyId, requestId, BitVec.ofInt_toInt]
    exact Option.some.inj wanted

theorem Fits.dispatches (fits : Fits base statements) : Dispatches base statements where
  declared := by
    have few := fits.few
    rw [parse_number, BitVec.toInt_ofNat', Int.bmod_eq_of_le (by omega) (by omega)]
  entries := by rw [writeRoutineEntries, write_table, length_mapIdx]
  symbols := by rw [writeSymTabEntries, write_table, length_mapIdx]
  reached i name simple found :=
    ⟨stats_mem found, stub_called found (fits.last ⟨name, simple, mem_of_getElem? found⟩),
      fun _ => reply_expected _, symbol_listed found⟩
  refused id refused := by
    by_cases last : base.toInt + statements.length ≤ 2 ^ 31
    · obtain low | high | ⟨i, at_i, skipped⟩ := refused
      · exact demux_unlisted last fits.first (.inl low)
      · exact demux_unlisted last fits.first (.inr high)
      · rw [at_i, demux_listed last skipped]
        rfl
    · exact demux_wrapped fits.few (by omega) _

theorem Dispatches.fits (dispatches : Dispatches base statements) : Fits base statements := by
  have few : statements.length < 2 ^ 31 := by
    have declared := dispatches.declared
    have high := BitVec.toInt_lt (x := BitVec.ofNat 32 (parse statements).rtNumber)
    omega
  refine ⟨few, ?_, ?_⟩
  · rintro ⟨name, simple, among⟩
    obtain ⟨i, found⟩ := mem_iff_getElem?.mp among
    by_contra wraps
    have ⟨_, called, _⟩ := dispatches.reached i name simple found
    rw [demux_wrapped few (by omega)] at called
    contradiction
  by_contra first
  have low := BitVec.le_toInt base
  obtain rfl : statements = [] := length_eq_zero_iff.mp (by omega)
  have least : base.toInt = (BitVec.intMin 32).toInt := by
    exact (show _ = -2 ^ 31 by omega)
  obtain rfl := BitVec.eq_of_toInt_eq least
  have refused := dispatches.refused 0 (.inr (.inl (by decide)))
  rw [demux, writeRoutineEntries, write_table] at refused
  contradiction
end Ids

/-- The server calls the routine whose stub sent the request and refuses every other id exactly
if no number in its tables and tests leaves the range of an `int`. -/
theorem dispatches_iff_fits (base : BitVec 32) (statements : List Statement) :
    Dispatches base statements ↔ Fits base statements :=
  ⟨Dispatches.fits, Fits.dispatches⟩

/-- The second of two routines has an id behind the greatest `int`, so the first is refused. -/
theorem greatest_base_refused :
    let statements := [.routine "first" false, .routine "second" false]
    demux 0x7fffffff (parse statements) (requestId 0x7fffffff ⟨0, "first", false⟩) = .badId ∧
      ¬ Dispatches 0x7fffffff statements := by
  refine ⟨by decide, fun dispatches => ?_⟩
  have ⟨_, called, _⟩ := dispatches.reached 0 "first" false rfl
  exact absurd called (by decide)

end DeveloperTools.Mig.Dispatch
