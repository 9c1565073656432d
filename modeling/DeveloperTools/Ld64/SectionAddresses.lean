import DeveloperTools.Lib.Alignment
import DeveloperTools.Lib.Packing
import DeveloperTools.Ld64.SectionLayout

/-!
Where the sections are put. Each pass of `assignFileOffsets` lays its sections one behind the
other: those of a segment with a fixed address from there, those of the segments ordered after it
from its end, and the remaining ones from the base address. The layout that is returned has every
section with contents where this puts it.
-/

namespace DeveloperTools.Ld64.SectionLayout

open FailingFold DeveloperTools.Alignment
open Function

/-- What `alignTo` returns. -/
def rounded (addr alignment : Nat) : Nat :=
  (addr + (alignment - 1)) &&& (2 ^ 64 - alignment)

section Strips

variable (options : Options) (sections : Sections)

def IsFixed (i : Nat) : Prop :=
  options.hasCustomSegmentAddress (sections.sect i).segmentName = true

instance (i : Nat) : Decidable (IsFixed options sections i) :=
  inferInstanceAs (Decidable (_ = true))

/-- The second pass is made, and would place the section. -/
def AfterFixed (i : Nat) : Prop :=
  (∃ k < sections.count, IsFixed options sections k) ∧ options.segmentOrder ≠ [] ∧
    options.segmentOrderAfterFixedAddressSegment (sections.sect i).segmentName = true

instance (i : Nat) : Decidable (AfterFixed options sections i) :=
  inferInstanceAs (Decidable (_ ∧ _))

inductive Pass where
  | fixed
  | afterFixed
  | last
deriving DecidableEq, Repr

def passOf (i : Nat) : Pass :=
  if IsFixed options sections i then .fixed
  else if AfterFixed options sections i then .afterFixed
  else .last

/-- The segment of the last section below the index that is placed by the pass. -/
def lastName (pass : Pass) : Nat → String
  | 0 => ""
  | i + 1 =>
    if passOf options sections i = pass then (sections.sect i).segmentName else lastName pass i

/-- The sections of one pass. The others take no room. -/
def packed (pass : Pass) (restart : Nat → Option Nat) (turn : Nat → Nat → Nat) : Packing where
  restart i := if passOf options sections i = pass then restart i else none
  round i start :=
    if passOf options sections i = pass then
      rounded (turn i start) (2 ^ (sections.sect i).alignment.val)
    else start
  size i := if passOf options sections i = pass then (sections.sect i).size else 0

def fixedPacking : Packing :=
  packed options sections .fixed
    (fun i =>
      if lastName options sections .fixed i ≠ (sections.sect i).segmentName then
        some (options.customSegmentAddress (sections.sect i).segmentName)
      else none)
    (fun _ start => start)

/-- The end of the section before, rounded up to the page size of its segment. -/
def pageAfter (i finish : Nat) : Nat :=
  rounded finish (options.segPageSize (sections.sect (i - 1)).segmentName)

def afterFixedPacking : Packing :=
  packed options sections .afterFixed
    (fun i =>
      if passOf options sections (i - 1) = .afterFixed then none
      else some (pageAfter options sections i ((fixedPacking options sections).ended i)))
    (fun i start =>
      if passOf options sections (i - 1) = .afterFixed ∧
          (sections.sect (i - 1)).segmentName ≠ (sections.sect i).segmentName then
        pageAfter options sections i start
      else start)

/-- Other segments flow after a `__TEXT` segment whose address is fixed. -/
def floatingStart : Nat → Nat
  | 0 => options.baseAddress
  | i + 1 =>
    if IsFixed options sections i ∧ (sections.sect i).segmentName = "__TEXT" then
      (fixedPacking options sections).ended (i + 1)
    else floatingStart i

def lastPacking : Packing :=
  packed options sections .last
    (fun i =>
      if lastName options sections .last i = "" then
        some (rounded (floatingStart options sections sections.count) options.segmentAlignment)
      else none)
    (fun i start =>
      let lastSegName := lastName options sections .last i
      if lastSegName ≠ "" ∧ lastSegName ≠ (sections.sect i).segmentName then
        rounded (rounded start (options.segPageSize lastSegName)) options.segmentAlignment
      else start)

def packing : Pass → Packing
  | .fixed => fixedPacking options sections
  | .afterFixed => afterFixedPacking options sections
  | .last => lastPacking options sections

/-- The segments have names and pages, and no section is asked to be at the address that means
that it has none. -/
structure Regular : Prop where
  named : ∀ i < sections.count, (sections.sect i).segmentName ≠ ""
  pages : ∀ segName, 1 < options.segPageSize segName
  low : ∀ i < sections.count, passOf options sections i ≠ .last →
    (packing options sections (passOf options sections i)).place i ≠ noAddress

end Strips

theorem add64_ok {left right sum : Nat} (ok : add64 left right = .ok sum) :
    sum = left + right ∧ left + right < 2 ^ 64 := by
  unfold add64 at ok
  split at ok
  next fits =>
    cases ok
    exact ⟨rfl, fits⟩
  · cases ok

theorem align_to_ok {addr alignment aligned : Nat} (ok : alignTo addr alignment = .ok aligned)
    (positive : 0 < alignment) :
    aligned = rounded addr alignment ∧ addr ≤ aligned ∧ addr + (alignment - 1) < 2 ^ 64 := by
  obtain ⟨top, summed, done⟩ := bind_ok ok
  obtain ⟨rfl, fits⟩ := add64_ok summed
  cases done
  exact ⟨rfl, le_round_up positive fits, fits⟩

theorem align_section_ok {sect : FinalSection} {start fileOffset : Nat} {placed : Placement}
    (ok : alignSection sect start fileOffset = .ok placed) :
    placed.address = rounded start (2 ^ sect.alignment.val) ∧ start ≤ placed.address := by
  obtain ⟨address, aligned, done⟩ := bind_ok ok
  obtain ⟨isRounded, le, _⟩ := align_to_ok aligned (Nat.two_pow_pos _)
  cases done
  exact ⟨isRounded, le⟩

def Options.Final (options : Options) : Prop :=
  options.outputKind ≠ .objectFile ∧ options.outputKind ≠ .preload

section Steps

variable {options : Options} {sections : Sections} {i : Nat}

theorem Options.Final.occupy (final : options.Final) :
    options.hiddenSectionsOccupyAddressSpace = true := by
  exact decide_eq_true final

theorem Options.Final.pageAligned (final : options.Final) :
    options.segmentsArePageAligned = true := by
  exact decide_eq_true final.1

theorem address_after_ok (final : options.Final) {sect : FinalSection} {address after : Nat}
    (ok : addressAfter options sect address = .ok after) :
    after = address + sect.size ∧ address + sect.size < 2 ^ 64 := by
  unfold addressAfter at ok
  rw [final.occupy, Bool.or_true, if_pos rfl] at ok
  exact add64_ok ok

def finish (sections : Sections) (layout : Layout) (i : Nat) : Nat :=
  (layout i).address + (sections.sect i).size

theorem fixed_step_ok (final : options.Final) {state after : FixedPass}
    (ok : fixedStep options sections state i = .ok after) :
    ¬ IsFixed options sections i ∧ after = state ∨ IsFixed options sections i ∧ ∃ start placed,
      (start = if state.lastSegName ≠ (sections.sect i).segmentName then
        options.customSegmentAddress (sections.sect i).segmentName else state.address) ∧
      placed.address = rounded start (2 ^ (sections.sect i).alignment.val) ∧
      start ≤ placed.address ∧
      after.layout = update state.layout i placed ∧
      after.address = placed.address + (sections.sect i).size ∧ after.address < 2 ^ 64 ∧
      after.lastSegName = (sections.sect i).segmentName ∧
      (after.floatingAddressStart = if (sections.sect i).segmentName = "__TEXT" then
        after.address else state.floatingAddressStart) ∧
      after.haveFixedSegments = true := by
  unfold fixedStep at ok
  dsimp only at ok
  split at ok
  next floats =>
    cases ok
    refine Or.inl ⟨?_, rfl⟩
    unfold IsFixed
    simpa using floats
  next fixed =>
    right
    refine ⟨by unfold IsFixed; simpa using fixed, ?_⟩
    obtain ⟨placed, aligned, ok⟩ := bind_ok ok
    obtain ⟨_, checked, ok⟩ := bind_ok ok
    obtain ⟨address, following, ok⟩ := bind_ok ok
    obtain ⟨isRounded, above⟩ := align_section_ok aligned
    obtain ⟨rfl, fits⟩ := address_after_ok final following
    cases ok
    refine ⟨_, placed, ?_, isRounded, above, rfl, rfl, fits, ?_, rfl, rfl⟩
    · simp only [final.pageAligned, Bool.true_and, bne_iff_ne]
    simp only [final.pageAligned, Bool.true_and, bne_iff_ne]
    split
    · rfl
    next same =>
      exact not_ne_iff.mp same

theorem after_fixed_step_ok (final : options.Final) {layout after : Layout}
    (ok : afterFixedStep options sections layout i = .ok after) :
    ¬ ((layout i).address = noAddress ∧
      options.segmentOrderAfterFixedAddressSegment (sections.sect i).segmentName = true) ∧
      after = layout ∨
    ((layout i).address = noAddress ∧
      options.segmentOrderAfterFixedAddressSegment (sections.sect i).segmentName = true) ∧
    ∃ last start placed, i = last + 1 ∧
      (if (sections.sect last).segmentName ≠ (sections.sect i).segmentName then
        alignTo (finish sections layout last)
          (options.segPageSize (sections.sect last).segmentName)
      else .ok (finish sections layout last)) = .ok start ∧
      placed.address = rounded start (2 ^ (sections.sect i).alignment.val) ∧
      start ≤ placed.address ∧ placed.address + (sections.sect i).size < 2 ^ 64 ∧
      after = update layout i placed := by
  unfold afterFixedStep at ok
  dsimp only at ok
  split at ok
  next follows =>
    right
    refine ⟨follows, ?_⟩
    cases i with
    | zero => cases ok
    | succ last =>
      obtain ⟨ended, summed, ok⟩ := bind_ok ok
      obtain ⟨rfl, _⟩ := add64_ok summed
      obtain ⟨start, started, ok⟩ := bind_ok ok
      obtain ⟨placed, aligned, ok⟩ := bind_ok ok
      obtain ⟨_, following, ok⟩ := bind_ok ok
      obtain ⟨isRounded, above⟩ := align_section_ok aligned
      obtain ⟨address, run, _⟩ := map_ok following
      simp only [afterFixedStart, final.pageAligned, and_true] at started
      cases ok
      exact ⟨last, start, placed, rfl, started, isRounded, above, (address_after_ok final run).2,
        rfl⟩
  next stays =>
    cases ok
    exact Or.inl ⟨stays, rfl⟩

/-- The marker that moves up to the section has no size, so nothing is pushed over. -/
theorem move_first_section_ok {prevSect : Option Nat} {layout after : Layout}
    (ok : moveFirstSection sections layout prevSect i = .ok after) (k : Nat) :
    after k = layout k ∨ prevSect = some k ∧ (sections.sect k).size = 0 := by
  unfold moveFirstSection at ok
  cases prevSect with
  | none =>
    cases ok
    exact .inl rfl
  | some prev =>
    dsimp only at ok
    split_ifs at ok with marker empty moves
    · cases ok
      by_cases here : k = prev
      · subst here
        exact .inr ⟨rfl, not_ne_iff.mp empty⟩
      · exact .inl (update_of_ne here _ _)
    · cases ok
      exact .inl rfl
    · cases ok
      exact .inl rfl

def Apart (sections : Sections) (layout : Layout) (i j : Nat) : Prop :=
  finish sections layout i ≤ (layout j).address ∨ finish sections layout j ≤ (layout i).address

theorem overlaps_fixed_ok {layout : Layout} {other : Nat}
    (ok : overlapsFixed options sections layout i other = .ok false)
    (fixed : IsFixed options sections other) (nonempty : (sections.sect i).size ≠ 0)
    (otherNonempty : (sections.sect other).size ≠ 0) : Apart sections layout i other := by
  unfold overlapsFixed at ok
  unfold IsFixed at fixed
  simp only [fixed, Bool.not_true, Bool.false_eq_true, if_false, if_neg nonempty,
    if_neg otherNonempty] at ok
  unfold Apart finish
  split at ok
  · obtain ⟨ended, summed, done⟩ := bind_ok ok
    obtain ⟨rfl, _⟩ := add64_ok summed
    have before := of_decide_eq_false (Except.ok.inj done)
    right
    omega
  · obtain ⟨ended, summed, done⟩ := bind_ok ok
    obtain ⟨rfl, _⟩ := add64_ok summed
    have before := of_decide_eq_false (Except.ok.inj done)
    left
    omega

theorem flow_step_ok (final : options.Final) {state after : FlowPass}
    (ok : flowStep options sections state i = .ok after) :
    (state.layout i).address ≠ noAddress ∧ after = state ∨
    (state.layout i).address = noAddress ∧ ∃ start placed,
      flowStart options state.lastSegName (sections.sect i).segmentName state.address = .ok start ∧
      placed.address = rounded start (2 ^ (sections.sect i).alignment.val) ∧
      start ≤ placed.address ∧
      moveFirstSection sections (update state.layout i placed) state.prevSect i =
        .ok after.layout ∧
      after.address = placed.address + (sections.sect i).size ∧ after.address < 2 ^ 64 ∧
      after.lastSegName = (sections.sect i).segmentName ∧
      after.prevSect = some i ∧
      (after.overlapping = false → state.overlapping = false ∧ ∀ j < sections.count,
        overlapsFixed options sections after.layout i j = .ok false) := by
  unfold flowStep at ok
  split at ok
  next hasOne =>
    cases ok
    exact Or.inl ⟨hasOne, rfl⟩
  rename_i none
  rw [if_neg (fun both => final.2 both.1)] at ok
  right
  refine ⟨not_ne_iff.mp none, ?_⟩
  obtain ⟨start, started, ok⟩ := bind_ok ok
  obtain ⟨placed, aligned, ok⟩ := bind_ok ok
  obtain ⟨layout, moved, ok⟩ := bind_ok ok
  obtain ⟨_, checked, ok⟩ := bind_ok ok
  obtain ⟨overlaps, compared, ok⟩ := bind_ok ok
  obtain ⟨address, following, ok⟩ := bind_ok ok
  obtain ⟨isRounded, above⟩ := align_section_ok aligned
  obtain ⟨rfl, fits⟩ := address_after_ok final following
  cases ok
  refine ⟨start, placed, started, isRounded, above, moved, rfl, fits, ?_, rfl, ?_⟩
  · simp only [final.pageAligned, if_true]
  intro apart
  simp only [Bool.or_eq_false_iff, List.any_eq_false, id_eq] at apart
  refine ⟨apart.1, ?_⟩
  intro j inside
  obtain ⟨overlap, isIn, same⟩ := mapM_ok_mem compared j (List.mem_range.mpr inside)
  rw [same, Bool.eq_false_iff.mpr (apart.2 overlap isIn)]

end Steps

section Members

variable {options : Options} {sections : Sections} {pass : Pass} {i j : Nat}

theorem pass_of_fixed : passOf options sections i = .fixed ↔ IsFixed options sections i := by
  unfold passOf
  split_ifs <;> simp [*]

theorem pass_of_after_fixed : passOf options sections i = .afterFixed ↔
    ¬ IsFixed options sections i ∧ AfterFixed options sections i := by
  unfold passOf
  split_ifs <;> simp [*]

theorem pass_of_name (same : (sections.sect i).segmentName = (sections.sect j).segmentName) :
    passOf options sections i = passOf options sections j := by
  have fixed : IsFixed options sections i ↔ IsFixed options sections j := by
    rw [IsFixed, same, IsFixed]
  have ordered : AfterFixed options sections i ↔ AfterFixed options sections j := by
    rw [AfterFixed, same, AfterFixed]
  simp only [passOf, fixed, ordered]

theorem packing_other (other : passOf options sections i ≠ pass) :
    (packing options sections pass).restart i = none ∧
      (∀ start, (packing options sections pass).round i start = start) ∧
      (packing options sections pass).size i = 0 := by
  cases pass <;> exact ⟨if_neg other, fun _ => if_neg other, if_neg other⟩

theorem size_member (member : passOf options sections i = pass) :
    (packing options sections pass).size i = (sections.sect i).size := by
  cases pass <;> exact if_pos member

theorem place_other (other : passOf options sections i ≠ pass) :
    (packing options sections pass).place i = (packing options sections pass).start i :=
  (packing_other other).2.1 _

theorem ended_other (other : passOf options sections i ≠ pass) :
    (packing options sections pass).ended (i + 1) = (packing options sections pass).ended i := by
  obtain ⟨goesOn, _, empty⟩ := packing_other other
  rw [Packing.ended_succ, place_other other, empty, Packing.start, goesOn]
  rfl

theorem ended_member (member : passOf options sections i = pass) :
    (packing options sections pass).ended (i + 1) =
      (packing options sections pass).place i + (sections.sect i).size := by
  rw [Packing.ended_succ, size_member member]

theorem last_name_other (other : passOf options sections i ≠ pass) :
    lastName options sections pass (i + 1) = lastName options sections pass i :=
  if_neg other

theorem last_name_member (member : passOf options sections i = pass) :
    lastName options sections pass (i + 1) = (sections.sect i).segmentName :=
  if_pos member

/-- The section is where its pass puts it, and above where it may start. -/
structure PlacedIn (options : Options) (sections : Sections) (pass : Pass) (layout : Layout)
    (i : Nat) : Prop where
  address : (layout i).address = (packing options sections pass).place i
  rises : (packing options sections pass).start i ≤ (packing options sections pass).place i
  fits : (packing options sections pass).ended (i + 1) < 2 ^ 64

variable {layout after : Layout}

theorem PlacedIn.finish_eq (placed : PlacedIn options sections pass layout i)
    (member : passOf options sections i = pass) :
    finish sections layout i = (packing options sections pass).ended (i + 1) := by
  rw [finish, placed.address, ended_member member]

theorem PlacedIn.of_eq (placed : PlacedIn options sections pass layout i)
    (same : after i = layout i) : PlacedIn options sections pass after i :=
  ⟨same ▸ placed.address, placed.rises, placed.fits⟩

end Members

section Passes

variable {options : Options} {sections : Sections} {n : Nat}

structure FixedUpTo (options : Options) (sections : Sections) (n : Nat) (state : FixedPass) :
    Prop where
  untouched : ∀ i, n ≤ i ∨ passOf options sections i ≠ .fixed →
    (state.layout i).address = noAddress
  placed : ∀ i < n, passOf options sections i = .fixed →
    PlacedIn options sections .fixed state.layout i
  address : state.address = (fixedPacking options sections).ended n
  name : state.lastSegName = lastName options sections .fixed n
  floating : state.floatingAddressStart = floatingStart options sections n
  have_fixed : state.haveFixedSegments = true ↔ ∃ i < n, IsFixed options sections i

theorem fixed_start (member : passOf options sections n = .fixed) :
    (fixedPacking options sections).start n =
      if lastName options sections .fixed n ≠ (sections.sect n).segmentName then
        options.customSegmentAddress (sections.sect n).segmentName
      else (fixedPacking options sections).ended n := by
  have restarts : (fixedPacking options sections).restart n = _ := if_pos member
  rw [Packing.start, restarts]
  split <;> rfl

section

variable (final : options.Final)
include final

theorem fixed_step_keeps (n : Nat) (state after : FixedPass)
    (holds : FixedUpTo options sections n state)
    (ok : fixedStep options sections state n = .ok after) :
    FixedUpTo options sections (n + 1) after := by
  rcases fixed_step_ok final ok with ⟨floats, rfl⟩ | ⟨fixed, start, placed, started, isRounded,
    above, layout, address, fits, lastSegName, floating, haveFixed⟩
  · have other : passOf options sections n ≠ .fixed := fun is => floats (pass_of_fixed.mp is)
    constructor
    · intro i outside
      refine holds.untouched i (outside.imp_left fun ahead => ?_)
      omega
    · intro i inside member
      have before : i ≠ n := fun same => other (same ▸ member)
      exact holds.placed i (by omega) member
    · rw [holds.address]
      exact (ended_other other).symm
    · rw [holds.name, last_name_other other]
    · rw [holds.floating, floatingStart, if_neg fun both => floats both.1]
    rw [holds.have_fixed]
    constructor
    · rintro ⟨i, inside, fixed⟩
      exact ⟨i, by omega, fixed⟩
    · rintro ⟨i, inside, fixed⟩
      have before : i ≠ n := fun same => floats (same ▸ fixed)
      exact ⟨i, by omega, fixed⟩
  · have member : passOf options sections n = .fixed := pass_of_fixed.mpr fixed
    have elsewhere (i : Nat) (other : i ≠ n) : after.layout i = state.layout i := by
      rw [layout, update_of_ne other]
    have isStart : start = (fixedPacking options sections).start n := by
      rw [started, fixed_start member, holds.name, holds.address]
    have isPlace : placed.address = (fixedPacking options sections).place n := by
      rw [isRounded, isStart]
      exact (if_pos member).symm
    have isEnd : after.address = (fixedPacking options sections).ended (n + 1) := by
      rw [address, isPlace]
      exact (ended_member member).symm
    constructor
    · intro i outside
      have other : i ≠ n := by
        rintro rfl
        rcases outside with ahead | floating
        · omega
        · exact floating member
      rw [elsewhere i other]
      refine holds.untouched i (outside.imp_left fun ahead => ?_)
      omega
    · intro i inside isFixed
      by_cases same : i = n
      · subst same
        refine ⟨?_, ?_, isEnd ▸ fits⟩
        · rw [layout, update_self]
          exact isPlace
        · rw [isStart, isPlace] at above
          exact above
      · exact (holds.placed i (by omega) isFixed).of_eq (elsewhere i same)
    · exact isEnd
    · rw [lastSegName, last_name_member member]
    · rw [floating, holds.floating, floatingStart, isEnd]
      simp only [fixed, true_and]
    · rw [haveFixed]
      exact iff_of_true rfl ⟨n, by omega, fixed⟩

theorem fixed_pass_ok {state : FixedPass} (ok : fixedPass options sections = .ok state) :
    FixedUpTo options sections sections.count state := by
  apply foldlM_range_keeps (FixedUpTo options sections)
    (fun n state after _ => fixed_step_keeps final n state after) _ ok
  constructor
  case untouched => exact fun _ _ => rfl
  case placed =>
    intros
    omega
  case have_fixed => simp
  all_goals rfl

end

variable {fixed : FixedPass} {layout : Layout}

/-- What the first two passes have placed. -/
structure PinnedUpTo (options : Options) (sections : Sections) (fixed : Layout) (n : Nat)
    (layout : Layout) : Prop where
  same : ∀ i, n ≤ i ∨ passOf options sections i ≠ .afterFixed → layout i = fixed i
  placed : ∀ i < n, passOf options sections i = .afterFixed →
    PlacedIn options sections .afterFixed layout i

section

variable (final : options.Final) (regular : Regular options sections)
include regular

theorem no_address_iff (holds : FixedUpTo options sections sections.count fixed) {i : Nat}
    (inside : i < sections.count) :
    (fixed.layout i).address = noAddress ↔ passOf options sections i ≠ .fixed := by
  constructor
  · intro none member
    have low := regular.low i inside (by rw [member]; decide)
    rw [member, ← (holds.placed i inside member).address] at low
    exact low none
  · exact fun other => holds.untouched i (.inr other)

omit regular in
theorem after_fixed_place {last : Nat}
    (member : passOf options sections (last + 1) = .afterFixed) (address : Nat) :
    (afterFixedPacking options sections).round (last + 1) address =
      rounded (if passOf options sections last = .afterFixed ∧
          (sections.sect last).segmentName ≠ (sections.sect (last + 1)).segmentName then
        pageAfter options sections (last + 1) address
      else address) (2 ^ (sections.sect (last + 1)).alignment.val) := if_pos member

omit regular in
theorem after_fixed_restart {last : Nat}
    (member : passOf options sections (last + 1) = .afterFixed) :
    (afterFixedPacking options sections).restart (last + 1) =
      if passOf options sections last = .afterFixed then none
      else some (pageAfter options sections (last + 1)
        ((fixedPacking options sections).ended (last + 1))) := if_pos member

/-- The section before has an address, and the two start as the packing has it. -/
theorem after_fixed_start {last start finished : Nat}
    (member : passOf options sections (last + 1) = .afterFixed)
    (started : (if (sections.sect last).segmentName ≠ (sections.sect (last + 1)).segmentName then
      alignTo finished (options.segPageSize (sections.sect last).segmentName)
      else .ok finished) = .ok start)
    (ends : passOf options sections last ≠ .last →
      finished = (packing options sections (passOf options sections last)).ended (last + 1))
    (none : passOf options sections last = .last → noAddress ≤ finished) :
    rounded start (2 ^ (sections.sect (last + 1)).alignment.val) =
        (afterFixedPacking options sections).place (last + 1) ∧
      (afterFixedPacking options sections).start (last + 1) ≤ start := by
  have page := regular.pages (sections.sect last).segmentName
  rw [Packing.place, after_fixed_place member, Packing.start, after_fixed_restart member]
  by_cases goesOn : passOf options sections last = .afterFixed
  · rw [ends (by rw [goesOn]; decide), goesOn] at started
    simp only [goesOn, if_true, true_and, Option.getD_none]
    split at started
    next begins =>
      obtain ⟨isRounded, above, _⟩ := align_to_ok started (by omega)
      rw [if_pos begins]
      exact ⟨by rw [isRounded]; rfl, above⟩
    next same =>
      cases started
      rw [if_neg same]
      exact ⟨rfl, le_rfl⟩
  have begins : (sections.sect last).segmentName ≠ (sections.sect (last + 1)).segmentName :=
    fun same => goesOn ((pass_of_name same).trans member)
  rw [if_pos begins] at started
  obtain ⟨isRounded, _, fits⟩ := align_to_ok started (by omega)
  have isFixed : passOf options sections last = .fixed := by
    cases found : passOf options sections last with
    | fixed => rfl
    | afterFixed => exact absurd found goesOn
    | last =>
      have high := none found
      unfold noAddress at high
      omega
  rw [ends (by rw [isFixed]; decide), isFixed] at isRounded
  simp only [isFixed, reduceCtorEq, if_false, false_and, Option.getD_some]
  rw [isRounded]
  exact ⟨rfl, le_rfl⟩

include final

theorem after_fixed_step_keeps (first : FixedUpTo options sections sections.count fixed)
    (made : (∃ k < sections.count, IsFixed options sections k) ∧ options.segmentOrder ≠ [])
    (n : Nat) (layout after : Layout) (inside : n < sections.count)
    (holds : PinnedUpTo options sections fixed.layout n layout)
    (ok : afterFixedStep options sections layout n = .ok after) :
    PinnedUpTo options sections fixed.layout (n + 1) after := by
  have member_iff : (layout n).address = noAddress ∧
      options.segmentOrderAfterFixedAddressSegment (sections.sect n).segmentName = true ↔
      passOf options sections n = .afterFixed := by
    rw [holds.same n (.inl le_rfl), no_address_iff regular first inside, pass_of_after_fixed,
      ne_eq, pass_of_fixed]
    exact and_congr_right fun _ => ⟨fun ordered => ⟨made.1, made.2, ordered⟩, fun is => is.2.2⟩
  rcases after_fixed_step_ok final ok with ⟨stays, rfl⟩ | ⟨follows, last, start, placed, rfl,
    started, isRounded, above, fits, rfl⟩
  · rw [member_iff] at stays
    constructor
    · intro i outside
      refine holds.same i (outside.imp_left fun ahead => ?_)
      omega
    · intro i isIn member
      have before : i ≠ n := fun same => stays (same ▸ member)
      exact holds.placed i (by omega) member
  have member := member_iff.mp follows
  have elsewhere (i : Nat) (other : i ≠ last + 1) : update layout (last + 1) placed i = layout i :=
    update_of_ne other _ _
  constructor
  · intro i outside
    have other : i ≠ last + 1 := by
      rintro rfl
      rcases outside with ahead | other
      · omega
      · exact other member
    rw [elsewhere i other]
    refine holds.same i (outside.imp_left fun ahead => ?_)
    omega
  intro i isIn isMember
  by_cases here : i = last + 1
  swap
  · exact (holds.placed i (by omega) isMember).of_eq (elsewhere i here)
  subst here
  obtain ⟨isPlace, low⟩ := after_fixed_start regular member started
    (fun has => by
      cases found : passOf options sections last with
      | fixed =>
        have same := holds.same last (.inr (by rw [found]; decide))
        exact ((first.placed last (by omega) found).of_eq same).finish_eq found
      | afterFixed => exact (holds.placed last (by omega) found).finish_eq found
      | last => exact absurd found has)
    (fun floats => by
      have other : passOf options sections last ≠ .fixed := by rw [floats]; decide
      rw [finish, holds.same last (.inr (by rw [floats]; decide)),
        first.untouched last (.inr other)]
      exact Nat.le_add_right _ _)
  have isAddress := isRounded.trans isPlace
  refine ⟨?_, ?_, ?_⟩
  · rw [update_self]
    exact isAddress
  · exact low.trans (isAddress ▸ above)
  · rw [ended_member member]
    exact isAddress ▸ fits

theorem after_fixed_pass_ok (first : FixedUpTo options sections sections.count fixed)
    (ok : afterFixedPass options sections fixed = .ok layout) :
    PinnedUpTo options sections fixed.layout sections.count layout := by
  unfold afterFixedPass at ok
  split at ok
  next made =>
    rw [Bool.and_eq_true, first.have_fixed, Bool.not_eq_true', List.isEmpty_eq_false_iff] at made
    apply foldlM_range_keeps (PinnedUpTo options sections fixed.layout)
      (fun n layout after inside => after_fixed_step_keeps final regular first made n layout after
        inside) _ ok
    exact ⟨fun _ _ => rfl, fun _ none => absurd none (Nat.not_lt_zero _)⟩
  next skipped =>
    cases ok
    refine ⟨fun _ _ => rfl, fun i inside member => ?_⟩
    obtain ⟨some, order, _⟩ := (pass_of_after_fixed.mp member).2
    apply absurd _ skipped
    rw [Bool.and_eq_true, first.have_fixed, Bool.not_eq_true', List.isEmpty_eq_false_iff]
    exact ⟨some, order⟩

end

/-- The first two passes have placed their sections, and those of the last pass have no address. -/
structure Pinned (options : Options) (sections : Sections) (layout : Layout) : Prop where
  placed : ∀ i < sections.count, passOf options sections i ≠ .last →
    PlacedIn options sections (passOf options sections i) layout i
  no_address_iff : ∀ i < sections.count,
    (layout i).address = noAddress ↔ passOf options sections i = .last

theorem pinned_of_passes (regular : Regular options sections)
    (first : FixedUpTo options sections sections.count fixed)
    (second : PinnedUpTo options sections fixed.layout sections.count layout) :
    Pinned options sections layout := by
  have placed : ∀ i < sections.count, passOf options sections i ≠ .last →
      PlacedIn options sections (passOf options sections i) layout i := by
    intro i inside has
    cases found : passOf options sections i with
    | fixed =>
      exact (first.placed i inside found).of_eq (second.same i (.inr (by rw [found]; decide)))
    | afterFixed => exact second.placed i inside found
    | last => exact absurd found has
  refine ⟨placed, fun i inside => ⟨fun none => ?_, fun floats => ?_⟩⟩
  · by_contra has
    rw [(placed i inside has).address] at none
    exact regular.low i inside has none
  · rw [second.same i (.inr (by rw [floats]; decide)),
      first.untouched i (.inr (by rw [floats]; decide))]

theorem segment_alignment_pos : 0 < options.segmentAlignment := Nat.two_pow_pos _

structure FlowUpTo (options : Options) (sections : Sections) (pinned : Layout) (n : Nat)
    (state : FlowPass) : Prop where
  same : ∀ i, n ≤ i ∨ passOf options sections i ≠ .last → state.layout i = pinned i
  placed : ∀ i < n, passOf options sections i = .last → (sections.sect i).size ≠ 0 →
    (state.layout i).address = (lastPacking options sections).place i
  rises : ∀ i < n, passOf options sections i = .last →
    (lastPacking options sections).start i ≤ (lastPacking options sections).place i ∧
      (lastPacking options sections).ended (i + 1) < 2 ^ 64
  name : state.lastSegName = lastName options sections .last n
  begins : lastName options sections .last n = "" →
    state.address = floatingStart options sections sections.count
  address : lastName options sections .last n ≠ "" →
    state.address = (lastPacking options sections).ended n
  prev : ∀ prev, state.prevSect = some prev → prev < n ∧ passOf options sections prev = .last
  checked : state.overlapping = false → ∀ i < n, passOf options sections i = .last →
    (sections.sect i).size ≠ 0 → ∀ j < sections.count, (sections.sect j).size ≠ 0 →
    passOf options sections j = .fixed → Apart sections state.layout i j

theorem flow_start_ok (final : options.Final) (regular : Regular options sections)
    {lastSegName segName : String} {address start : Nat}
    (ok : flowStart options lastSegName segName address = .ok start) :
    address ≤ start ∧ start = if lastSegName ≠ segName then
      rounded (if lastSegName ≠ "" then rounded address (options.segPageSize lastSegName)
        else address) options.segmentAlignment
      else address := by
  simp only [flowStart, final.pageAligned, true_and] at ok
  have page := regular.pages lastSegName
  split at ok
  next begins =>
    rw [if_pos begins]
    split at ok
    next named =>
      obtain ⟨paged, first, second⟩ := bind_ok ok
      obtain ⟨isPaged, abovePage, _⟩ := align_to_ok first (by omega)
      obtain ⟨isRounded, above, _⟩ := align_to_ok second segment_alignment_pos
      rw [if_pos named, ← isPaged]
      exact ⟨abovePage.trans above, isRounded⟩
    next unnamed =>
      obtain ⟨isRounded, above, _⟩ := align_to_ok ok segment_alignment_pos
      rw [if_neg unnamed]
      exact ⟨above, isRounded⟩
  next same =>
    cases ok
    rw [if_neg same]
    exact ⟨le_rfl, rfl⟩

section

variable {pinned : Layout} (final : options.Final) (regular : Regular options sections)

include final regular

theorem last_start {state : FlowPass} {start : Nat} (inside : n < sections.count)
    (member : passOf options sections n = .last)
    (holds : FlowUpTo options sections pinned n state)
    (ok : flowStart options state.lastSegName (sections.sect n).segmentName state.address =
      .ok start) :
    rounded start (2 ^ (sections.sect n).alignment.val) = (lastPacking options sections).place n ∧
      (lastPacking options sections).start n ≤ start := by
  have named := regular.named n inside
  have restarts : (lastPacking options sections).restart n = _ := if_pos member
  have rounds (address : Nat) : (lastPacking options sections).round n address = _ :=
    if_pos member
  obtain ⟨above, isStart⟩ := flow_start_ok final regular ok
  rw [Packing.place, rounds, Packing.start, restarts]
  rw [holds.name] at isStart
  by_cases first : lastName options sections .last n = ""
  · rw [holds.begins first, first, if_pos named.symm, if_neg (not_not.mpr rfl)] at isStart
    simp only [first, if_true, Option.getD_some, ne_eq, not_true, false_and, if_false]
    rw [isStart]
    exact ⟨rfl, le_rfl⟩
  · rw [holds.address first] at isStart above
    simp only [first, if_false, Option.getD_none, ne_eq, not_false_iff, true_and, if_true]
      at isStart ⊢
    rw [← isStart]
    exact ⟨rfl, above⟩

theorem flow_step_keeps (isPinned : Pinned options sections pinned) (n : Nat)
    (state after : FlowPass) (inside : n < sections.count)
    (holds : FlowUpTo options sections pinned n state)
    (ok : flowStep options sections state n = .ok after) :
    FlowUpTo options sections pinned (n + 1) after := by
  have member_iff : (state.layout n).address = noAddress ↔ passOf options sections n = .last := by
    rw [holds.same n (.inl le_rfl), isPinned.no_address_iff n inside]
  rcases flow_step_ok final ok with ⟨has, rfl⟩ | ⟨floats, start, placed, started, isRounded, above,
    moved, address, fits, lastSegName, prevSect, compared⟩
  · have other : passOf options sections n ≠ .last := fun is => has (member_iff.mpr is)
    have before {i : Nat} (isIn : i < n + 1) (member : passOf options sections i = .last) :
        i < n := by
      have different : i ≠ n := fun same => other (same ▸ member)
      omega
    constructor
    · intro i outside
      refine holds.same i (outside.imp_left fun ahead => ?_)
      omega
    · intro i isIn member
      exact holds.placed i (before isIn member) member
    · intro i isIn member
      exact holds.rises i (before isIn member) member
    · rw [last_name_other other]
      exact holds.name
    · rw [last_name_other other]
      exact holds.begins
    · rw [last_name_other other]
      intro named
      rw [holds.address named]
      exact (ended_other other).symm
    · intro prev isPrev
      obtain ⟨isIn, member⟩ := holds.prev prev isPrev
      exact ⟨by omega, member⟩
    · intro apart i isIn member
      exact holds.checked apart i (before isIn member) member
  have member := member_iff.mp floats
  obtain ⟨isPlace, low⟩ := last_start final regular inside member holds started
  have isAddress := isRounded.trans isPlace
  have isEnd : after.address = (lastPacking options sections).ended (n + 1) := by
    rw [address, isAddress]
    exact (ended_member member).symm
  have named : lastName options sections .last (n + 1) ≠ "" := by
    rw [last_name_member member]
    exact regular.named n inside
  -- a marker that is moved is in this pass and has no contents
  have kept (i : Nat) (fixed : passOf options sections i ≠ .last ∨ (sections.sect i).size ≠ 0 ∨
      n < i) : after.layout i = update state.layout n placed i := by
    rcases move_first_section_ok moved i with same | ⟨isPrev, empty⟩
    · exact same
    · obtain ⟨isIn, isLast⟩ := holds.prev i isPrev
      rcases fixed with other | contents | ahead
      · exact absurd isLast other
      · exact absurd empty contents
      · omega
  constructor
  · intro i outside
    have other : i ≠ n := by
      rintro rfl
      rcases outside with ahead | other
      · omega
      · exact other member
    rw [kept i (outside.symm.imp_right fun ahead => .inr (by omega)), update_of_ne other]
    refine holds.same i (outside.imp_left fun ahead => ?_)
    omega
  · intro i isIn isMember contents
    rw [kept i (.inr (.inl contents))]
    by_cases here : i = n
    · subst here
      rw [update_self]
      exact isAddress
    · rw [update_of_ne here]
      exact holds.placed i (by omega) isMember contents
  · intro i isIn isMember
    by_cases here : i = n
    · subst here
      exact ⟨low.trans (isAddress ▸ above), isEnd ▸ fits⟩
    · exact holds.rises i (by omega) isMember
  · rw [lastSegName, last_name_member member]
  · exact fun none => absurd none named
  · exact fun _ => isEnd
  · intro prev isPrev
    rw [prevSect] at isPrev
    cases isPrev
    exact ⟨by omega, member⟩
  · intro apart i isIn isMember contents j jInside jContents jFixed
    obtain ⟨apartBefore, none⟩ := compared apart
    by_cases here : i = n
    · subst here
      exact overlaps_fixed_ok (none j jInside) (pass_of_fixed.mp jFixed) contents jContents
    have old := holds.checked apartBefore i (by omega) isMember contents j jInside jContents jFixed
    have other : j ≠ n := by
      rintro rfl
      rw [member] at jFixed
      cases jFixed
    unfold Apart finish at old ⊢
    rw [kept i (.inr (.inl contents)), kept j (.inr (.inl jContents)), update_of_ne here,
      update_of_ne other]
    exact old

theorem flow_pass_ok (isPinned : Pinned options sections pinned) {state : FlowPass}
    (ok : flowPass options sections pinned (floatingStart options sections sections.count) =
      .ok state) : FlowUpTo options sections pinned sections.count state := by
  apply foldlM_range_keeps (FlowUpTo options sections pinned)
    (fun n state after inside =>
      flow_step_keeps final regular isPinned n state after inside) _ ok
  constructor
  case same => exact fun _ _ => rfl
  case begins => exact fun _ => rfl
  case name => rfl
  case prev => nofun
  case address => exact fun named => absurd rfl named
  all_goals
    intros
    omega

end

theorem file_step_address {state after : FilePass}
    (ok : fileStep options sections state n = .ok after) (i : Nat) :
    (after.layout i).address = (state.layout i).address := by
  unfold fileStep at ok
  dsimp only at ok
  split at ok
  · obtain ⟨fileOffset, _, ok⟩ := bind_ok ok
    cases ok
    by_cases here : i = n
    · subst here
      simp
    · simp [update_of_ne here]
  · obtain ⟨start, _, ok⟩ := bind_ok ok
    obtain ⟨fileOffset, _, ok⟩ := bind_ok ok
    obtain ⟨ended, _, ok⟩ := bind_ok ok
    cases ok
    by_cases here : i = n
    · subst here
      simp
    · simp [update_of_ne here]

theorem file_pass_address {state : FilePass} (ok : filePass options sections layout = .ok state)
    (i : Nat) : (state.layout i).address = (layout i).address := by
  apply foldlM_keeps (fun state : FilePass => (state.layout i).address = (layout i).address) _ rfl
    ok
  intro state item after _ holds step
  exact (file_step_address step i).trans holds

/-- What holds of a layout that is returned. -/
structure Laid (options : Options) (sections : Sections) (layout : Layout) : Prop where
  address : ∀ i < sections.count, (sections.sect i).size ≠ 0 → (layout i).address =
    (packing options sections (passOf options sections i)).place i
  rises : ∀ i < sections.count,
    (packing options sections (passOf options sections i)).start i ≤
      (packing options sections (passOf options sections i)).place i ∧
    (packing options sections (passOf options sections i)).ended (i + 1) < 2 ^ 64
  compared : ∀ i < sections.count, ∀ j < sections.count, passOf options sections i = .last →
    passOf options sections j = .fixed → (sections.sect i).size ≠ 0 →
    (sections.sect j).size ≠ 0 → Apart sections layout i j

theorem assign_file_offsets_ok (final : options.Final) (regular : Regular options sections)
    {size : Nat} (ok : assignFileOffsets options sections = .ok (layout, size)) :
    Laid options sections layout := by
  obtain ⟨addresses, assigned, ok⟩ := bind_ok ok
  obtain ⟨file, filed, ok⟩ := bind_ok ok
  cases ok
  obtain ⟨fixed, ranFirst, assigned⟩ := bind_ok assigned
  obtain ⟨pinned, ranSecond, assigned⟩ := bind_ok assigned
  obtain ⟨flow, ranLast, assigned⟩ := bind_ok assigned
  split at assigned
  · cases assigned
  next apart =>
  cases assigned
  have first := fixed_pass_ok final ranFirst
  have isPinned := pinned_of_passes regular first
    (after_fixed_pass_ok final regular first ranSecond)
  rw [first.floating] at ranLast
  have last := flow_pass_ok final regular isPinned ranLast
  have sameAddress := file_pass_address filed
  constructor
  · intro i inside contents
    rw [sameAddress]
    by_cases floats : passOf options sections i = .last
    · rw [last.placed i inside floats contents, floats]
      rfl
    · rw [last.same i (.inr floats)]
      exact (isPinned.placed i inside floats).address
  · intro i inside
    by_cases floats : passOf options sections i = .last
    · rw [floats]
      exact last.rises i inside floats
    · exact ⟨(isPinned.placed i inside floats).rises, (isPinned.placed i inside floats).fits⟩
  · intro i iInside j jInside floats isFixed iContents jContents
    have old := last.checked (by simpa using apart) i iInside floats iContents j jInside jContents
      isFixed
    unfold Apart finish at old ⊢
    rw [sameAddress, sameAddress]
    exact old

end Passes

end DeveloperTools.Ld64.SectionLayout
