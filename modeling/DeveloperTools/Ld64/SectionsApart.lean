import DeveloperTools.Ld64.SectionAddresses

/-!
No two sections share an address. `assignFileOffsets` compares the sections of the last pass with
those of fixed segments, and lays the sections of one strip behind one another. It never compares
two fixed segments, nor what follows a fixed segment with anything else: these share no address if
none of them is asked to begin inside another.
-/

namespace DeveloperTools.Ld64.SectionLayout

open DeveloperTools.Alignment Packing FailingFold

section Disjoint

variable (options : Options) (sections : Sections)

/-- No two sections with contents share an address. -/
def Disjoint (layout : Layout) : Prop :=
  ∀ i j, i < j → j < sections.count → (sections.sect i).size ≠ 0 → (sections.sect j).size ≠ 0 →
    Apart sections layout i j

def SameStrip (i j : Nat) : Prop :=
  passOf options sections i = passOf options sections j ∧
    (packing options sections (passOf options sections i)).Onward i j

instance (i j : Nat) : Decidable (SameStrip options sections i j) :=
  inferInstanceAs (Decidable (_ ∧ _))

/-- One section is in a fixed segment and the other one is placed by the last pass. -/
def Compared (i j : Nat) : Prop :=
  passOf options sections i = .fixed ∧ passOf options sections j = .last ∨
    passOf options sections i = .last ∧ passOf options sections j = .fixed

instance (i j : Nat) : Decidable (Compared options sections i j) :=
  inferInstanceAs (Decidable (_ ∨ _))

/-- Two sections with contents that are neither laid behind one another nor compared. -/
def Unrelated (i j : Nat) : Prop :=
  (sections.sect i).size ≠ 0 ∧ (sections.sect j).size ≠ 0 ∧ ¬ SameStrip options sections i j ∧
    ¬ Compared options sections i j

instance (i j : Nat) : Decidable (Unrelated options sections i j) :=
  inferInstanceAs (Decidable (_ ∧ _))

/-- Where the strip of the section is asked to begin. -/
def beginning (i : Nat) : Nat :=
  match passOf options sections i with
  | .fixed => options.customSegmentAddress (sections.sect i).segmentName
  | .afterFixed => (afterFixedPacking options sections).begun (i + 1)
  | .last => rounded (floatingStart options sections sections.count) options.segmentAlignment

/-- The strip of the second section is asked to begin inside that of the first. -/
def BeginsInside (i j : Nat) : Prop :=
  beginning options sections i ≤ beginning options sections j ∧ beginning options sections j <
    (packing options sections (passOf options sections i)).ended (i + 1)

instance (i j : Nat) : Decidable (BeginsInside options sections i j) :=
  inferInstanceAs (Decidable (_ ∧ _))

def NoneInside : Prop :=
  ∀ j < sections.count, ∀ i < j, Unrelated options sections i j →
    ¬ BeginsInside options sections i j ∧ ¬ BeginsInside options sections j i

instance : Decidable (NoneInside options sections) :=
  inferInstanceAs (Decidable (∀ j < _, ∀ i < j, _))

/-- Fixed addresses are those of pages, all pages have one size, and no section is more aligned. -/
structure Paged : Prop where
  addresses : ∀ i < sections.count, IsFixed options sections i →
    options.segmentAlignment ∣ options.customSegmentAddress (sections.sect i).segmentName
  sizes : ∀ segName, options.segPageSize segName = options.segmentAlignment
  alignments : ∀ i < sections.count,
    (sections.sect i).alignment.val ≤ options.segmentAlignmentPower.val

end Disjoint

section Beginning

variable {options : Options} {sections : Sections} (regular : Regular options sections) {i j n : Nat}

include regular

theorem fixed_begun (inside : n ≤ sections.count)
    (some : lastName options sections .fixed n ≠ "") : (fixedPacking options sections).begun n =
      options.customSegmentAddress (lastName options sections .fixed n) := by
  induction n with
  | zero => exact absurd rfl some
  | succ n ih =>
    by_cases member : passOf options sections n = .fixed
    · have restarts : (fixedPacking options sections).restart n = _ := if_pos member
      rw [last_name_member member, begun, restarts]
      split
      · rfl
      next same =>
        have sameName := not_ne_iff.mp same
        rw [Option.getD_none, ih (by omega) (sameName ▸ regular.named n inside), sameName]
    · rw [last_name_other member] at some ⊢
      have goesOn : (fixedPacking options sections).restart n = none := if_neg member
      rw [begun, goesOn, Option.getD_none, ih (by omega) some]

theorem last_begun (inside : n ≤ sections.count)
    (some : lastName options sections .last n ≠ "") : (lastPacking options sections).begun n =
      rounded (floatingStart options sections sections.count) options.segmentAlignment := by
  induction n with
  | zero => exact absurd rfl some
  | succ n ih =>
    by_cases member : passOf options sections n = .last
    · have restarts : (lastPacking options sections).restart n = _ := if_pos member
      rw [begun, restarts]
      split
      · rfl
      next goesOn => rw [Option.getD_none, ih (by omega) goesOn]
    · rw [last_name_other member] at some
      have goesOn : (lastPacking options sections).restart n = none := if_neg member
      rw [begun, goesOn, Option.getD_none, ih (by omega) some]

theorem begun_eq_beginning (inside : i < sections.count) :
    (packing options sections (passOf options sections i)).begun (i + 1) =
      beginning options sections i := by
  have some {pass : Pass} (member : passOf options sections i = pass) :
      lastName options sections pass (i + 1) ≠ "" := by
    rw [last_name_member member]
    exact regular.named i inside
  cases member : passOf options sections i with
  | fixed =>
    simp only [beginning, member]
    rw [← last_name_member member]
    exact fixed_begun regular inside (some member)
  | afterFixed =>
    simp only [beginning, member]
    rfl
  | last =>
    simp only [beginning, member]
    exact last_begun regular inside (some member)

theorem begins_inside_iff (iInside : i < sections.count) (jInside : j < sections.count) :
    BeginsInside options sections i j ↔
      Inside (packing options sections (passOf options sections i))
        (packing options sections (passOf options sections j)) i j := by
  rw [Inside, begun_eq_beginning regular iInside, begun_eq_beginning regular jInside]
  rfl

end Beginning

section Laid

variable {options : Options} {sections : Sections} {layout : Layout} {i j : Nat}

section

variable (laid : Laid options sections layout)

include laid

theorem Laid.rises_at (inside : i < sections.count) :
    (packing options sections (passOf options sections i)).Rises i := by
  intro k onward
  by_cases member : passOf options sections k = passOf options sections i
  · rw [← member]
    exact (laid.rises k (onward.1.trans_lt inside)).1
  · rw [place_other member]

theorem Laid.finish_eq (inside : i < sections.count) (contents : (sections.sect i).size ≠ 0) :
    finish sections layout i =
      (packing options sections (passOf options sections i)).ended (i + 1) := by
  rw [finish, laid.address i inside contents, ended_member rfl]

theorem Laid.disjoint (regular : Regular options sections)
    (apart : NoneInside options sections) : Disjoint sections layout := by
  intro i j before inside iContents jContents
  have iInside : i < sections.count := before.trans inside
  by_cases same : SameStrip options sections i j
  · left
    rw [laid.finish_eq iInside iContents, laid.address j inside jContents, ← same.1]
    refine Rises.ended_le ?_ same.2 before
    rw [same.1]
    exact laid.rises_at inside
  by_cases compared : Compared options sections i j
  · rcases compared with ⟨isFixed, floats⟩ | ⟨floats, isFixed⟩
    · exact (laid.compared j inside i iInside floats isFixed jContents iContents).symm
    · exact laid.compared i iInside j inside floats isFixed iContents jContents
  obtain ⟨after, behind⟩ := apart j inside i before ⟨iContents, jContents, same, compared⟩
  rw [begins_inside_iff regular iInside inside] at after
  rw [begins_inside_iff regular inside iInside] at behind
  unfold Apart
  rw [laid.finish_eq iInside iContents, laid.finish_eq inside jContents,
    laid.address i iInside iContents, laid.address j inside jContents]
  exact apart_of_not_inside (laid.rises_at iInside) (laid.rises_at inside) after behind

end

section Paged

variable {pass : Pass} {last address : Nat}

theorem rounded_le {start k : Nat} (power : k ≤ options.segmentAlignmentPower.val)
    (multiple : options.segmentAlignment ∣ address) (small : address < 2 ^ 64)
    (le : start ≤ address) : rounded start (2 ^ k) ≤ address :=
  round_up_le le ((pow_dvd_pow 2 power).trans multiple) small (by omega)

theorem dvd_rounded (start : Nat) :
    options.segmentAlignment ∣ rounded start options.segmentAlignment :=
  dvd_round_up (by omega)

variable (paged : Paged options sections)

include paged

theorem Paged.on_grid (inside : last < sections.count)
    (multiple : options.segmentAlignment ∣ address) (small : address < 2 ^ 64) :
    (packing options sections pass).OnGrid last address := by
  intro item onward start le
  by_cases member : passOf options sections item = pass
  swap
  · rw [(packing_other member).2.1]
    exact le
  have power := paged.alignments item (onward.1.trans_lt inside)
  have aligned {start : Nat} (le : start ≤ address) :
      rounded start (2 ^ (sections.sect item).alignment.val) ≤ address :=
    rounded_le power multiple small le
  have page (segName : String) {start : Nat} (le : start ≤ address) :
      rounded start (options.segPageSize segName) ≤ address := by
    rw [paged.sizes]
    exact rounded_le le_rfl multiple small le
  cases pass with
  | fixed =>
    have rounds : (fixedPacking options sections).round item start = _ := if_pos member
    exact rounds.trans_le (aligned le)
  | afterFixed =>
    have rounds : (afterFixedPacking options sections).round item start = _ := if_pos member
    refine rounds.trans_le (aligned ?_)
    dsimp only
    split
    · exact page _ le
    · exact le
  | last =>
    have rounds : (lastPacking options sections).round item start = _ := if_pos member
    refine rounds.trans_le (aligned ?_)
    dsimp only
    split
    · exact rounded_le le_rfl multiple small (page _ le)
    · exact le

theorem Paged.dvd_begun {n : Nat} (inside : n ≤ sections.count) :
    options.segmentAlignment ∣ (packing options sections pass).begun n := by
  induction n with
  | zero => exact dvd_zero _
  | succ n ih =>
    rw [begun]
    cases restarts : (packing options sections pass).restart n with
    | none => exact ih (by omega)
    | some first =>
      have member : passOf options sections n = pass := by
        by_contra other
        rw [(packing_other other).1] at restarts
        cases restarts
      cases pass with
      | fixed =>
        have isRestart : (fixedPacking options sections).restart n = _ := if_pos member
        rw [show (packing options sections .fixed).restart n = _ from isRestart] at restarts
        split at restarts
        · cases restarts
          exact paged.addresses n inside (pass_of_fixed.mp member)
        · cases restarts
      | afterFixed =>
        have isRestart : (afterFixedPacking options sections).restart n = _ := if_pos member
        rw [show (packing options sections .afterFixed).restart n = _ from isRestart] at restarts
        split at restarts
        · cases restarts
        · cases restarts
          rw [pageAfter, paged.sizes]
          exact dvd_rounded _
      | last =>
        have isRestart : (lastPacking options sections).restart n = _ := if_pos member
        rw [show (packing options sections .last).restart n = _ from isRestart] at restarts
        split at restarts
        · cases restarts
          exact dvd_rounded _
        · cases restarts

omit paged in
theorem contents_member (contents : (packing options sections pass).size i ≠ 0) :
    passOf options sections i = pass ∧ (sections.sect i).size ≠ 0 := by
  have member : passOf options sections i = pass := by
    by_contra other
    exact contents (packing_other other).2.2
  rw [size_member member] at contents
  exact ⟨member, contents⟩

theorem Paged.not_begins_inside (regular : Regular options sections)
    (laid : Laid options sections layout)
    (disjoint : ∀ i < sections.count, ∀ j < sections.count, i ≠ j → (sections.sect i).size ≠ 0 →
      (sections.sect j).size ≠ 0 → Apart sections layout i j)
    (iInside : i < sections.count) (jInside : j < sections.count)
    (contents : (sections.sect j).size ≠ 0)
    (different : ∀ k, passOf options sections k = passOf options sections i →
      passOf options sections k = passOf options sections j →
      (packing options sections (passOf options sections i)).Onward k i →
      ¬ (packing options sections (passOf options sections j)).Onward k j) :
    ¬ BeginsInside options sections i j := by
  rw [begins_inside_iff regular iInside jInside]
  intro inside
  have multiple : options.segmentAlignment ∣
      (packing options sections (passOf options sections j)).begun (j + 1) :=
    paged.dvd_begun jInside
  have low := (laid.rises_at jInside).begun_le
  have small := (laid.rises j jInside).2
  rw [ended_member rfl] at small
  obtain ⟨other, item, before, onward, itemSize, above, below⟩ := exists_shared
    (laid.rises_at jInside) (by rw [size_member rfl]; exact contents)
    (paged.on_grid iInside multiple (by omega)) (paged.on_grid jInside multiple (by omega)) inside
  rw [ended_succ] at below
  obtain ⟨otherPass, otherContents⟩ :=
    contents_member (show (packing options sections (passOf options sections i)).size other ≠ 0 by
      omega)
  obtain ⟨itemPass, itemContents⟩ := contents_member itemSize
  have otherInside := before.1.trans_lt iInside
  have itemInside := onward.1.trans_lt jInside
  have distinct : other ≠ item := by
    rintro rfl
    exact different other otherPass itemPass before onward
  rw [size_member otherPass] at below
  rw [← otherPass] at above below
  rw [← itemPass] at above below
  rw [← laid.address other otherInside otherContents,
    ← laid.address item itemInside itemContents] at above below
  rcases disjoint other otherInside item itemInside distinct otherContents itemContents with
    apart | apart <;> unfold finish at apart <;> omega

/-- In a paged image whose sections share no address no strip begins inside another. -/
theorem Paged.none_inside (regular : Regular options sections)
    (laid : Laid options sections layout) (disjoint : Disjoint sections layout) :
    NoneInside options sections := by
  have either : ∀ i < sections.count, ∀ j < sections.count, i ≠ j → (sections.sect i).size ≠ 0 →
      (sections.sect j).size ≠ 0 → Apart sections layout i j := by
    intro i iInside j jInside distinct iContents jContents
    rcases Nat.lt_or_gt_of_ne distinct with before | after
    · exact disjoint i j before jInside iContents jContents
    · exact (disjoint j i after iInside jContents iContents).symm
  intro j inside i before unrelated
  obtain ⟨iContents, jContents, separate, _⟩ := unrelated
  have different (k : Nat) (iPass : passOf options sections k = passOf options sections i)
      (jPass : passOf options sections k = passOf options sections j)
      (onward : (packing options sections (passOf options sections i)).Onward k i)
      (further : (packing options sections (passOf options sections j)).Onward k j) : False := by
    refine separate ⟨iPass.symm.trans jPass, ?_⟩
    rw [← iPass, jPass]
    exact further.from_later onward.1 before.le
  constructor
  · exact paged.not_begins_inside regular laid either (before.trans inside) inside jContents different
  · exact paged.not_begins_inside regular laid either inside (before.trans inside) iContents
      fun k jPass iPass further onward => different k iPass jPass onward further

end Paged

end Laid

def textHeader : FinalSection :=
  { segmentName := "__TEXT", type := .machHeader, size := 0x1000, alignment := 12, hidden := true }

def contents (segmentName : String) (size : Nat) : FinalSection :=
  { segmentName := segmentName, type := .other, size := size, alignment := 0, hidden := false }

def ofList (sections : List FinalSection) : Sections :=
  { count := sections.length, sect := fun i => sections.getD i textHeader }

/-- `-segaddr __ONE 0x10000 -segaddr __TWO 0x13000 -segment_order __ONE:__BEHIND` -/
def segaddrOptions : Options where
  outputKind := .dynamicLibrary
  baseAddress := 0
  maxAddress := 2 ^ 63
  segmentAlignmentPower := 12
  customSegmentAddresses := [("__ONE", 0x10000), ("__TWO", 0x13000)]
  customSegmentSizes := []
  stackSize := 0
  stackAddr := 0
  segmentOrder := ["__ONE", "__BEHIND"]
  optimizeZeroFill := true

def fixedSections (size : Nat) : Sections :=
  ofList [textHeader, contents "__ONE" size, contents "__BEHIND" 0x800, contents "__TWO" 0x1000]

def addressesOf (result : Layout × Nat) : List Nat :=
  (List.range 4).map fun i => (result.1 i).address

theorem placed_of_addresses {options : Options} {sections : Sections} {addresses : List Nat}
    (run : (assignFileOffsets options sections).map addressesOf = .ok addresses) :
    ∃ layout size, assignFileOffsets options sections = .ok (layout, size) ∧
      [(layout 0).address, (layout 1).address, (layout 2).address, (layout 3).address] =
        addresses := by
  obtain ⟨result, assigned, rfl⟩ := map_ok run
  exact ⟨result.1, result.2, assigned, rfl⟩

end DeveloperTools.Ld64.SectionLayout
