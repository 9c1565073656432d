import Mathlib.Tactic

/-!
`OutputFile::findSegment` walks the sections and takes a segment to be a run of
sections with one segment name. A segment is only looked at when the next one
begins, so the last segment, `__LINKEDIT`, is never found. Segments are counted
from zero in the order of the sections, and a segment ends where its last
section does.
-/

namespace DeveloperTools.Ld64

open List

structure FinalSection where
  segmentName : String
  address : Nat
  size : Nat
deriving DecidableEq, Repr

def FinalSection.finish (sect : FinalSection) : Nat := (sect.address + sect.size) % 2 ^ 64

structure FoundSegment where
  start : Nat
  finish : Nat
  index : Nat
deriving DecidableEq, Repr

/-- The loop of `findSegment` once there is a first section. -/
def findSegmentFrom (addr : Nat) :
    Nat → FinalSection → FinalSection → List FinalSection → Option FoundSegment
  | _, _, _, [] => none
  | segIndex, segFirstSection, lastSection, sect :: rest =>
    if segFirstSection.segmentName ≠ sect.segmentName then
      if segFirstSection.address ≤ addr ∧ addr < lastSection.finish then
        some { start := segFirstSection.address, finish := lastSection.finish, index := segIndex }
      else findSegmentFrom addr (segIndex + 1) sect sect rest
    else findSegmentFrom addr segIndex segFirstSection sect rest

def findSegment (sections : List FinalSection) (addr : Nat) : Option FoundSegment :=
  match sections with
  | [] => none
  | sect :: rest => findSegmentFrom addr 0 sect sect rest

structure Segment where
  start : Nat
  finish : Nat
deriving DecidableEq, Repr

def Segment.Contains (segment : Segment) (address : Nat) : Prop :=
  segment.start ≤ address ∧ address < segment.finish

instance (segment : Segment) (address : Nat) : Decidable (segment.Contains address) :=
  inferInstanceAs (Decidable (_ ∧ _))

def segmentsFrom : FinalSection → FinalSection → List FinalSection → List Segment
  | _, _, [] => []
  | segFirstSection, lastSection, sect :: rest =>
    if segFirstSection.segmentName ≠ sect.segmentName then
      { start := segFirstSection.address, finish := lastSection.finish } ::
        segmentsFrom sect sect rest
    else segmentsFrom segFirstSection sect rest

/-- The segments of the file but the last. -/
def segments (sections : List FinalSection) : List Segment :=
  match sections with
  | [] => []
  | sect :: rest => segmentsFrom sect sect rest

def Separate (layout : List Segment) : Prop :=
  ∀ (left right : Nat) (first second : Segment) (address : Nat),
    layout[left]? = some first → layout[right]? = some second →
    first.Contains address → second.Contains address → left = right

variable {rest : List FinalSection} {addr : Nat}

theorem find_segment_from_sound :
    ∀ {segIndex : Nat} {segFirstSection lastSection : FinalSection} {found : FoundSegment},
      findSegmentFrom addr segIndex segFirstSection lastSection rest = some found →
      segIndex ≤ found.index ∧
        (segmentsFrom segFirstSection lastSection rest)[found.index - segIndex]? =
          some { start := found.start, finish := found.finish } ∧
        found.start ≤ addr ∧ addr < found.finish := by
  induction rest with
  | nil =>
    intro _ _ _ _ ran
    cases ran
  | cons sect rest ih =>
    intro segIndex segFirstSection lastSection found ran
    rw [findSegmentFrom] at ran
    rw [segmentsFrom]
    by_cases changed : segFirstSection.segmentName ≠ sect.segmentName
    · rw [if_pos changed] at ran ⊢
      by_cases inside : segFirstSection.address ≤ addr ∧ addr < lastSection.finish
      · rw [if_pos inside] at ran
        cases ran
        simp [inside.1, inside.2]
      rw [if_neg inside] at ran
      obtain ⟨bound, place, range⟩ := ih ran
      have steps : found.index - segIndex = (found.index - (segIndex + 1)) + 1 := by omega
      rw [steps, getElem?_cons_succ]
      exact ⟨by omega, place, range⟩
    · rw [if_neg changed] at ran ⊢
      exact ih ran

variable {sections : List FinalSection}

theorem find_segment_sound {found : FoundSegment} (ran : findSegment sections addr = some found) :
    (segments sections)[found.index]? = some { start := found.start, finish := found.finish } ∧
      found.start ≤ addr ∧ addr < found.finish := by
  cases sections with
  | nil => cases ran
  | cons sect rest => exact (find_segment_from_sound ran).2

theorem find_segment_from_complete :
    ∀ {segIndex : Nat} {segFirstSection lastSection : FinalSection} {segment : Segment},
      segment ∈ segmentsFrom segFirstSection lastSection rest → segment.Contains addr →
      (findSegmentFrom addr segIndex segFirstSection lastSection rest).isSome := by
  induction rest with
  | nil =>
    intro _ _ _ _ member
    cases member
  | cons sect rest ih =>
    intro segIndex segFirstSection lastSection segment member holds
    rw [segmentsFrom] at member
    rw [findSegmentFrom]
    by_cases changed : segFirstSection.segmentName ≠ sect.segmentName
    · rw [if_pos changed] at member ⊢
      by_cases inside : segFirstSection.address ≤ addr ∧ addr < lastSection.finish
      · rw [if_pos inside]
        rfl
      rw [if_neg inside]
      rcases mem_cons.mp member with here | later
      · rw [here] at holds
        exact absurd holds inside
      · exact ih later holds
    · rw [if_neg changed] at member ⊢
      exact ih member holds

variable {segment : Segment}

theorem find_segment_complete (member : segment ∈ segments sections)
    (holds : segment.Contains addr) :
    ∃ found, findSegment sections addr = some found := by
  rw [← Option.isSome_iff_exists]
  cases sections with
  | nil => cases member
  | cons sect rest => exact find_segment_from_complete member holds

theorem segments_from_finish {segFirstSection lastSection : FinalSection} :
    ∀ segment ∈ segmentsFrom segFirstSection lastSection rest, segment.finish < 2 ^ 64 := by
  induction rest generalizing segFirstSection lastSection with
  | nil =>
    intro segment member
    cases member
  | cons sect rest ih =>
    intro segment member
    rw [segmentsFrom] at member
    by_cases changed : segFirstSection.segmentName ≠ sect.segmentName
    · rw [if_pos changed] at member
      rcases mem_cons.mp member with here | later
      · rw [here]
        exact Nat.mod_lt _ (by norm_num)
      · exact ih segment later
    · rw [if_neg changed] at member
      exact ih segment member

theorem segments_finish : ∀ segment ∈ segments sections, segment.finish < 2 ^ 64 := by
  cases sections with
  | nil =>
    intro segment member
    cases member
  | cons sect rest => exact segments_from_finish

theorem find_segment_of_contains {index : Nat} (separate : Separate (segments sections))
    (place : (segments sections)[index]? = some segment) (holds : segment.Contains addr) :
    findSegment sections addr = some ⟨segment.start, segment.finish, index⟩ := by
  obtain ⟨found, ran⟩ := find_segment_complete (mem_of_getElem? place) holds
  obtain ⟨foundPlace, range⟩ := find_segment_sound ran
  have same := separate found.index index _ _ addr foundPlace place range holds
  rw [same, place] at foundPlace
  cases foundPlace
  rw [ran, ← same]

/-- The index of the segment of the address has four bits. -/
def LowAt (sections : List FinalSection) (addr : Nat) : Prop :=
  ∀ found, findSegment sections addr = some found → found.index < 16

def FindsLow (sections : List FinalSection) : Prop := ∀ addr, LowAt sections addr

theorem finds_low_of_few (few : (segments sections).length ≤ 16) : FindsLow sections := by
  intro addr found ran
  exact (List.getElem?_eq_some_iff.mp (find_segment_sound ran).1).choose.trans_le few

theorem separate_of_ordered {layout : List Segment}
    (ordered : layout.Pairwise fun lower upper => lower.finish ≤ upper.start) :
    Separate layout := by
  rw [pairwise_iff_getElem] at ordered
  intro left right first second address leftPlace rightPlace leftHolds rightHolds
  obtain ⟨leftBound, rfl⟩ := List.getElem?_eq_some_iff.mp leftPlace
  obtain ⟨rightBound, rfl⟩ := List.getElem?_eq_some_iff.mp rightPlace
  rcases Nat.lt_trichotomy left right with less | equal | more
  · have apart := ordered left right leftBound rightBound less
    exact absurd leftHolds.2 (not_lt.mpr (apart.trans rightHolds.1))
  · exact equal
  · have apart := ordered right left rightBound leftBound more
    exact absurd rightHolds.2 (not_lt.mpr (apart.trans leftHolds.1))

def smallSections : List FinalSection :=
  [⟨"__TEXT", 0x1000, 0x1000⟩, ⟨"__DATA", 0x4000, 0x10⟩, ⟨"__LINKEDIT", 0x8000, 0x100⟩]

end DeveloperTools.Ld64
