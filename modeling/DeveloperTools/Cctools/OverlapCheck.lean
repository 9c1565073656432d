import Mathlib.Tactic

/-!
The check that the parts of an object file do not overlap. The parts that were seen are kept in
a list; a new part is compared with one element after the other until the next element begins
behind it, and is then put in front of the element at hand, not behind it. So the list is the
ordered one it is meant to be as long as new parts come at its ends.
-/

namespace DeveloperTools.Cctools.OverlapCheck

open List

structure Element where
  offset : Nat
  size : Nat
  name : String
deriving DecidableEq, Repr

/-- The sum of two 32-bit numbers. -/
def Element.finish (element : Element) : Nat := (element.offset + element.size) % 2 ^ 32

def overlaps (new e : Element) : Bool :=
  (e.offset ≤ new.offset && new.offset < e.finish) ||
    (e.offset < new.finish && new.finish < e.finish) ||
    (new.offset ≤ e.offset && e.finish ≤ new.finish)

def overlapMessage (new e : Element) : String :=
  "malformed object (" ++ new.name ++ " at offset " ++ toString new.offset ++
    " with a size of " ++ toString new.size ++ ", overlaps " ++ e.name ++ " at offset " ++
    toString e.offset ++ " with a size of " ++ toString e.size ++ ")"

def nextBehind (new : Element) : List Element → Bool
  | [] => false
  | next :: _ => new.finish ≤ next.offset

def insertElement (new : Element) : List Element → Except String (List Element)
  | [] => .ok [new]
  | e :: rest =>
    if overlaps new e then .error (overlapMessage new e)
    else if nextBehind new rest then .ok (new :: e :: rest)
    else (insertElement new rest).map (e :: ·)

def checkOverlapingElement (head : List Element) (new : Element) : Except String (List Element) :=
  if new.size = 0 then .ok head else insertElement new head

/-- The first call that returns `CHECK_BAD`, of calls with one list. -/
def firstBad : List Element → List Element → Option Nat
  | _, [] => none
  | head, new :: rest =>
    match checkOverlapingElement head new with
    | .error _ => some 0
    | .ok head => (firstBad head rest).map (· + 1)

/-- Some byte of the file belongs to both. -/
def Overlap (left right : Element) : Prop :=
  ∃ byte, (left.offset ≤ byte ∧ byte < left.offset + left.size) ∧
    right.offset ≤ byte ∧ byte < right.offset + right.size

def OverlapsEarlier (elements : List Element) (k : Nat) : Prop :=
  ∃ new, elements[k]? = some new ∧ ∃ e ∈ elements.take k, Overlap new e

def FirstOverlap (elements : List Element) (k : Nat) : Prop :=
  OverlapsEarlier elements k ∧ ∀ i < k, ¬ OverlapsEarlier elements i

structure Exact (elements : List Element) : Prop where
  good_iff : firstBad [] elements = none ↔ elements.Pairwise fun left right => ¬ Overlap left right
  first_bad : ∀ k, firstBad [] elements = some k → FirstOverlap elements k

/-- The right part begins at the end of the left one or behind it. -/
def Before (left right : Element) : Prop := left.offset + left.size ≤ right.offset

/-- The new part lies behind all that were seen, or in front of them and they are not just one. -/
def AtEnd (earlier : List Element) (new : Element) : Prop :=
  (∀ e ∈ earlier, Before e new) ∨ 2 ≤ earlier.length ∧ ∀ e ∈ earlier, Before new e

/-- Every part comes at an end of those that were seen, up to the first that overlaps one. -/
def AtEnds : List Element → List Element → Prop
  | _, [] => True
  | earlier, new :: rest =>
    if new.size = 0 then AtEnds earlier rest
    else (∃ e ∈ earlier, Overlap new e) ∨ AtEnd earlier new ∧ AtEnds (earlier ++ [new]) rest

section Scan

variable {new e : Element} {head rest list : List Element}

/-- The part lies in a file of less than 4 GB. -/
def Element.Fits (element : Element) : Prop := element.offset + element.size ≤ 2 ^ 32 - 1

theorem finish_eq {element : Element} (fits : element.Fits) :
    element.finish = element.offset + element.size := by
  unfold Element.Fits at fits
  exact Nat.mod_eq_of_lt (by omega)

theorem overlap_iff (left right : Element) : Overlap left right ↔ 0 < left.size ∧ 0 < right.size ∧
      left.offset < right.offset + right.size ∧ right.offset < left.offset + left.size := by
  constructor
  · rintro ⟨byte, inLeft, inRight⟩
    omega
  · intro apart
    refine ⟨max left.offset right.offset, ?_⟩
    omega

theorem Overlap.symm {left right : Element} (meets : Overlap left right) : Overlap right left := by
  obtain ⟨byte, inLeft, inRight⟩ := meets
  exact ⟨byte, inRight, inLeft⟩

theorem not_overlap_iff {left right : Element} (leftSize : left.size ≠ 0)
    (rightSize : right.size ≠ 0) :
    ¬ Overlap left right ↔ Before left right ∨ Before right left := by
  rw [overlap_iff, Before, Before]
  omega

theorem overlaps_iff (newFits : new.Fits) (fits : e.Fits) (newSize : new.size ≠ 0)
    (size : e.size ≠ 0) : overlaps new e = true ↔ Overlap new e := by
  rw [overlap_iff, overlaps, finish_eq newFits, finish_eq fits]
  simp only [Bool.or_eq_true, Bool.and_eq_true, decide_eq_true_eq]
  omega

/-- The list that the calls keep: disjoint parts in ascending order. -/
structure Ordered (head : List Element) : Prop where
  fits : ∀ e ∈ head, e.Fits
  sizes : ∀ e ∈ head, e.size ≠ 0
  ascending : head.Pairwise Before

theorem Ordered.tail (ordered : Ordered (e :: rest)) : Ordered rest where
  fits other isIn := ordered.fits other (mem_cons_of_mem _ isIn)
  sizes other isIn := ordered.sizes other (mem_cons_of_mem _ isIn)
  ascending := (pairwise_cons.mp ordered.ascending).2

section Step

variable (newFits : new.Fits) (newSize : new.size ≠ 0)
include newFits newSize

omit newSize in
theorem next_behind_iff {next : Element} :
    nextBehind new (next :: rest) = true ↔ Before new next := by
  rw [nextBehind, decide_eq_true_eq, finish_eq newFits, Before]

/-- In an ordered list an element that overlaps is found. -/
theorem insert_overlapping (ordered : Ordered head) (meets : ∃ e ∈ head, Overlap new e) :
    ∃ message, insertElement new head = .error message := by
  induction head with
  | nil =>
    obtain ⟨e, isIn, _⟩ := meets
    cases isIn
  | cons first rest ih =>
    have test := overlaps_iff newFits (ordered.fits first mem_cons_self) newSize
      (ordered.sizes first mem_cons_self)
    rw [insertElement]
    by_cases here : Overlap new first
    · exact ⟨_, if_pos (test.mpr here)⟩
    have later : ∃ e ∈ rest, Overlap new e := by
      obtain ⟨e, isIn, overlap⟩ := meets
      rcases mem_cons.mp isIn with rfl | isIn
      · exact absurd overlap here
      · exact ⟨e, isIn, overlap⟩
    have goesOn : nextBehind new rest = false := by
      cases rest with
      | nil => rfl
      | cons next rest =>
        rw [← Bool.not_eq_true, next_behind_iff newFits]
        intro behind
        obtain ⟨e, isIn, overlap⟩ := later
        obtain ⟨_, _, _, begins⟩ := (overlap_iff new e).mp overlap
        unfold Before at behind
        rcases mem_cons.mp isIn with rfl | isIn
        · omega
        · have ascending := (pairwise_cons.mp ordered.tail.ascending).1 e isIn
          unfold Before at ascending
          omega
    obtain ⟨message, isError⟩ := ih ordered.tail later
    rw [if_neg (fun isTrue => here (test.mp isTrue)), goesOn, isError]
    exact ⟨message, rfl⟩

section Apart

variable (ordered : Ordered head) (apart : ∀ e ∈ head, ¬ Overlap new e)
include ordered apart

theorem insert_apart : ∃ list, insertElement new head = .ok list ∧ list.Perm (new :: head) := by
  induction head with
  | nil => exact ⟨[new], rfl, .refl _⟩
  | cons first rest ih =>
    rw [forall_mem_cons] at apart
    have test := overlaps_iff newFits (ordered.fits first mem_cons_self) newSize
      (ordered.sizes first mem_cons_self)
    rw [insertElement, if_neg fun isTrue => apart.1 (test.mp isTrue)]
    split
    · exact ⟨_, rfl, .refl _⟩
    · obtain ⟨list, isList, same⟩ := ih ordered.tail apart.2
      rw [isList]
      exact ⟨first :: list, rfl, (same.cons first).trans (.swap new first rest)⟩

theorem insert_behind (behind : ∀ e ∈ head, Before e new) :
    insertElement new head = .ok (head ++ [new]) := by
  induction head with
  | nil => rfl
  | cons first rest ih =>
    rw [forall_mem_cons] at apart behind
    have test := overlaps_iff newFits (ordered.fits first mem_cons_self) newSize
      (ordered.sizes first mem_cons_self)
    have goesOn : nextBehind new rest = false := by
      cases rest with
      | nil => rfl
      | cons next rest =>
        have before := behind.2 next mem_cons_self
        rw [← Bool.not_eq_true, next_behind_iff newFits]
        unfold Before at before ⊢
        omega
    rw [insertElement, if_neg fun isTrue => apart.1 (test.mp isTrue), goesOn,
      ih ordered.tail apart.2 behind.2]
    rfl

theorem insert_in_front (several : 2 ≤ head.length) (before : ∀ e ∈ head, Before new e) :
    insertElement new head = .ok (new :: head) := by
  match head with
  | first :: next :: rest =>
    have test := overlaps_iff newFits (ordered.fits first mem_cons_self) newSize
      (ordered.sizes first mem_cons_self)
    have behind := before next (mem_cons_of_mem _ mem_cons_self)
    rw [insertElement, if_neg fun isTrue => apart first mem_cons_self (test.mp isTrue),
      if_pos ((next_behind_iff newFits).mpr behind)]

theorem insert_at_end (atEnd : AtEnd head new) :
    ∃ list, insertElement new head = .ok list ∧ Ordered list := by
  have fits (e : Element) (isIn : e = new ∨ e ∈ head) : e.Fits ∧ e.size ≠ 0 := by
    rcases isIn with rfl | isIn
    · exact ⟨newFits, newSize⟩
    · exact ⟨ordered.fits e isIn, ordered.sizes e isIn⟩
  rcases atEnd with behind | ⟨several, before⟩
  · refine ⟨_, insert_behind newFits newSize ordered apart behind, ?_, ?_, ?_⟩
    · exact fun e isIn => (fits e (by simpa [or_comm] using isIn)).1
    · exact fun e isIn => (fits e (by simpa [or_comm] using isIn)).2
    · rw [pairwise_append]
      exact ⟨ordered.ascending, pairwise_singleton _ _, fun e isIn other isNew =>
        mem_singleton.mp isNew ▸ behind e isIn⟩
  · refine ⟨_, insert_in_front newFits newSize ordered apart several before, ?_, ?_, ?_⟩
    · exact fun e isIn => (fits e (mem_cons.mp isIn)).1
    · exact fun e isIn => (fits e (mem_cons.mp isIn)).2
    · exact pairwise_cons.mpr ⟨before, ordered.ascending⟩

/-- Behind the first element the new part stays in order only at the very end. -/
theorem behind_of_ordered (nonempty : head ≠ []) (behind : ∀ e ∈ head.head?, Before e new)
    (isList : insertElement new head = .ok list) (listOrdered : Ordered list) :
    ∀ e ∈ head, Before e new := by
  induction head generalizing list with
  | nil => exact absurd rfl nonempty
  | cons first rest ih =>
    have test := overlaps_iff newFits (ordered.fits first mem_cons_self) newSize
      (ordered.sizes first mem_cons_self)
    have here : Before first new := behind first rfl
    rw [forall_mem_cons] at apart
    rw [insertElement, if_neg fun isTrue => apart.1 (test.mp isTrue)] at isList
    refine forall_mem_cons.mpr ⟨here, ?_⟩
    cases rest with
    | nil => exact fun _ isIn => absurd isIn not_mem_nil
    | cons next rest =>
      split at isList
      next =>
        cases isList
        have swapped := (pairwise_cons.mp listOrdered.ascending).1 first mem_cons_self
        unfold Before at here swapped
        omega
      next goesOn =>
        rw [next_behind_iff newFits] at goesOn
        cases called : insertElement new (next :: rest) with
        | error message =>
          rw [called] at isList
          cases isList
        | ok tail =>
          rw [called] at isList
          cases isList
          have nextSize := ordered.sizes next (mem_cons_of_mem _ mem_cons_self)
          have nextBefore := (not_overlap_iff newSize nextSize).mp (apart.2 next mem_cons_self)
          exact ih ordered.tail apart.2 (cons_ne_nil _ _)
            (fun e isNext => Option.some.inj isNext ▸ nextBefore.resolve_left goesOn) called
            listOrdered.tail

/-- Elsewhere the list gets out of order. -/
theorem at_end_of_ordered (isList : insertElement new head = .ok list)
    (listOrdered : Ordered list) : AtEnd head new := by
  match head with
  | [] => exact .inl fun _ isIn => absurd isIn not_mem_nil
  | first :: rest =>
    have test := overlaps_iff newFits (ordered.fits first mem_cons_self) newSize
      (ordered.sizes first mem_cons_self)
    rcases (not_overlap_iff newSize (ordered.sizes first mem_cons_self)).mp
      (apart first mem_cons_self) with before | behind
    · rw [insertElement, if_neg fun isTrue => apart first mem_cons_self (test.mp isTrue)] at isList
      cases rest with
      | nil =>
        cases isList
        have swapped := (pairwise_cons.mp listOrdered.ascending).1 new mem_cons_self
        unfold Before at before swapped
        omega
      | cons next rest =>
        have follows := (pairwise_cons.mp ordered.ascending).1 next mem_cons_self
        have behind : Before new next := by
          unfold Before at before follows ⊢
          omega
        rw [if_pos ((next_behind_iff newFits).mpr behind)] at isList
        cases isList
        exact .inr ⟨Nat.le_add_left 2 _, (pairwise_cons.mp listOrdered.ascending).1⟩
    · exact .inl (behind_of_ordered newFits newSize ordered apart (cons_ne_nil _ _)
        (fun e isFirst => Option.some.inj isFirst ▸ behind) isList listOrdered)

end Apart

end Step

end Scan

section Calls

variable {earlier elements rest head : List Element} {new : Element}

/-- The list holds what was seen, in order. -/
structure Holds (earlier head : List Element) : Prop extends Ordered head where
  same : head.Perm earlier

theorem AtEnd.of_perm (same : head.Perm earlier) (atEnd : AtEnd earlier new) :
    AtEnd head new := by
  unfold AtEnd at atEnd ⊢
  rw [same.length_eq]
  simpa only [same.mem_iff] using atEnd

section Call

variable (newFits : new.Fits) (newSize : new.size ≠ 0) (holds : Holds earlier head)
include newFits newSize holds

theorem check_overlapping (meets : ∃ e ∈ earlier, Overlap new e) :
    ∃ message, checkOverlapingElement head new = .error message := by
  rw [checkOverlapingElement, if_neg newSize]
  apply insert_overlapping newFits newSize holds.toOrdered
  obtain ⟨e, isIn, overlap⟩ := meets
  exact ⟨e, holds.same.mem_iff.mpr isIn, overlap⟩

theorem check_apart (apart : ¬ ∃ e ∈ earlier, Overlap new e) :
    ∃ list, checkOverlapingElement head new = .ok list ∧ list.Perm (earlier ++ [new]) ∧
      (Ordered list ↔ AtEnd earlier new) := by
  have apartHead : ∀ e ∈ head, ¬ Overlap new e := fun e isIn overlap =>
    apart ⟨e, holds.same.mem_iff.mp isIn, overlap⟩
  rw [checkOverlapingElement, if_neg newSize]
  obtain ⟨list, isList, same⟩ := insert_apart newFits newSize holds.toOrdered apartHead
  refine ⟨list, isList, ?_, fun ordered => ?_, fun atEnd => ?_⟩
  · exact same.trans ((holds.same.cons new).trans (perm_append_singleton new earlier).symm)
  · exact (at_end_of_ordered newFits newSize holds.toOrdered apartHead isList ordered).of_perm
      holds.same.symm
  · obtain ⟨other, isOther, ordered⟩ :=
      insert_at_end newFits newSize holds.toOrdered apartHead (atEnd.of_perm holds.same)
    rw [isList] at isOther
    cases isOther
    exact ordered

end Call

/-- The parts that are not empty. -/
def seen (elements : List Element) : List Element := elements.filter fun e => e.size ≠ 0

theorem seen_append_empty (size : new.size = 0) : seen (elements ++ [new]) = seen elements := by
  simp [seen, size]

theorem seen_append (size : new.size ≠ 0) : seen (elements ++ [new]) = seen elements ++ [new] := by
  simp [seen, size]

theorem overlaps_earlier_iff {before : List Element} :
    OverlapsEarlier (before ++ new :: rest) before.length ↔ ∃ e ∈ seen before, Overlap new e := by
  have here : (before ++ new :: rest)[before.length]? = some new := by simp
  rw [OverlapsEarlier, here, take_left]
  constructor
  · rintro ⟨other, isNew, e, isIn, overlap⟩
    cases isNew
    have size := ((overlap_iff new e).mp overlap).2.1
    exact ⟨e, mem_filter.mpr ⟨isIn, by simpa using Nat.ne_of_gt size⟩, overlap⟩
  · rintro ⟨e, isIn, overlap⟩
    exact ⟨new, rfl, e, (mem_filter.mp isIn).1, overlap⟩

/-- Of the calls that follow some good ones, the first bad one is the first that overlaps. -/
structure FindsFirst (before head rest : List Element) : Prop where
  found : ∀ k, firstBad head rest = some k → FirstOverlap (before ++ rest) (before.length + k)
  missing : firstBad head rest = none → ∀ i, ¬ OverlapsEarlier (before ++ rest) i

variable {before : List Element}

theorem FindsFirst.later {list : List Element} (isOk : checkOverlapingElement head new = .ok list)
    (later : FindsFirst (before ++ [new]) list rest) : FindsFirst before head (new :: rest) := by
  obtain ⟨found, missing⟩ := later
  rw [← append_cons] at found missing
  rw [length_append, length_singleton] at found
  have goesOn : firstBad head (new :: rest) = (firstBad list rest).map (· + 1) := by
    rw [firstBad, isOk]
  constructor
  · intro k isBad
    rw [goesOn] at isBad
    obtain ⟨k, badLater, rfl⟩ := Option.map_eq_some_iff.mp isBad
    have first := found k badLater
    rwa [Nat.add_assoc, Nat.add_comm 1 k] at first
  · intro isGood
    rw [goesOn, Option.map_eq_none_iff] at isGood
    exact missing isGood

theorem finds_first (fits : ∀ e ∈ before ++ rest, e.Fits) (holds : Holds (seen before) head)
    (none : ∀ i < before.length, ¬ OverlapsEarlier (before ++ rest) i)
    (atEnds : AtEnds (seen before) rest) : FindsFirst before head rest := by
  induction rest generalizing before head with
  | nil =>
    refine ⟨fun _ isBad => (nomatch isBad), fun _ i bad => ?_⟩
    have inside : i < before.length := by
      obtain ⟨new, isNew, _⟩ := bad
      simpa using (List.getElem?_eq_some_iff.mp isNew).1
    exact none i inside bad
  | cons new rest ih =>
    have newFits : new.Fits := fits new (mem_append_right _ mem_cons_self)
    have noneAfter (good : ¬ OverlapsEarlier (before ++ new :: rest) before.length) :
        ∀ i < (before ++ [new]).length, ¬ OverlapsEarlier (before ++ [new] ++ rest) i := by
      rw [← append_cons, length_append, length_singleton]
      intro i inside
      rcases Nat.lt_succ_iff_lt_or_eq.mp inside with less | rfl
      · exact none i less
      · exact good
    rw [AtEnds] at atEnds
    rw [append_cons] at fits
    by_cases size : new.size = 0
    · rw [if_pos size] at atEnds
      have isOk : checkOverlapingElement head new = .ok head := if_pos size
      apply FindsFirst.later isOk
      apply ih fits (by rwa [seen_append_empty size]) (noneAfter ?_)
      · rwa [seen_append_empty size]
      · rw [overlaps_earlier_iff]
        rintro ⟨e, _, overlap⟩
        have positive := ((overlap_iff new e).mp overlap).1
        omega
    rw [if_neg size] at atEnds
    by_cases meets : ∃ e ∈ seen before, Overlap new e
    · obtain ⟨message, isError⟩ := check_overlapping newFits size holds meets
      have here : firstBad head (new :: rest) = some 0 := by rw [firstBad, isError]
      constructor
      · intro k isBad
        rw [here] at isBad
        cases isBad
        exact ⟨overlaps_earlier_iff.mpr meets, none⟩
      · intro isGood
        rw [here] at isGood
        cases isGood
    · obtain ⟨list, isOk, same, ordered⟩ := check_apart newFits size holds meets
      obtain ⟨atEnd, later⟩ := atEnds.resolve_left meets
      apply FindsFirst.later isOk
      apply ih fits ⟨ordered.mpr atEnd, by rwa [seen_append size]⟩ (noneAfter ?_)
      · rwa [seen_append size]
      · rwa [overlaps_earlier_iff]

theorem pairwise_iff : (elements.Pairwise fun left right => ¬ Overlap left right) ↔
      ∀ k, ¬ OverlapsEarlier elements k := by
  rw [pairwise_iff_getElem]
  constructor
  · rintro apart k ⟨new, isNew, e, isIn, meets⟩
    obtain ⟨inside, rfl⟩ := List.getElem?_eq_some_iff.mp isNew
    obtain ⟨i, before, rfl⟩ := mem_take_iff_getElem.mp isIn
    exact apart i k (by omega) inside (by omega) meets.symm
  · intro none i j inI inJ before meets
    refine none j ⟨_, getElem?_eq_getElem inJ, elements[i], ?_, meets.symm⟩
    exact mem_take_iff_getElem.mpr ⟨i, by omega, rfl⟩


/-- As long as no two parts overlap, the list that the calls make is in order. -/
def StaysOrdered (before head rest : List Element) : Prop :=
  ∀ front back list, rest = front ++ back →
    ((before ++ front).Pairwise fun left right => ¬ Overlap left right) →
    front.foldlM checkOverlapingElement head = .ok list → Ordered list

theorem stays_ordered_cons {list : List Element} (ordered : Ordered head)
    (isOk : checkOverlapingElement head new = .ok list) :
    StaysOrdered before head (new :: rest) ↔ StaysOrdered (before ++ [new]) list rest := by
  have goesOn (front : List Element) : (new :: front).foldlM checkOverlapingElement head =
      front.foldlM checkOverlapingElement list := by
    rw [foldlM_cons, isOk]
    rfl
  constructor
  · intro stays front back made isRest apart run
    rw [← append_cons] at apart
    exact stays (new :: front) back made (by rw [isRest, cons_append]) apart (by rwa [goesOn])
  · intro stays front back made isRest apart run
    cases front with
    | nil =>
      cases run
      exact ordered
    | cons first front =>
      cases isRest
      rw [append_cons] at apart
      rw [goesOn] at run
      exact stays front back made rfl apart run

theorem pairwise_seen (apart : before.Pairwise fun left right => ¬ Overlap left right)
    (none : ¬ ∃ e ∈ seen before, Overlap new e) :
    (before ++ [new]).Pairwise fun left right => ¬ Overlap left right := by
  refine pairwise_append.mpr ⟨apart, pairwise_singleton _ _, fun e isIn other isNew overlap => ?_⟩
  rw [mem_singleton.mp isNew] at overlap
  have size := ((overlap_iff e new).mp overlap).1
  exact none ⟨e, mem_filter.mpr ⟨isIn, by simpa using Nat.ne_of_gt size⟩, overlap.symm⟩

/-- The list stays in order exactly when the parts come at its ends. -/
theorem at_ends_iff (fits : ∀ e ∈ before ++ rest, e.Fits) (holds : Holds (seen before) head)
    (apart : before.Pairwise fun left right => ¬ Overlap left right) :
    AtEnds (seen before) rest ↔ StaysOrdered before head rest := by
  induction rest generalizing before head with
  | nil =>
    refine iff_of_true trivial fun front back made isRest _ run => ?_
    rw [(append_eq_nil_iff.mp isRest.symm).1] at run
    cases run
    exact holds.toOrdered
  | cons new rest ih =>
    have newFits : new.Fits := fits new (mem_append_right _ mem_cons_self)
    rw [append_cons] at fits
    rw [AtEnds]
    by_cases size : new.size = 0
    · have isOk : checkOverlapingElement head new = .ok head := if_pos size
      have apartNew : ¬ ∃ e ∈ seen before, Overlap new e := by
        rintro ⟨e, _, overlap⟩
        have positive := ((overlap_iff new e).mp overlap).1
        omega
      have later := ih fits (by rwa [seen_append_empty size]) (pairwise_seen apart apartNew)
      rw [if_pos size, stays_ordered_cons holds.toOrdered isOk, ← later, seen_append_empty size]
    rw [if_neg size]
    by_cases meets : ∃ e ∈ seen before, Overlap new e
    · refine iff_of_true (.inl meets) fun front back made isRest apartFront run => ?_
      cases front with
      | nil =>
        cases run
        exact holds.toOrdered
      | cons first front =>
        cases isRest
        obtain ⟨e, isIn, overlap⟩ := meets
        have across := (pairwise_append.mp apartFront).2.2 e (mem_filter.mp isIn).1 new
          mem_cons_self
        exact absurd overlap.symm across
    · obtain ⟨list, isOk, same, ordered⟩ := check_apart newFits size holds meets
      have apartNew := pairwise_seen apart meets
      rw [or_iff_right meets, stays_ordered_cons holds.toOrdered isOk]
      constructor
      · rintro ⟨atEnd, later⟩
        rw [← seen_append size] at same later
        exact (ih fits ⟨ordered.mpr atEnd, same⟩ apartNew).mp later
      · intro stays
        have isOrdered : Ordered list :=
          stays [] rest list rfl (by rwa [append_nil]) rfl
        rw [← seen_append size] at same ⊢
        exact ⟨ordered.mp isOrdered, (ih fits ⟨isOrdered, same⟩ apartNew).mpr stays⟩

/-- The answers are exact whenever every part comes at an end of those before it, and that is so
exactly when the list is kept in order. -/
theorem exact_of_at_ends (fits : ∀ e ∈ elements, e.Fits) :
    (AtEnds [] elements → Exact elements) ∧
      (AtEnds [] elements ↔ StaysOrdered [] [] elements) := by
  have start : Holds (seen []) [] :=
    { fits := fun _ isIn => absurd isIn not_mem_nil
      sizes := fun _ isIn => absurd isIn not_mem_nil
      ascending := .nil
      same := .refl _ }
  refine ⟨fun atEnds => ?_, at_ends_iff fits start .nil⟩
  have first : FindsFirst [] [] elements := finds_first fits start
    (fun _ impossible => absurd impossible (Nat.not_lt_zero _)) atEnds
  obtain ⟨found, missing⟩ := first
  simp only [nil_append, length_nil, Nat.zero_add] at found missing
  refine ⟨?_, found⟩
  rw [pairwise_iff]
  refine ⟨missing, fun none => ?_⟩
  cases isFirst : firstBad [] elements with
  | none => rfl
  | some bad => exact absurd (found bad isFirst).1 (none bad)

end Calls

def part (offset size : Nat) : Element := ⟨offset, size, "part"⟩

theorem ends_then_inside_exact :
    Exact [part 100 10, part 200 10, part 0 10, part 50 0, part 205 3, part 300 10] ∧
      firstBad [] [part 100 10, part 200 10, part 0 10, part 50 0, part 205 3, part 300 10] =
        some 4 := by
  refine ⟨(exact_of_at_ends (by simp [part, Element.Fits])).1 ?_, by decide⟩
  simp [AtEnds, AtEnd, Before, part, overlap_iff]

/-- The list is the part at 0, the one at 200 and the one at 100 when the last call is made, and
the scan ends at the first of them. -/
theorem descending_parts_missed :
    (∀ e ∈ [part 200 10, part 100 10, part 0 10, part 105 3], e.Fits) ∧
      firstBad [] [part 200 10, part 100 10, part 0 10, part 105 3] = none ∧
      Overlap (part 100 10) (part 105 3) := by
  refine ⟨by simp [part, Element.Fits], by decide, 105, ?_, ?_⟩ <;> simp [part]

end DeveloperTools.Cctools.OverlapCheck
