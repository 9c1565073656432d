import DeveloperTools.Ld64.CodeDedup

/-!
The comparison always ends. It is cut where both callees have been met before, be it as
partners or not; where they were partners, or are linked by pairs that the comparison came to, the
functions that it finds equal are bisimilar, and so are those that the pass merges.
-/

namespace DeveloperTools.Ld64.CodeDedup

open Bisimulation
open List Option

variable {count : Nat} (link : Link count)

def addend (fixup : Fixup (Fin count)) : BitVec 64 :=
  match fixup.binding with
  | .none addend => addend
  | .byNameUnbound _ | .byContentBound _ | .directlyBound _ | .indirectlyBound _ => 0#64

/-- The targets are identical, or code atoms that are related. -/
def TargetsMatch (related : Fin count → Fin count → Prop) (f1 f2 : Fixup (Fin count)) : Prop :=
  target link f1 = target link f2 ∨
    ∃ target1 target2, target link f1 = some target1 ∧ target link f2 = some target2 ∧
      (link.atom target1).sectionType = .code ∧ (link.atom target2).sectionType = .code ∧
      related target1 target2

structure FixupsAgree (related : Fin count → Fin count → Prop) (f1 f2 : Fixup (Fin count)) :
    Prop where
  offset : f1.offsetInAtom = f2.offsetInAtom
  kind : f1.kind = f2.kind
  clusterSize : f1.clusterSize = f2.clusterSize
  addend : addend f1 = addend f2
  targets : TargetsMatch link related f1 f2

/-- The atoms have the same bytes and, position by position, the same fixups. -/
def Matches (related : Fin count → Fin count → Prop) (atom1 atom2 : Fin count) : Prop :=
  (link.atom atom1).content = (link.atom atom2).content ∧
    List.Forall₂ (FixupsAgree link related) (link.atom atom1).fixups (link.atom atom2).fixups

theorem matches_monotone : StepMonotone (Matches link) := by
  intro related wider within atom1 atom2 step
  refine ⟨step.1, step.2.imp ?_⟩
  intro f1 f2 agree
  refine ⟨agree.offset, agree.kind, agree.clusterSize, agree.addend, ?_⟩
  rcases agree.targets with same | ⟨target1, target2, found1, found2, code1, code2, there⟩
  · exact Or.inl same
  · exact Or.inr ⟨target1, target2, found1, found2, code1, code2, within _ _ there⟩

theorem TargetsMatch.trans {related : Fin count → Fin count → Prop}
    (compose : ∀ left middle right, related left middle → related middle right →
      related left right) {f1 f2 f3 : Fixup (Fin count)} (first : TargetsMatch link related f1 f2)
    (second : TargetsMatch link related f2 f3) : TargetsMatch link related f1 f3 := by
  rcases first with same | ⟨target1, target2, found1, found2, code1, code2, there⟩
  · rwa [TargetsMatch, same]
  rcases second with same | ⟨other, target3, again, found3, _, code3, further⟩
  · rw [TargetsMatch, ← same]
    exact Or.inr ⟨target1, target2, found1, found2, code1, code2, there⟩
  · rw [found2, some_inj] at again
    subst again
    exact Or.inr ⟨target1, target3, found1, found3, code1, code3, compose _ _ _ there further⟩

theorem matches_flips (related : Fin count → Fin count → Prop) (atom1 atom2 : Fin count)
    (step : Matches link related atom1 atom2) :
    Matches link (fun left right => related right left) atom2 atom1 := by
  refine ⟨step.1.symm, step.2.flip.imp ?_⟩
  intro f2 f1 agree
  refine ⟨agree.offset.symm, agree.kind.symm, agree.clusterSize.symm, agree.addend.symm, ?_⟩
  rcases agree.targets with same | ⟨target1, target2, found1, found2, code1, code2, there⟩
  · exact Or.inl same.symm
  · exact Or.inr ⟨target2, target1, found2, found1, code2, code1, there⟩

def Compared (equal : BackChain count → Fin count → Fin count → Option Bool)
    (chain : BackChain count) (f1 f2 : Fixup (Fin count)) : Prop :=
  sameFixup f1 f2 ∧
    (target link f1 = target link f2 ∨
      ∃ target1 target2, target link f1 = some target1 ∧ target link f2 = some target2 ∧
        target1 ≠ target2 ∧ (link.atom target1).sectionType = .code ∧
        (link.atom target2).sectionType = .code ∧
        (inCallChain chain target1 ∧ inCallChain chain target2 ∨
          ¬ (inCallChain chain target1 ∧ inCallChain chain target2) ∧
            equal ((target1, target2) :: chain) target1 target2 = some true))

variable {chain : BackChain count} {f1 f2 : Fixup (Fin count)}

theorem sameTargets_true {equal : BackChain count → Fin count → Fin count → Option Bool}
    (same : sameTargets link equal chain f1 f2 = some true) :
    Compared link equal chain f1 f2 := by
  unfold sameTargets at same
  split at same
  · cases same
  rename_i alike
  have alike : sameFixup f1 f2 := by simpa using alike
  refine ⟨alike, ?_⟩
  have sorts : (target link f1).isSome = (target link f2).isSome := by
    simp only [sameFixup, Bool.and_eq_true] at alike
    have same := alike.2
    unfold sameBindingSort at same
    unfold target
    split at same
    all_goals simp_all
  cases found1 : target link f1 with
  | none =>
    cases found2 : target link f2 with
    | none => exact Or.inl rfl
    | some target2 =>
      simp [found1, found2] at sorts
  | some target1 =>
    cases found2 : target link f2 with
    | none =>
      simp [found1, found2] at sorts
    | some target2 =>
      rw [found1, found2] at same
      dsimp only at same
      by_cases identical : target1 = target2
      · exact Or.inl (congrArg some identical)
      rw [if_neg identical] at same
      split at same
      · cases same
      split at same
      · cases same
      rename_i code
      simp only [ne_eq, not_or, not_not] at code
      refine Or.inr ⟨target1, target2, rfl, rfl, identical, code.1, code.2, ?_⟩
      split at same
      next cut =>
        exact Or.inl cut
      next notCut =>
        exact Or.inr ⟨notCut, same⟩

theorem sameFixups_true (equal : BackChain count → Fin count → Fin count → Option Bool)
    (chain : BackChain count) : ∀ (fixups1 fixups2 : List (Fixup (Fin count))),
      sameFixups link equal chain fixups1 fixups2 = some true →
        Forall₂ (Compared link equal chain) fixups1 fixups2
  | [], [], _ => .nil
  | f1 :: rest1, f2 :: rest2, same => by
    rw [sameFixups] at same
    obtain ⟨first, here, rest⟩ := bind_eq_some_iff.mp same
    cases first with
    | false => cases rest
    | true => exact .cons (sameTargets_true link here) (sameFixups_true equal chain _ _ rest)
  | [], _ :: _, same => by cases same
  | _ :: _, [], same => by cases same

variable {atom1 atom2 : Fin count}

theorem equal_true {fuel : Nat}
    (same : equal link fuel chain atom1 atom2 = some true) :
    ∃ less, (link.atom atom1).content = (link.atom atom2).content ∧
      Forall₂ (Compared link (equal link less) chain) (link.atom atom1).fixups
        (link.atom atom2).fixups := by
  cases fuel with
  | zero => cases same
  | succ less =>
    rw [equal] at same
    split at same
    · cases same
    split at same
    · cases same
    split at same
    · cases same
    rename_i content
    split at same
    · cases same
    exact ⟨less, not_not.mp content, sameFixups_true link _ _ _ _ same⟩

def unseen (chain : BackChain count) : Finset (Fin count) :=
  Finset.univ.filter fun atom => ¬ inCallChain chain atom

theorem unseen_call {target1 target2 : Fin count}
    (notCut : ¬ (inCallChain chain target1 ∧ inCallChain chain target2)) :
    (unseen ((target1, target2) :: chain)).card < (unseen chain).card := by
  apply Finset.card_lt_card
  rw [Finset.ssubset_iff_of_subset]
  · by_cases first : inCallChain chain target1
    · refine ⟨target2, ?_, ?_⟩
      · have second : ¬ inCallChain chain target2 := fun second => notCut ⟨first, second⟩
        simp [unseen, second]
      · simp [unseen, inCallChain]
    · refine ⟨target1, ?_, ?_⟩
      · simp [unseen, first]
      · simp [unseen, inCallChain]
  · intro atom among
    simp only [unseen, Finset.mem_filter, Finset.mem_univ, true_and] at among ⊢
    intro seen
    apply among
    simp only [inCallChain, any_cons, Bool.or_eq_true]
    exact Or.inr seen

theorem equal_total (fuel : Nat) (chain : BackChain count) (atom1 atom2 : Fin count)
    (enough : (unseen chain).card < fuel) : (equal link fuel chain atom1 atom2).isSome := by
  induction fuel generalizing chain atom1 atom2 with
  | zero => exact absurd enough (Nat.not_lt_zero _)
  | succ fuel ih =>
    have callees (f1 f2 : Fixup (Fin count)) :
        (sameTargets link (equal link fuel) chain f1 f2).isSome := by
      unfold sameTargets
      split
      · rfl
      split
      · split
        · rfl
        split
        · rfl
        split
        · rfl
        split
        · rfl
        next notCut =>
          apply ih
          exact Nat.lt_of_lt_of_le (unseen_call notCut) (Nat.le_of_lt_succ enough)
      · rfl
    have loop : ∀ fixups1 fixups2 : List (Fixup (Fin count)),
        (sameFixups link (equal link fuel) chain fixups1 fixups2).isSome := by
      intro fixups1 fixups2
      induction fixups1 generalizing fixups2 with
      | nil =>
        cases fixups2 with
        | nil => rfl
        | cons f2 rest2 => rfl
      | cons f1 rest1 more =>
        cases fixups2 with
        | nil => rfl
        | cons f2 rest2 =>
          rw [sameFixups]
          obtain ⟨same, here⟩ := isSome_iff_exists.mp (callees f1 f2)
          rw [here, bind_some]
          split
          · exact more rest2
          · rfl
    rw [equal]
    split
    · rfl
    split
    · rfl
    split
    · rfl
    split
    · rfl
    exact loop _ _

theorem atomEqual_true_iff (atom1 atom2 : Fin count) :
    atomEqual link atom1 atom2 ↔ equal link (count + 1) [] atom1 atom2 = some true := by
  have total : (equal link (count + 1) [] atom1 atom2).isSome := by
    apply equal_total
    have bound := Finset.card_filter_le (Finset.univ : Finset (Fin count))
      fun atom => ¬ inCallChain [] atom
    rw [Finset.card_univ, Fintype.card_fin] at bound
    exact Nat.lt_succ_of_le bound
  obtain ⟨result, found⟩ := isSome_iff_exists.mp total
  rw [atomEqual, found]
  simp

theorem forall₂_compose {Item : Type} {first second whole : Item → Item → Prop}
    (compose : ∀ left middle right, first left middle → second middle right → whole left right)
    {lefts middles : List Item} (before : Forall₂ first lefts middles) :
    ∀ {rights : List Item}, Forall₂ second middles rights → Forall₂ whole lefts rights := by
  induction before with
  | nil =>
    intro rights after
    cases after
    exact .nil
  | cons here _ ih =>
    intro rights after
    cases after with
    | cons there later => exact .cons (compose _ _ _ here there) (ih later)

theorem matches_equivalence : StepEquivalence (Matches link) where
  refl related same atom := by
    refine ⟨rfl, forall₂_same.mpr fun fixup _ => ⟨rfl, rfl, rfl, rfl, Or.inl rfl⟩⟩
  flips := matches_flips link
  trans related compose _ _ _ first second := by
    refine ⟨first.1.trans second.1, ?_⟩
    refine forall₂_compose (fun _ _ _ agree agree' => ?_) first.2 second.2
    exact ⟨agree.offset.trans agree'.offset, agree.kind.trans agree'.kind,
      agree.clusterSize.trans agree'.clusterSize, agree.addend.trans agree'.addend,
      agree.targets.trans link compose agree'.targets⟩

theorem bisimilar_position {left right : Fin count} (similar : Bisimilar (Matches link) left right)
    (position : (f1, f2) ∈ (link.atom left).fixups.zip (link.atom right).fixups) :
    addend f1 = addend f2 ∧
      ∀ target1 target2, target link f1 = some target1 → target link f2 = some target2 →
        target1 ≠ target2 → Bisimilar (Matches link) target1 target2 := by
  have step := (bisimilar_step (matches_monotone link) similar).2
  have agree := (forall₂_iff_zip.mp step).2 position
  refine ⟨agree.addend, ?_⟩
  intro target1 target2 found1 found2 different
  rcases agree.targets with same | ⟨other1, other2, again1, again2, _, _, there⟩
  · rw [found1, found2, some_inj] at same
    exact absurd same different
  · rw [found1, some_inj] at again1
    rw [found2, some_inj] at again2
    rwa [again1, again2]

/-- What a comparison sees of two functions without their callees. -/
def LooksAlike (left right : Fin count) : Prop :=
  (link.atom left).content = (link.atom right).content ∧
    List.Forall₂ (fun f1 f2 => sameFixup f1 f2 = true ∧ TargetsMatch link (fun _ _ => True) f1 f2)
      (link.atom left).fixups (link.atom right).fixups

def Met (met : List (Fin count × Fin count)) (atom : Fin count) : Prop :=
  ∃ pair ∈ met, pair.1 = atom ∨ pair.2 = atom

/-- Calls of two functions are followed side by side, at the same positions, while the functions
look alike, and up to callees that have both been met on the way, in whatever pairs. -/
inductive SideBySide (atom1 atom2 : Fin count) :
    List (Fin count × Fin count) → Fin count → Fin count → Prop where
  | start : SideBySide atom1 atom2 [] atom1 atom2
  | call {met : List (Fin count × Fin count)} {left right target1 target2 : Fin count}
      {f1 f2 : Fixup (Fin count)} (before : SideBySide atom1 atom2 met left right)
      (alike : LooksAlike link left right)
      (position : (f1, f2) ∈ (link.atom left).fixups.zip (link.atom right).fixups)
      (found1 : target link f1 = some target1) (found2 : target link f2 = some target2)
      (different : target1 ≠ target2) (fresh : ¬(Met met target1 ∧ Met met target2)) :
      SideBySide atom1 atom2 ((target1, target2) :: met) target1 target2

/-- The two callees are linked by pairs of functions that are come to side by side. -/
def Paired (atom1 atom2 target1 target2 : Fin count) : Prop :=
  Relation.EqvGen (fun left right => ∃ met, SideBySide link atom1 atom2 met left right)
    target1 target2

theorem met_side_by_side {met : List (Fin count × Fin count)} {left right : Fin count}
    (walk : SideBySide link atom1 atom2 met left right) :
    ∀ pair ∈ met, ∃ before, SideBySide link atom1 atom2 before pair.1 pair.2 := by
  induction walk with
  | start => exact fun _ isIn => absurd isIn not_mem_nil
  | call before alike position found1 found2 different fresh ih =>
    exact forall_mem_cons.mpr
      ⟨⟨_, .call before alike position found1 found2 different fresh⟩, ih⟩

/-- The pass looks at the auto-hide functions of the text section that have bytes. -/
def Candidate (atom : Fin count) : Prop :=
  atom ∈ link.textAtoms ∧ (link.atom atom).content.length ≠ 0 ∧ (link.atom atom).autoHide = true

/-- Calls that are followed side by side never cross: callees that have both been met were met as
partners. And fixups at the same position have the same addend. -/
def Uncrossed : Prop :=
  ∀ atom1 atom2, Candidate link atom1 → Candidate link atom2 → atom1 ≠ atom2 →
    ∀ met left right, SideBySide link atom1 atom2 met left right → LooksAlike link left right →
      ∀ f1 f2, (f1, f2) ∈ (link.atom left).fixups.zip (link.atom right).fixups →
        addend f1 = addend f2 ∧
          ∀ target1 target2, target link f1 = some target1 → target link f2 = some target2 →
            target1 ≠ target2 → Met met target1 → Met met target2 →
              Paired link atom1 atom2 target1 target2

theorem in_call_chain_iff (met : List (Fin count × Fin count)) (atom : Fin count) :
    inCallChain met atom = true ↔ Met met atom := by
  simp [inCallChain, Met]

theorem looks_alike_of_equal {fuel : Nat}
    (same : equal link fuel chain atom1 atom2 = some true) : LooksAlike link atom1 atom2 := by
  obtain ⟨_, content, compared⟩ := equal_true link same
  refine ⟨content, compared.imp fun f1 f2 here => ⟨here.1, ?_⟩⟩
  rcases here.2 with identical | ⟨target1, target2, found1, found2, _, code1, code2, _⟩
  · exact Or.inl identical
  · exact Or.inr ⟨target1, target2, found1, found2, code1, code2, trivial⟩

/-- A comparison that comes out equal has found all equal that it came to. -/
theorem side_by_side_equal (same : atomEqual link atom1 atom2)
    {met : List (Fin count × Fin count)} {left right : Fin count}
    (walk : SideBySide link atom1 atom2 met left right) :
    ∃ fuel, equal link fuel met left right = some true := by
  induction walk with
  | start => exact ⟨count + 1, (atomEqual_true_iff link atom1 atom2).mp same⟩
  | @call met left right target1 target2 f1 f2 _ _ position found1 found2 different fresh ih =>
    obtain ⟨fuel, found⟩ := ih
    obtain ⟨less, _, compared⟩ := equal_true link found
    rcases ((forall₂_iff_zip.mp compared).2 position).2 with identical |
      ⟨other1, other2, again1, again2, _, _, _, cut | ⟨_, goesOn⟩⟩
    · rw [found1, found2, some_inj] at identical
      exact absurd identical different
    · rw [found1, some_inj] at again1
      rw [found2, some_inj] at again2
      subst again1 again2
      rw [in_call_chain_iff, in_call_chain_iff] at cut
      exact absurd cut fresh
    · rw [found1, some_inj] at again1
      rw [found2, some_inj] at again2
      subst again1 again2
      exact ⟨less, goesOn⟩

theorem equal_bisimilar (uncrossed : Uncrossed link) (candidate1 : Candidate link atom1)
    (candidate2 : Candidate link atom2) (distinct : atom1 ≠ atom2) (same : atomEqual link atom1 atom2) :
    Bisimilar (Matches link) atom1 atom2 := by
  apply bisimilar_of_linked (matches_monotone link) (matches_equivalence link)
    (fun left right => ∃ met, SideBySide link atom1 atom2 met left right) _ ⟨[], .start⟩
  rintro left right ⟨met, walk⟩
  obtain ⟨fuel, found⟩ := side_by_side_equal link same walk
  have alike := looks_alike_of_equal link found
  obtain ⟨less, content, compared⟩ := equal_true link found
  refine ⟨content, forall₂_iff_zip.mpr ⟨compared.length_eq, fun {f1 f2} position => ?_⟩⟩
  obtain ⟨sameHere, targets⟩ := (forall₂_iff_zip.mp compared).2 position
  obtain ⟨sameAddend, pairs⟩ :=
    uncrossed atom1 atom2 candidate1 candidate2 distinct met left right walk alike f1 f2 position
  simp only [sameFixup, Bool.and_eq_true, decide_eq_true_eq] at sameHere
  refine ⟨sameHere.1.1.1.1, sameHere.1.1.1.2, sameHere.1.2, sameAddend, ?_⟩
  rcases targets with identical |
    ⟨target1, target2, found1, found2, different, code1, code2, _⟩
  · exact Or.inl identical
  refine Or.inr ⟨target1, target2, found1, found2, code1, code2, ?_⟩
  by_cases crossing : Met met target1 ∧ Met met target2
  · exact pairs target1 target2 found1 found2 different crossing.1 crossing.2
  · exact .rel _ _ ⟨_, .call walk alike position found1 found2 different crossing⟩

variable (table : TableOrder count)

theorem buildMap_equal : ∀ entry ∈ buildMap link table, Candidate link entry.1 ∧
    ∀ dup ∈ entry.2, Candidate link dup ∧ (dup = entry.1 ∨ atomEqual link entry.1 dup) := by
  apply foldlRecOn (motive := fun map : DupMap count => ∀ entry ∈ map, Candidate link entry.1 ∧
    ∀ dup ∈ entry.2, Candidate link dup ∧ (dup = entry.1 ∨ atomEqual link entry.1 dup))
  · intro entry among
    cases among
  intro map sound atom isText
  split
  · exact sound
  rename_i hasBytes
  split
  · rename_i hidden
    have candidate : Candidate link atom := ⟨isText, hasBytes, hidden⟩
    intro entry among
    unfold addAtom at among
    split at among
    next key found =>
      have same := find?_some found
      obtain ⟨old, oldAmong, changed⟩ := List.mem_map.mp among
      obtain ⟨isCandidate, dups⟩ := sound old oldAmong
      split at changed
      next isKey =>
        subst changed
        refine ⟨isCandidate, fun dup member => ?_⟩
        rcases mem_append.mp member with before | new
        · exact dups dup before
        · rw [mem_singleton.mp new, isKey]
          exact ⟨candidate, Or.inr same⟩
      · subst changed
        exact ⟨isCandidate, dups⟩
    · rcases mem_append.mp among with before | new
      · exact sound entry before
      · rw [mem_singleton] at new
        subst new
        refine ⟨candidate, fun dup member => ?_⟩
        rw [mem_singleton.mp member]
        exact ⟨candidate, Or.inl rfl⟩
  · exact sound

def callTo {count : Nat} (target : Fin count) : Fixup (Fin count) :=
  { offsetInAtom := 1, kind := .storeTargetAddressX86BranchPCRel32, clusterSize := 1
    binding := .directlyBound target }

def hiddenFunction {count : Nat} (content : List (BitVec 8)) (callee : Fin count) :
    AtomData (Fin count) :=
  { name := [], isCString := false, sectionType := .code, autoHide := true, content
    fixups := [callTo callee] }

/-- Atoms 0 and 1 call each other, as do 2 and 3, with the same bytes in the same order; 4 calls
itself. -/
def mutualLink : Link 5 where
  atom := ![hiddenFunction [0xE9#8] 1, hiddenFunction [0x90#8, 0xE9#8] 0,
    hiddenFunction [0xE9#8] 3, hiddenFunction [0x90#8, 0xE9#8] 2, hiddenFunction [0xE8#8] 4]
  indirectBindingTable := fun _ => 0
  textAtoms := [0, 1, 2, 3, 4]

def partner : Fin 5 → Fin 5 := ![2, 3, 0, 1, 4]

theorem mutual_partners {atom1 atom2 left right : Fin 5} {met : List (Fin 5 × Fin 5)}
    (distinct : atom1 ≠ atom2) (walk : SideBySide mutualLink atom1 atom2 met left right)
    (alike : LooksAlike mutualLink left right) :
    right = partner left ∧ ∀ pair ∈ met, pair.2 = partner pair.1 := by
  have bytes : ∀ left right : Fin 5, left ≠ right →
      (mutualLink.atom left).content = (mutualLink.atom right).content → right = partner left := by
    decide
  have callees : ∀ left : Fin 5, ∀ pair ∈ (mutualLink.atom left).fixups.zip
      (mutualLink.atom (partner left)).fixups,
      target mutualLink pair.2 = (target mutualLink pair.1).map partner := by
    decide
  induction walk with
  | start => exact ⟨bytes _ _ distinct alike.1, fun _ isIn => absurd isIn not_mem_nil⟩
  | @call met left right target1 target2 f1 f2 _ seen position found1 found2 _ _ ih =>
    obtain ⟨rfl, partners⟩ := ih seen
    have isPartner := callees left (f1, f2) position
    rw [found1, found2, map_some, some_inj] at isPartner
    exact ⟨isPartner, forall_mem_cons.mpr ⟨isPartner, partners⟩⟩

theorem mutual_uncrossed : Uncrossed mutualLink := by
  have back : ∀ atom : Fin 5, partner (partner atom) = atom := by decide
  have callees : ∀ left : Fin 5, ∀ pair ∈ (mutualLink.atom left).fixups.zip
      (mutualLink.atom (partner left)).fixups, addend pair.1 = addend pair.2 ∧
        target mutualLink pair.2 = (target mutualLink pair.1).map partner := by
    decide
  intro atom1 atom2 _ _ distinct met left right walk alike f1 f2 position
  obtain ⟨rfl, partners⟩ := mutual_partners distinct walk alike
  obtain ⟨sameAddend, isPartner⟩ := callees left (f1, f2) position
  refine ⟨sameAddend, fun target1 target2 found1 found2 _ met1 _ => ?_⟩
  rw [found1, found2, map_some, some_inj] at isPartner
  obtain ⟨pair, isIn, isFirst⟩ := met1
  have there := met_side_by_side mutualLink walk pair isIn
  rw [partners pair isIn] at there isFirst
  rcases isFirst with rfl | rfl
  · rw [isPartner]
    exact .rel _ _ there
  · rw [isPartner, back]
    exact .symm _ _ (.rel _ _ there)

/-- Atoms 0 and 1 call 2 and 4. From 2 the calls go to 3 and stay there; from 4 they go to 5
and back. Atoms 3 and 5 have the same bytes, as have 2 and 4. -/
def cycleLink : Link 6 where
  atom := ![hiddenFunction [0xE9#8] 2, hiddenFunction [0xE9#8] 4,
    hiddenFunction [0x90#8, 0xE9#8] 3, hiddenFunction [0xE9#8, 0x90#8] 3,
    hiddenFunction [0x90#8, 0xE9#8] 5, hiddenFunction [0xE9#8, 0x90#8] 4]
  indirectBindingTable := fun _ => 0
  textAtoms := [0, 1, 2, 3, 4, 5]

def firstKeyFirst : TableOrder 6 := ⟨id, fun _ => .refl _⟩

end DeveloperTools.Ld64.CodeDedup
