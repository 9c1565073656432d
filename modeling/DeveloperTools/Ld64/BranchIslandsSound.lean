import DeveloperTools.Ld64.BranchIslandPaths

/-!
The pass as a whole keeps every branch going to its target exactly when the
branches that get islands have no addend and the regions they pass are close
enough together. Neither is checked: the addend stays behind in the redirected
branch, which then goes past the start of its island, and an atom longer than the
limit leaves a gap between two regions.
-/

namespace DeveloperTools.Ld64.BranchIslands

open Cuts Walk
open List Option

theorem align_atom_ge (text : TextAtom) (offset : Nat) : offset ≤ alignAtom text offset := by
  unfold alignAtom
  dsimp only
  split
  · split <;> omega
  · exact Nat.le_refl _

theorem assign_offsets_above (atoms : List TextAtom) (offset : Nat) :
    ∀ placed ∈ assignOffsets atoms offset, offset ≤ placed.offset := by
  induction atoms generalizing offset with
  | nil => exact fun _ member => absurd member not_mem_nil
  | cons text rest ih =>
    intro placed member
    have start := align_atom_ge text offset
    rcases mem_cons.mp member with here | later
    · rw [here]
      exact start
    · have := ih _ placed later
      omega

theorem assign_offsets_ordered (atoms : List TextAtom) (offset : Nat) :
    (assignOffsets atoms offset).Pairwise fun first second => first.finish ≤ second.offset := by
  induction atoms generalizing offset with
  | nil => exact List.Pairwise.nil
  | cons text rest ih =>
    rw [assignOffsets, pairwise_cons]
    exact ⟨assign_offsets_above rest _, ih _⟩

theorem assign_offsets_text (atoms : List TextAtom) (offset : Nat) :
    (assignOffsets atoms offset).map Placed.text = atoms := by
  induction atoms generalizing offset with
  | nil => rfl
  | cons text rest ih => rw [assignOffsets, map_cons, ih]

variable {kBetweenRegions : Nat}

theorem insertion_points_sublist (placed : List Placed) (previous : Nat) (point : Option Placed)
    {points : List Placed} {last : Nat} {final : Option Placed}
    (found : insertionPoints kBetweenRegions placed previous point = some (points, last, final)) :
    (points ++ final.toList).Sublist (point.toList ++ placed) := by
  induction placed generalizing previous point points with
  | nil =>
    simp only [insertionPoints, Option.some.injEq, Prod.mk.injEq] at found
    rw [← found.1, ← found.2.2, append_nil]
    exact List.Sublist.refl _
  | cons first rest ih =>
    unfold insertionPoints at found
    split at found
    · cases point with
      | none => exact absurd found (some_ne_none _).symm
      | some point =>
        obtain ⟨⟨points', found'⟩, later, same⟩ := map_eq_some_iff.mp found
        simp only [Prod.mk.injEq] at same
        rw [same.2] at later
        have tail := ih _ _ later
        rw [← same.1]
        apply List.Sublist.cons_cons
        apply tail.trans
        split
        · exact sublist_cons_self _ _
        · exact List.Sublist.refl _
    · apply (ih _ _ found).trans
      split
      · apply List.Sublist.append_left
        exact sublist_cons_self _ _
      · exact sublist_append_right _ _

section Section

variable {opts : Options} {text : TextSection opts}

theorem region_points_sublist {placed points : List Placed}
    (found : regionPoints text placed kBetweenRegions = some points) : points.Sublist placed := by
  obtain ⟨⟨inner, last, final⟩, whole, same⟩ := map_eq_some_iff.mp found
  have sub := insertion_points_sublist placed 0 none whole
  dsimp only at same
  rw [← same]
  split
  · cases shape : placed.getLast? with
    | none => exact nil_sublist _
    | some last =>
      obtain ⟨front, is⟩ := List.getLast?_eq_some_iff.mp shape
      rw [is]
      exact sublist_append_right _ _
  · cases final with
    | none =>
      rw [toList_none, append_nil] at sub
      exact sub
    | some point =>
      simp only [withLastPoint]
      split
      · exact sub
      · exact (sublist_append_left _ _).trans sub

section

variable {stubsSize : Nat} {layout : Layout} (planned : plan text stubsSize = .regions layout)

include planned

theorem plan_regions :
    layout.placed = assignOffsets text.atoms 0 ∧ layout.points.Sublist layout.placed := by
  unfold plan at planned
  dsimp only at planned
  split at planned
  · exact Plan.noConfusion planned
  split at planned
  · exact Plan.noConfusion planned
  rename_i points found
  have same := Plan.regions.inj planned
  rw [← same]
  exact ⟨rfl, region_points_sublist found⟩

theorem plan_ordered : (regionKeys layout).Pairwise (· ≤ ·) := by
  obtain ⟨placed, sub⟩ := plan_regions planned
  rw [placed] at sub
  unfold regionKeys
  rw [pairwise_map]
  apply ((assign_offsets_ordered text.atoms 0).sublist sub).imp
  intro first second ordered
  have : second.offset ≤ second.finish := Nat.le_add_right _ _
  omega

end

end Section

def originalOf : Ref → Option Atom
  | .atom original => some original
  | .island _ => none

def islandOf : Ref → Option Nat
  | .atom _ => none
  | .island index => some index

theorem originals_cons (atom : Atom) (rest : List Ref) :
    (Ref.atom atom :: rest).filterMap originalOf = atom :: rest.filterMap originalOf := rfl

theorem islands_cons (atom : Atom) (rest : List Ref) :
    (Ref.atom atom :: rest).filterMap islandOf = rest.filterMap islandOf := rfl

theorem regions_islands_atoms (made : List Island) (region : Nat) :
    (regionsIslands made region).filterMap originalOf = [] := by
  unfold regionsIslands
  rw [filterMap_map]
  exact filterMap_eq_nil_iff.mpr fun _ _ => rfl

theorem regions_islands_islands (made : List Island) (region : Nat) :
    (regionsIslands made region).filterMap islandOf =
      (range made.length).filter fun index =>
        (made[index]?).map Island.region = some region := by
  unfold regionsIslands
  rw [filterMap_map]
  exact filterMap_some

theorem insert_islands_parts (made : List Island) (placed points : List Placed) (region : Nat)
    (distinct : (placed.map fun placed => placed.text.atom).Nodup) (sub : points.Sublist placed) :
    (insertIslands made placed points region).filterMap originalOf =
        placed.map (fun placed => placed.text.atom) ∧
      (insertIslands made placed points region).filterMap islandOf =
        (range' region points.length).flatMap fun region =>
          (regionsIslands made region).filterMap islandOf := by
  induction placed generalizing points region with
  | nil =>
    rw [sublist_nil.mp sub]
    exact ⟨rfl, rfl⟩
  | cons first rest ih =>
    rw [map_cons, nodup_cons] at distinct
    cases points with
    | nil =>
      obtain ⟨atoms, islands⟩ := ih [] region distinct.2 (nil_sublist _)
      unfold insertIslands
      constructor
      · rw [originals_cons, atoms, map_cons]
      · rw [islands_cons, islands]
    | cons point points =>
      by_cases here : first.text.atom = point.text.atom
      · have behind : points.Sublist rest := by
          cases sub with
          | cons_cons _ tail => exact tail
          | cons _ tail =>
            have member := tail.subset mem_cons_self
            rw [here] at distinct
            exact absurd (mem_map_of_mem member) distinct.1
        obtain ⟨atoms, islands⟩ := ih points (region + 1) distinct.2 behind
        unfold insertIslands
        rw [if_pos here]
        constructor
        · rw [originals_cons, filterMap_append, regions_islands_atoms, nil_append, atoms, map_cons]
        · rw [islands_cons, filterMap_append, islands, length_cons, range'_succ, flatMap_cons]
      · have later : (point :: points).Sublist rest := by
          cases sub with
          | cons_cons _ tail => exact absurd rfl here
          | cons _ tail => exact tail
        obtain ⟨atoms, islands⟩ := ih (point :: points) region distinct.2 later
        unfold insertIslands
        rw [if_neg here]
        constructor
        · rw [originals_cons, atoms, map_cons]
        · rw [islands_cons, islands]

variable {made : List Island} {count : Nat}

theorem islands_by_region (within : ∀ island ∈ made, island.region < count) :
    ((range' 0 count).flatMap fun region =>
      (regionsIslands made region).filterMap islandOf).Perm (range made.length) := by
  apply (perm_ext_iff_of_nodup _ nodup_range).mpr
  · intro index
    simp only [regions_islands_islands, mem_flatMap, mem_filter, mem_range, decide_eq_true_iff]
    constructor
    · rintro ⟨_, _, inside, _⟩
      exact inside
    intro inside
    refine ⟨made[index].region, ?_, inside, ?_⟩
    · rw [mem_range'_1]
      have := within _ (getElem_mem inside)
      omega
    · rw [getElem?_eq_getElem inside]
      rfl
  · rw [nodup_flatMap]
    constructor
    · intro region _
      rw [regions_islands_islands]
      exact nodup_range.filter _
    apply (pairwise_lt_range' (s := 0) (n := count)).imp
    intro low high less
    rw [Function.onFun, regions_islands_islands, regions_islands_islands]
    intro index first second
    rw [mem_filter, decide_eq_true_iff] at first second
    have same := Option.some.inj (first.2.symm.trans second.2)
    omega

def EachCluster (related : Placed → Cluster Atom → Cluster Ref → Prop) (atoms : List Placed)
    (fixups : List (List (Cluster Ref))) : Prop :=
  List.Forall₂ (fun placed clusters' =>
    List.Forall₂ (related placed) placed.text.clusters clusters') atoms fixups

def Paired (atoms : List Placed) (fixups : List (List (Cluster Ref))) (placed : Placed)
    (cluster : Cluster Atom) (cluster' : Cluster Ref) : Prop :=
  ∃ clusters', (placed, clusters') ∈ atoms.zip fixups ∧
    (cluster, cluster') ∈ placed.text.clusters.zip clusters'

variable {placed : Placed} {cluster : Cluster Atom} {cluster' : Cluster Ref}

section Pairs

variable {related other : Placed → Cluster Atom → Cluster Ref → Prop} {atoms : List Placed}
  {fixups : List (List (Cluster Ref))}

theorem zip_member {Left Right : Type} {lefts : List Left} {rights : List Right}
    (same : lefts.length = rights.length) {left : Left} (member : left ∈ lefts) :
    ∃ right, (left, right) ∈ lefts.zip rights := by
  obtain ⟨i, inside, is⟩ := mem_iff_getElem.mp member
  refine ⟨rights[i], mem_iff_getElem.mpr ⟨i, ?_, ?_⟩⟩
  · rw [length_zip]
    omega
  · rw [getElem_zip, is]

section

variable (each : EachCluster related atoms fixups)

include each

theorem EachCluster.paired (pair : Paired atoms fixups placed cluster cluster') :
    related placed cluster cluster' := by
  obtain ⟨clusters', outer, inner⟩ := pair
  exact (forall₂_iff_zip.mp ((forall₂_iff_zip.mp each).2 outer)).2 inner

theorem EachCluster.of_paired
    (all : ∀ placed cluster cluster', Paired atoms fixups placed cluster cluster' →
      other placed cluster cluster') : EachCluster other atoms fixups := by
  have shape := forall₂_iff_zip.mp each
  apply forall₂_iff_zip.mpr
  refine ⟨shape.1, fun {placed clusters'} outer => ?_⟩
  apply forall₂_iff_zip.mpr
  exact ⟨(forall₂_iff_zip.mp (shape.2 outer)).1, fun {cluster cluster'} inner =>
    all placed cluster cluster' ⟨clusters', outer, inner⟩⟩

theorem EachCluster.exists_pair (member : placed ∈ atoms) (among : cluster ∈ placed.text.clusters) :
    ∃ cluster', Paired atoms fixups placed cluster cluster' := by
  have shape := forall₂_iff_zip.mp each
  obtain ⟨clusters', outer⟩ := zip_member shape.1 member
  obtain ⟨cluster', inner⟩ := zip_member (forall₂_iff_zip.mp (shape.2 outer)).1 among
  exact ⟨cluster', clusters', outer, inner⟩

end

theorem Paired.member (pair : Paired atoms fixups placed cluster cluster') :
    placed ∈ atoms ∧ cluster ∈ placed.text.clusters := by
  obtain ⟨clusters', outer, inner⟩ := pair
  exact ⟨(of_mem_zip outer).1, (of_mem_zip inner).1⟩

end Pairs

variable {regions : List Nat} {fixups : List (List (Cluster Ref))}

section Runs

variable {opts : Options} {text : TextSection opts} {layout : Layout} {made' : List Island}

section Rule

/-- The islands made so far keep `Inv`, and each branch is left in `Done` with them. -/
structure BranchRule (text : TextSection opts) (layout : Layout) (Inv : List Island → Prop)
    (Done : List Island → Placed → Cluster Atom → Cluster Ref → Prop) : Prop where
  step : ∀ placed ∈ layout.placed, ∀ cluster ∈ placed.text.clusters, ∀ made made' cluster',
    Inv made → redirect text layout placed made cluster = some (made', cluster') →
      made <+: made' ∧ Inv made' ∧ Done made' placed cluster cluster'
  grown : ∀ placed cluster cluster' made made', made <+: made' →
    Done made placed cluster cluster' → Done made' placed cluster cluster'

variable {Inv : List Island → Prop}
  {Done : List Island → Placed → Cluster Atom → Cluster Ref → Prop}

theorem BranchRule.redirect_all (rule : BranchRule text layout Inv Done)
    (member : placed ∈ layout.placed) (clusters : List (Cluster Atom))
    (own : ∀ cluster ∈ clusters, cluster ∈ placed.text.clusters) {clusters' : List (Cluster Ref)}
    (start : Inv made)
    (ran : redirectAll text layout placed clusters made = some (made', clusters')) :
    made <+: made' ∧ Inv made' ∧ Forall₂ (Done made' placed) clusters clusters' := by
  induction clusters generalizing made made' clusters' with
  | nil =>
    simp only [redirectAll, Option.some.injEq, Prod.mk.injEq] at ran
    rw [← ran.1, ← ran.2]
    exact ⟨prefix_refl _, start, List.Forall₂.nil⟩
  | cons cluster rest ih =>
    simp only [redirectAll, bind_eq_bind, bind_eq_some_iff] at ran
    obtain ⟨⟨made1, cluster'⟩, first, ⟨made2, rest'⟩, later, same⟩ := ran
    simp only [Option.some.injEq, Prod.mk.injEq] at same
    rw [← same.1, ← same.2]
    obtain ⟨grown1, inv1, done1⟩ := rule.step placed member cluster (own _ mem_cons_self)
      made made1 cluster' start first
    obtain ⟨grown2, inv2, done2⟩ := ih (fun other among => own other (.tail _ among)) inv1 later
    exact ⟨grown1.trans grown2, inv2, List.Forall₂.cons (rule.grown _ _ _ _ _ grown2 done1) done2⟩

theorem BranchRule.make_islands (rule : BranchRule text layout Inv Done) (atoms : List Placed)
    (own : ∀ placed ∈ atoms, placed ∈ layout.placed) (start : Inv made)
    (ran : makeIslands text layout atoms made = some (made', fixups)) :
    made <+: made' ∧ Inv made' ∧ EachCluster (Done made') atoms fixups := by
  induction atoms generalizing made made' fixups with
  | nil =>
    simp only [makeIslands, Option.some.injEq, Prod.mk.injEq] at ran
    rw [← ran.1, ← ran.2]
    exact ⟨prefix_refl _, start, List.Forall₂.nil⟩
  | cons placed rest ih =>
    simp only [makeIslands, bind_eq_bind, bind_eq_some_iff] at ran
    obtain ⟨⟨made1, clusters'⟩, first, ⟨made2, rest'⟩, later, same⟩ := ran
    simp only [Option.some.injEq, Prod.mk.injEq] at same
    rw [← same.1, ← same.2]
    obtain ⟨grown1, inv1, done1⟩ := rule.redirect_all (own _ mem_cons_self)
      placed.text.clusters (fun _ among => among) start first
    obtain ⟨grown2, inv2, done2⟩ := ih (fun other among => own other (.tail _ among)) inv1 later
    refine ⟨grown1.trans grown2, inv2, List.Forall₂.cons ?_ done2⟩
    exact done1.imp fun _ _ done => rule.grown _ _ _ _ _ grown2 done

end Rule

structure Redirected (text : TextSection opts) (layout : Layout) (placed : Placed)
    (cluster : Cluster Atom) (cluster' : Cluster Ref) : Prop where
  addend : cluster'.addend = cluster.addend
  defined : ∀ regions, islandRegions text layout placed cluster = some regions →
    ¬ (regions = [0] ∧ layout.points = [])
  direct : (∀ regions, islandRegions text layout placed cluster = some regions → regions = []) →
    startOf text cluster' = (.atom (targetOf text cluster), cluster.addend.toInt)
  islands : ∀ regions, islandRegions text layout placed cluster = some regions → regions ≠ [] →
    ∃ index, startOf text cluster' = (.island index, cluster.addend.toInt)

theorem start_of_to_ref (cluster : Cluster Atom) :
    startOf text cluster.toRef = (.atom (targetOf text cluster), cluster.addend.toInt) := by
  rw [startOf, targetOf, Cluster.toRef]
  cases cluster.binding <;> rfl

theorem redirect_branch (branch : cluster.kind ≠ .other)
    (ran : redirect text layout placed made cluster = some (made', cluster')) :
    (islandRegions text layout placed cluster = none ∧ made' = made ∧ cluster' = cluster.toRef) ∨
      ∃ regions, islandRegions text layout placed cluster = some regions ∧
        ¬ (regions = [0] ∧ layout.points = []) ∧ cluster'.addend = cluster.addend ∧
        (made', (startOf text cluster').1) = islandChain
          (islandKind opts cluster.kind (text.linkage.isThumb (targetOf text cluster))
            (crossSectionBranch text placed.text.atom (targetOf text cluster)))
          ⟨targetOf text cluster, cluster.addend.setWidth 32⟩ regions made
          (.atom (targetOf text cluster)) := by
  unfold redirect at ran
  rw [if_neg branch] at ran
  split at ran
  next stays =>
    simp only [Option.some.injEq, Prod.mk.injEq] at ran
    exact .inl ⟨stays, ran.1.symm, ran.2.symm⟩
  rename_i regions chosen
  split at ran
  · exact absurd ran (some_ne_none _).symm
  rename_i defined
  simp only [Option.some.injEq, Prod.mk.injEq] at ran
  refine .inr ⟨regions, chosen, defined, ?_, ?_⟩
  · rw [← ran.2]
    rfl
  · rw [← ran.1, ← ran.2]
    rfl

theorem island_chain_within (kind : IslandKind) (final : TargetAndOffset) (next : Ref)
    (small : ∀ region ∈ regions, region < count) (within : ∀ island ∈ made, island.region < count) :
    made <+: (islandChain kind final regions made next).1 ∧
      ∀ island ∈ (islandChain kind final regions made next).1, island.region < count := by
  induction regions generalizing made next with
  | nil => exact ⟨prefix_refl _, within⟩
  | cons region rest ih =>
    have first : made <+: (islandIn kind final made next region).1 ∧
        ∀ island ∈ (islandIn kind final made next region).1, island.region < count := by
      unfold islandIn
      split
      · exact ⟨prefix_refl _, within⟩
      refine ⟨prefix_append _ _, ?_⟩
      intro island member
      rcases mem_append.mp member with old | new
      · exact within island old
      · rw [mem_singleton.mp new]
        exact small region mem_cons_self
    obtain ⟨grown', within''⟩ := ih (islandIn kind final made next region).2
      (fun other member => small other (.tail _ member)) first.2
    exact ⟨first.1.trans grown', within''⟩

theorem island_regions_small (chosen : islandRegions text layout placed cluster = some regions)
    (defined : ¬ (regions = [0] ∧ layout.points = [])) :
    ∀ region ∈ regions, region < layout.points.length := by
  unfold islandRegions at chosen
  dsimp only at chosen
  split at chosen
  · have only := Option.some.inj chosen
    intro region member
    rw [← only, mem_singleton] at member
    rw [member]
    apply length_pos_iff.mpr
    exact fun none => defined ⟨only.symm, none⟩
  · split at chosen
    · rw [← Option.some.inj chosen]
      intro region member
      exact mem_range.mp (mem_of_mem_filter (mem_reverse.mp member))
    split at chosen
    · rw [← Option.some.inj chosen]
      intro region member
      exact mem_range.mp (mem_of_mem_filter member)
    · exact absurd chosen (some_ne_none _).symm

theorem redirected_rule : BranchRule text layout
    (fun made => ∀ island ∈ made, island.region < layout.points.length)
    (fun _ placed cluster cluster' => cluster.kind ≠ .other →
      Redirected text layout placed cluster cluster') where
  grown := fun _ _ _ _ _ _ done => done
  step := by
    intro placed _ cluster _ made made' cluster' within ran
    by_cases branch : cluster.kind = .other
    · rw [redirect, if_pos branch, Option.some.injEq, Prod.mk.injEq] at ran
      rw [← ran.1]
      exact ⟨prefix_refl _, within, fun other => absurd branch other⟩
    rcases redirect_branch branch ran with
      ⟨stays, same, is⟩ | ⟨regions, chosen, defined, addend, chain⟩
    · rw [same, is]
      refine ⟨prefix_refl _, within, fun _ => ⟨rfl, ?_, fun _ => start_of_to_ref cluster, ?_⟩⟩
      · intro regions chosen
        rw [stays] at chosen
        exact absurd chosen (some_ne_none _).symm
      · intro regions chosen
        rw [stays] at chosen
        exact absurd chosen (some_ne_none _).symm
    · have both := Prod.mk.inj chain
      have start : startOf text cluster' = ((startOf text cluster').1, cluster.addend.toInt) := by
        rw [← addend]
        rfl
      obtain ⟨grown, within'⟩ := island_chain_within _ _ _
        (island_regions_small chosen defined) within
      rw [both.1]
      refine ⟨grown, within', fun _ => ⟨addend, ?_, ?_, ?_⟩⟩
      · intro others chosen'
        rw [chosen, Option.some.injEq] at chosen'
        rw [← chosen']
        exact defined
      · intro none
        rw [start, both.2, none regions chosen]
        rfl
      intro others chosen' some
      rw [chosen, Option.some.injEq] at chosen'
      rw [← chosen'] at some
      rw [start, both.2]
      obtain ⟨index, is⟩ := island_chain_island _ _ some made _
      exact ⟨index, by rw [is]⟩

def Plain (text : TextSection opts) (layout : Layout) : Prop :=
  ∀ placed ∈ layout.placed, ∀ cluster ∈ placed.text.clusters, cluster.kind ≠ .other →
    ∀ regions, islandRegions text layout placed cluster = some regions → regions ≠ [] →
      cluster.addend = 0

theorem kind_for_branch (member : placed.text ∈ text.atoms) (among : cluster ∈ placed.text.clusters)
    (branch : cluster.kind ≠ .other) :
    islandKind opts cluster.kind (text.linkage.isThumb (targetOf text cluster))
        (crossSectionBranch text placed.text.atom (targetOf text cluster)) =
      kindFor text (targetOf text cluster) := by
  have family := text.branches _ member cluster among branch
  rw [kindFor, crosses, crossSectionBranch, text.indexed _ member]
  by_cases arm : opts.architecture = .arm
  · have old : cluster.kind ≠ .arm64Branch26 := fun is => family.mp is arm
    rw [if_pos arm]
    cases kind : cluster.kind with
    | armBranch24 => rfl
    | thumbBranch22 => rfl
    | arm64Branch26 => exact absurd kind old
    | other => exact absurd kind branch
  · rw [if_neg arm, family.mpr arm]

theorem trail_rule (ordered : (regionKeys layout).Pairwise (· ≤ ·))
    (members : ∀ placed ∈ layout.placed, placed.text ∈ text.atoms) (plain : Plain text layout) :
    BranchRule text layout (Kept (kindFor text) (route text layout))
      (fun made placed cluster cluster' => cluster.kind ≠ .other →
        ∀ regions, islandRegions text layout placed cluster = some regions → regions ≠ [] →
          Trail (kindFor text (targetOf text cluster)) (targetOf text cluster) made
            (startOf text cluster').1 regions.reverse) where
  grown := fun _ _ _ _ _ grown done branch regions chosen some =>
    trail_grown grown (done branch regions chosen some)
  step := by
    intro placed member cluster among made made' cluster' kept ran
    by_cases branch : cluster.kind = .other
    · rw [redirect, if_pos branch, Option.some.injEq, Prod.mk.injEq] at ran
      rw [← ran.1]
      exact ⟨prefix_refl _, kept, fun other => absurd branch other⟩
    rcases redirect_branch branch ran with ⟨stays, same, is⟩ | ⟨regions, chosen, _, _, chain⟩
    · rw [same]
      refine ⟨prefix_refl _, kept, ?_⟩
      intro _ regions chosen
      rw [stays] at chosen
      exact absurd chosen (some_ne_none _).symm
    · rw [kind_for_branch (members placed member) among branch] at chain
      have both := Prod.mk.inj chain
      rw [both.1]
      by_cases none : regions = []
      · rw [none]
        refine ⟨prefix_refl _, kept, ?_⟩
        intro _ others chosen' some
        rw [chosen, Option.some.injEq] at chosen'
        exact absurd (chosen'.symm.trans none) some
      · have zero := plain placed member cluster among branch regions chosen none
        have steps := island_regions_steps text layout ordered (members placed member) zero chosen
        have narrow : cluster.addend.setWidth 32 = 0#32 := by
          rw [zero]
          rfl
        rw [narrow] at both ⊢
        have there : Trail (kindFor text (targetOf text cluster)) (targetOf text cluster) made
            (.atom (targetOf text cluster)) [] := rfl
        obtain ⟨grown, kept', trail⟩ := island_chain_trail regions kept there steps
        refine ⟨grown, kept', ?_⟩
        intro _ others chosen' _
        rw [chosen, Option.some.injEq] at chosen'
        rw [both.2, ← chosen']
        rw [append_nil] at trail
        exact trail

theorem redirect_all_defined (clusters : List (Cluster Atom))
    (defined : ∀ cluster ∈ clusters, cluster.kind ≠ .other → ∀ regions,
      islandRegions text layout placed cluster = some regions →
        ¬ (regions = [0] ∧ layout.points = [])) (made : List Island) :
    ∃ result, redirectAll text layout placed clusters made = some result := by
  induction clusters generalizing made with
  | nil => exact ⟨_, rfl⟩
  | cons cluster rest ih =>
    have first : ∃ result, redirect text layout placed made cluster = some result := by
      unfold redirect
      split
      · exact ⟨_, rfl⟩
      rename_i branch
      split
      · exact ⟨_, rfl⟩
      next regions chosen =>
        rw [if_neg (defined cluster mem_cons_self branch regions chosen)]
        exact ⟨_, rfl⟩
    obtain ⟨⟨made', cluster'⟩, ran⟩ := first
    obtain ⟨later, ran'⟩ := ih (fun other member => defined other (.tail _ member)) made'
    simp only [redirectAll, ran, bind_eq_bind, bind_some, ran']
    exact ⟨_, rfl⟩

theorem make_islands_defined (atoms : List Placed)
    (defined : ∀ placed ∈ atoms, ∀ cluster ∈ placed.text.clusters, cluster.kind ≠ .other →
      ∀ regions, islandRegions text layout placed cluster = some regions →
        ¬ (regions = [0] ∧ layout.points = [])) (made : List Island) :
    ∃ result, makeIslands text layout atoms made = some result := by
  induction atoms generalizing made with
  | nil => exact ⟨_, rfl⟩
  | cons placed rest ih =>
    obtain ⟨⟨made', clusters'⟩, ran⟩ := redirect_all_defined placed.text.clusters
      (defined placed mem_cons_self) made
    obtain ⟨later, ran'⟩ := ih (fun other member => defined other (.tail _ member)) made'
    simp only [makeIslands, ran, bind_eq_bind, bind_some, ran']
    exact ⟨_, rfl⟩

end Runs

section Pass

variable {opts : Options} (text : TextSection opts)

def layoutFor (stubsSize : Nat) : Layout :=
  match plan text stubsSize with
  | .regions layout => layout
  | _ => sectionLayout text stubsSize

/-- The original atoms are all there in their order, and so is each island once. -/
def OrderKept (result : Result) : Prop :=
  result.order.filterMap originalOf = text.atoms.map TextAtom.atom ∧
    (result.order.filterMap islandOf).Perm (List.range result.islands.length)

def BranchesReach (layout : Layout) (result : Result) : Prop :=
  EachCluster (fun placed cluster cluster' => cluster.kind ≠ .other →
    Reaches text layout result.islands placed cluster cluster') layout.placed result.fixups

/-- The link fails, or control flow is as it was. -/
def FlowPreserved (stubsSize : Nat) : Prop :=
  match makeIslandsForSection text stubsSize with
  | .failed => True
  | .undefined => False
  | .done result => OrderKept text result ∧ BranchesReach text (layoutFor text stubsSize) result

/-- From the source of a branch over the regions it enters to its target no step is
longer than the limit. -/
def InReach (layout : Layout) (placed : Placed) (cluster : Cluster Atom) (regions : List Nat) :
    Prop :=
  List.IsChain (Near layout.kBetweenRegions)
    (srcAddr text placed cluster ::
      ((entered (kindFor text (targetOf text cluster)) regions.reverse).map
        (regionPosition text layout) ++ [dstAddr text layout (targetOf text cluster) 0]))

/-- The branches that get islands have a region to get them in, have no addend and
the regions they pass are close enough together. -/
def Spaced (stubsSize : Nat) : Prop :=
  ∀ layout, plan text stubsSize = .regions layout →
    ∀ placed ∈ layout.placed, ∀ cluster ∈ placed.text.clusters, cluster.kind ≠ .other →
      ∀ regions, islandRegions text layout placed cluster = some regions →
        ¬ (regions = [0] ∧ layout.points = []) ∧
          (regions ≠ [] → cluster.addend = 0 ∧ InReach text layout placed cluster regions)

variable {text} {layout : Layout} {placed : Placed} {cluster : Cluster Atom}
  {cluster' : Cluster Ref} {made : List Island}

theorem reaches_direct
    (direct : startOf text cluster' = (.atom (targetOf text cluster), cluster.addend.toInt)) :
    Reaches text layout made placed cluster cluster' := by
  unfold Reaches
  rw [direct]
  exact ⟨[], rfl, rfl, fun some => absurd rfl some⟩

theorem reaches_island_plain {index : Nat}
    (island : startOf text cluster' = (.island index, cluster.addend.toInt))
    (reaches : Reaches text layout made placed cluster cluster') : cluster.addend = 0 := by
  obtain ⟨hops, run, last, _⟩ := reaches
  rw [island] at run last
  by_contra nonzero
  have offset : ¬ cluster.addend.toInt = 0 := by
    intro zero
    apply nonzero
    apply BitVec.eq_of_toInt_eq
    rw [zero]
    rfl
  have stuck : Run (nextPlace made) (.island index, cluster.addend.toInt) [] := if_neg offset
  rw [run_unique run stuck] at last
  simp only [getLast?_singleton, Option.some.injEq, Prod.mk.injEq, reduceCtorEq, false_and] at last

/-- A branch that follows a trail of islands reaches its target within the limit
just when the regions on the trail are close enough together. -/
theorem reaches_trail_iff (some : regions ≠ []) (plain : cluster.addend = 0)
    (addend : (startOf text cluster').2 = cluster.addend.toInt)
    (trail : Trail (kindFor text (targetOf text cluster)) (targetOf text cluster) made
      (startOf text cluster').1 regions.reverse) :
    Reaches text layout made placed cluster cluster' ↔
      InReach text layout placed cluster regions := by
  have zero : cluster.addend.toInt = 0 := by
    rw [plain]
    rfl
  have start : startOf text cluster' = ((startOf text cluster').1, 0) := by
    rw [← zero, ← addend]
  obtain ⟨hops, more, run, last, positions⟩ :=
    trail_run text layout (by rwa [Ne, reverse_eq_nil_iff]) trail
  rw [← start] at run last positions
  unfold InReach
  rw [← positions]
  constructor
  · rintro ⟨hops', run', _, near⟩
    have same := run_unique run run'
    rw [← same] at near
    exact near more
  · intro near
    refine ⟨hops, run, ?_, fun _ => near⟩
    rw [last, zero]

theorem order_kept_unchanged : OrderKept text
    ⟨text.atoms.map fun atom => atom.clusters.map Cluster.toRef, [],
      text.atoms.map fun atom => .atom atom.atom⟩ := by
  constructor
  · rw [filterMap_map]
    exact congrFun filterMap_eq_map text.atoms
  have none : (text.atoms.map fun atom => Ref.atom atom.atom).filterMap islandOf = [] := by
    rw [filterMap_map]
    exact filterMap_eq_nil_iff.mpr fun _ _ => rfl
  rw [none]
  exact List.Perm.nil

section

variable {stubsSize : Nat} (planned : plan text stubsSize = .regions layout)

include planned

theorem order_kept_regions (ran : makeIslands text layout layout.placed [] = some (made, fixups)) :
    OrderKept text ⟨fixups, made,
      if made.length > 0 then insertIslands made layout.placed layout.points 0
      else text.atoms.map fun atom => .atom atom.atom⟩ := by
  obtain ⟨placed, sub⟩ := plan_regions planned
  obtain ⟨_, within, _⟩ := redirected_rule.make_islands layout.placed (fun _ member => member)
    (fun _ member => absurd member not_mem_nil) ran
  have originals : layout.placed.map (fun placed => placed.text.atom) =
      text.atoms.map TextAtom.atom := by
    rw [← assign_offsets_text text.atoms 0, ← placed, List.map_map]
    rfl
  have distinct : (layout.placed.map fun placed => placed.text.atom).Nodup := by
    rw [originals]
    exact text.distinct
  have parts := insert_islands_parts made layout.placed layout.points 0 distinct sub
  constructor
  · dsimp only
    split
    · rw [parts.1, originals]
    · exact order_kept_unchanged.1
  split
  · rw [parts.2]
    exact islands_by_region within
  rename_i none
  have length : made.length = 0 := by omega
  rw [length]
  exact order_kept_unchanged.2

theorem branches_reach_iff
    {result : Result}
    (ran : makeIslands text layout layout.placed [] = some (result.islands, result.fixups)) :
    BranchesReach text layout result ↔ Spaced text stubsSize := by
  obtain ⟨placedIs, _⟩ := plan_regions planned
  have members : ∀ placed ∈ layout.placed, placed.text ∈ text.atoms := by
    intro placed member
    rw [← assign_offsets_text text.atoms 0, ← placedIs]
    exact mem_map_of_mem member
  obtain ⟨_, _, redirected⟩ := redirected_rule.make_islands layout.placed (fun _ member => member)
    (fun _ member => absurd member not_mem_nil) ran
  have trails (plain : Plain text layout) :=
    ((trail_rule (plan_ordered planned) members plain).make_islands layout.placed
      (fun _ member => member) (by simp [Kept]) ran).2.2
  constructor
  · intro reach layout' planned' placed member cluster among branch regions chosen
    rw [← Plan.regions.inj (planned.symm.trans planned')] at member chosen ⊢
    have plain : Plain text layout := by
      intro placed member cluster among branch regions chosen some
      obtain ⟨cluster', pair⟩ := redirected.exists_pair member among
      obtain ⟨index, island⟩ := (redirected.paired pair branch).islands regions chosen some
      exact reaches_island_plain island (reach.paired pair branch)
    obtain ⟨cluster', pair⟩ := redirected.exists_pair member among
    have facts := redirected.paired pair branch
    refine ⟨facts.defined regions chosen, fun some => ?_⟩
    have zero := plain placed member cluster among branch regions chosen some
    refine ⟨zero, ?_⟩
    have addend : (startOf text cluster').2 = cluster.addend.toInt := by
      rw [startOf, facts.addend]
    exact (reaches_trail_iff some zero addend
      ((trails plain).paired pair branch regions chosen some)).mp (reach.paired pair branch)
  · intro spaced
    have plain : Plain text layout := fun placed member cluster among branch regions chosen some =>
      ((spaced layout planned placed member cluster among branch regions chosen).2 some).1
    apply redirected.of_paired
    intro placed cluster cluster' pair branch
    have facts := redirected.paired pair branch
    by_cases direct : ∀ regions, islandRegions text layout placed cluster = some regions →
        regions = []
    · exact reaches_direct (facts.direct direct)
    push Not at direct
    obtain ⟨regions, chosen, some⟩ := direct
    have fine := (spaced layout planned placed pair.member.1 cluster pair.member.2 branch regions
      chosen).2 some
    have addend : (startOf text cluster').2 = cluster.addend.toInt := by
      rw [startOf, facts.addend]
    exact (reaches_trail_iff some fine.1 addend
      ((trails plain).paired pair branch regions chosen some)).mpr fine.2

end

theorem spaced_of_flow_preserved {stubsSize : Nat} (preserved : FlowPreserved text stubsSize) :
    Spaced text stubsSize := by
  unfold FlowPreserved makeIslandsForSection layoutFor at preserved
  cases planned : plan text stubsSize with
  | notNeeded =>
    intro layout planned'
    exact Plan.noConfusion (planned.symm.trans planned')
  | noInsertionPoint =>
    intro layout planned'
    exact Plan.noConfusion (planned.symm.trans planned')
  | regions layout =>
    simp only [planned] at preserved
    cases ran : makeIslands text layout layout.placed [] with
    | none =>
      simp only [ran] at preserved
    | some result =>
      simp only [ran] at preserved
      exact (branches_reach_iff planned ran).mp preserved.2

theorem flow_preserved_of_spaced {stubsSize : Nat} (spaced : Spaced text stubsSize) :
    FlowPreserved text stubsSize := by
  unfold FlowPreserved makeIslandsForSection layoutFor
  cases planned : plan text stubsSize with
  | notNeeded =>
    refine ⟨order_kept_unchanged, ?_⟩
    unfold BranchesReach EachCluster
    have atoms : (sectionLayout text stubsSize).placed.map Placed.text = text.atoms :=
      assign_offsets_text text.atoms 0
    rw [← atoms, List.map_map, forall₂_map_right_iff, forall₂_same]
    intro placed _
    rw [Function.comp_apply, forall₂_map_right_iff, forall₂_same]
    intro cluster _ _
    exact reaches_direct (start_of_to_ref cluster)
  | noInsertionPoint => exact trivial
  | regions layout =>
    obtain ⟨⟨made, fixups⟩, ran⟩ :
        ∃ result, makeIslands text layout layout.placed [] = some result := by
      apply make_islands_defined
      intro placed member cluster among branch regions chosen
      exact (spaced layout planned placed member cluster among branch regions chosen).1
    simp only [ran]
    exact ⟨order_kept_regions planned ran, (branches_reach_iff planned ran).mpr spaced⟩

def plainLinkage : Linkage where
  indirectBindingTable := fun index => index
  isThumb := fun _ => false
  isStub := fun _ => false
  sectionOffset := fun _ => 0
  address := fun _ => 0
  sectionIndex := fun _ => 1

def arm64Options : Options := ⟨.arm64, false, true, false⟩

def branchWithAddend : TextSection arm64Options where
  atoms := [⟨0, 8, 2, 0, false, [⟨0, .arm64Branch26, .directlyBound 3, 8#64⟩]⟩,
    ⟨1, 80 * 1024 * 1024, 2, 0, false, []⟩, ⟨2, 80 * 1024 * 1024, 2, 0, false, []⟩,
    ⟨3, 16, 2, 0, false, []⟩]
  linkage := plainLinkage
  index := 1
  distinct := by decide
  indexed := fun _ _ => rfl
  branches := by decide

end Pass

end DeveloperTools.Ld64.BranchIslands
