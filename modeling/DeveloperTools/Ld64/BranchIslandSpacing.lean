import DeveloperTools.Ld64.BranchIslandsSound

/-!
The regions are close enough together for a branch exactly if, wherever it has more than the limit
left to go, an atom ends within the limit after which islands may go: the pass takes the last such
end before the limit. That is so for sections as compilers make them, with no atom longer than the
limit, islands allowed after each atom, branches without addend to atoms of the section or to
stubs, and not more than a megabyte of stubs. And, for any section, the islands that are made lead
on to their targets.
-/

namespace DeveloperTools.Ld64.BranchIslands

open Cuts
open List Option

section Places

/-- Where the atoms end after which islands may go. -/
def ends (placed : List Placed) : List Int :=
  (placed.filter fun atom => !atom.text.followOn).map fun atom => (atom.finish : Int)

def lastFinish (start : Nat) (placed : List Placed) : Nat :=
  (placed.getLast?.map Placed.finish).getD start

theorem last_finish_cons (start : Nat) (placed : Placed) (rest : List Placed) :
    lastFinish start (placed :: rest) = lastFinish placed.finish rest := by
  unfold lastFinish
  rw [getLast?_cons]
  cases rest.getLast? <;> rfl

variable {k : Nat}

/-- The places for islands that are still known: the last one met, and those to come. -/
def placesFrom (point : Option Placed) (atoms : List Placed) : List Placed :=
  point.toList ++ atoms.filter fun atom => !atom.text.followOn

theorem places_from_next (first : Placed) (rest : List Placed) :
    placesFrom (if first.text.followOn then none else some first) rest =
      placesFrom none (first :: rest) := by
  unfold placesFrom
  cases isFollowed : first.text.followOn <;> simp [isFollowed]

theorem places_from_near {first other : Placed} {rest : List Placed} {point : Option Placed}
    (isIn : other ∈ placesFrom point (first :: rest)) :
    other ∈ placesFrom (if first.text.followOn then point else some first) rest ∨
      other ∈ point.toList ∧
        first ∈ placesFrom (if first.text.followOn then point else some first) rest := by
  unfold placesFrom at isIn ⊢
  cases isFollowed : first.text.followOn with
  | true =>
    left
    simpa [isFollowed] using isIn
  | false =>
    rcases mem_append.mp isIn with met | later
    · exact .inr ⟨met, mem_append_left _ mem_cons_self⟩
    · left
      simpa [isFollowed] using later

theorem insertion_points_free (atoms : List Placed) {previous last : Nat}
    {point final : Option Placed} {points : List Placed}
    (found : insertionPoints k atoms previous point = some (points, last, final))
    (free : ∀ place ∈ point.toList, place.text.followOn = false) :
    ∀ place ∈ points ++ final.toList, place.text.followOn = false := by
  induction atoms generalizing previous point points with
  | nil =>
    simp only [insertionPoints, Option.some.injEq, Prod.mk.injEq] at found
    obtain ⟨rfl, _, rfl⟩ := found
    exact free
  | cons first rest ih =>
    unfold insertionPoints at found
    split at found
    · cases point with
      | none => cases found
      | some point =>
        obtain ⟨⟨points', found'⟩, later, same⟩ := map_eq_some_iff.mp found
        simp only [Prod.mk.injEq] at same
        obtain ⟨rfl, rfl⟩ := same
        refine forall_mem_cons.mpr ⟨free point mem_cons_self, ih later ?_⟩
        intro place isIn
        split at isIn
        · cases isIn
        · rename_i isFree
          rw [mem_singleton.mp isIn]
          simpa using isFree
    · refine ih found ?_
      intro place isIn
      split at isIn
      · exact free place isIn
      · rename_i isFree
        rw [mem_singleton.mp isIn]
        simpa using isFree

/-- A region is taken within the limit where there is a place for it, as long as an atom ends
behind the limit. -/
theorem insertion_points_serve (atoms : List Placed) {previous last : Nat}
    {point final : Option Placed} {points : List Placed}
    (found : insertionPoints k atoms previous point = some (points, last, final))
    (ordered : (point.toList ++ atoms).Pairwise fun first second => first.finish ≤ second.finish)
    {value : Int} (above : previous ≤ value)
    (served : ∃ place ∈ placesFrom point atoms, value < place.finish ∧ place.finish ≤ value + k) :
    (∃ place ∈ points, value < place.finish ∧ place.finish ≤ value + k) ∨
      ((∀ placed ∈ atoms, placed.finish ≤ value + k) ∧ last ≤ value ∧
        ∃ place, final = some place ∧ value < place.finish ∧
          ∀ other ∈ placesFrom point atoms, other.finish ≤ place.finish) := by
  induction atoms generalizing previous point points with
  | nil =>
    simp only [insertionPoints, Option.some.injEq, Prod.mk.injEq] at found
    obtain ⟨rfl, rfl, rfl⟩ := found
    obtain ⟨place, isIn, behind, _⟩ := served
    have isPoint : point = some place := by simpa [placesFrom] using isIn
    refine .inr ⟨fun _ isIn => absurd isIn not_mem_nil, above, place, isPoint, behind, ?_⟩
    intro other isOther
    have same : other = place := by simpa [placesFrom, isPoint] using isOther
    rw [same]
  | cons first rest ih =>
    unfold insertionPoints at found
    split at found
    · cases point with
      | none => cases found
      | some point =>
        obtain ⟨⟨points', found'⟩, later, same⟩ := map_eq_some_iff.mp found
        simp only [Prod.mk.injEq] at same
        obtain ⟨rfl, rfl⟩ := same
        have split := pairwise_cons.mp ordered
        obtain ⟨place, isIn, behind, near⟩ := served
        have isPlace : place = point ∨ place ∈ placesFrom none (first :: rest) := by
          simpa [placesFrom] using isIn
        have upward : ∀ other ∈ placesFrom none (first :: rest), other ∈ first :: rest :=
          fun other isOther => (mem_filter.mp (show other ∈ filter _ _ from isOther)).1
        by_cases before : value < point.finish
        · refine .inl ⟨point, mem_cons_self, before, ?_⟩
          rcases isPlace with rfl | isLater
          · exact near
          · have order := split.1 place (upward place isLater)
            omega
        have isLater : place ∈ placesFrom none (first :: rest) := by
          rcases isPlace with rfl | isLater
          · exact absurd behind before
          · exact isLater
        rw [← places_from_next] at isLater
        have onward : ((if first.text.followOn then none else some first).toList ++
            rest).Pairwise fun first second => first.finish ≤ second.finish := by
          refine split.2.sublist ?_
          split
          · exact sublist_cons_self _ _
          · exact List.Sublist.refl _
        rcases ih later onward (by omega) ⟨place, isLater, behind, near⟩ with
          ⟨region, isRegion, within⟩ | ⟨short, low, final, isFinal, ahead, greatest⟩
        · exact .inl ⟨region, mem_cons_of_mem _ isRegion, within⟩
        · rw [places_from_next] at isLater greatest
          refine .inr ⟨forall_mem_cons.mpr ⟨?_, short⟩, low, final, isFinal, ahead, ?_⟩
          · rcases mem_cons.mp (upward place isLater) with rfl | behindFirst
            · exact near
            · have order := (pairwise_cons.mp split.2).1 place behindFirst
              omega
          · intro other isOther
            have cases : other = point ∨ other ∈ placesFrom none (first :: rest) := by
              simpa [placesFrom] using isOther
            rcases cases with rfl | isLater
            · omega
            · exact greatest other isLater
    · rename_i close
      have order : ∀ other ∈ point.toList, other.finish ≤ first.finish := fun other isOther =>
        (pairwise_append.mp ordered).2.2 other isOther first mem_cons_self
      obtain ⟨place, isIn, behind, near⟩ := served
      have still : ∃ place ∈ placesFrom (if first.text.followOn then point else some first) rest,
          value < place.finish ∧ place.finish ≤ value + k := by
        rcases places_from_near isIn with stays | ⟨met, instead⟩
        · exact ⟨place, stays, behind, near⟩
        · have below := order place met
          exact ⟨first, instead, by omega, by omega⟩
      have onward : ((if first.text.followOn then point else some first).toList ++
          rest).Pairwise fun first second => first.finish ≤ second.finish := by
        refine ordered.sublist ?_
        split
        · exact (sublist_cons_self _ _).append_left _
        · exact sublist_append_right _ _
      rcases ih found onward above still with
        region | ⟨short, low, final, isFinal, ahead, greatest⟩
      · exact .inl region
      · refine .inr ⟨forall_mem_cons.mpr ⟨by omega, short⟩, low, final, isFinal, ahead, ?_⟩
        intro other isOther
        rcases places_from_near isOther with stays | ⟨met, instead⟩
        · exact greatest other stays
        · exact (order other met).trans (greatest first instead)

end Places

section Section

variable {opts : Options} {text : TextSection opts} {stubsSize : Nat} {layout : Layout}

variable (text) in
def limitOf : Nat := maxDistanceBetweenIslands opts (hasThumbBranches text)

variable (text) in
/-- The ends in the section without islands. -/
def textEnds : List Int := ends (assignOffsets text.atoms 0)

variable (text) in
def textFinish : Nat := lastFinish 0 (assignOffsets text.atoms 0)

theorem megabyte_within (text : TextSection opts) : 0x100000 ≤ limitOf text := by
  unfold limitOf maxDistanceBetweenIslands
  split
  · split
    · decide
    · split <;> decide
  · decide
  · decide

variable (planned : plan text stubsSize = .regions layout)
include planned

theorem plan_parts : layout.placed = assignOffsets text.atoms 0 ∧
    layout.kBetweenRegions = limitOf text ∧
    dstAddr text layout = dstAddr text (sectionLayout text stubsSize) ∧
    regionPoints text (assignOffsets text.atoms 0) (limitOf text) = some layout.points := by
  unfold plan at planned
  dsimp only at planned
  split at planned
  · exact Plan.noConfusion planned
  split at planned
  · exact Plan.noConfusion planned
  next points found =>
    rw [← Plan.regions.inj planned]
    exact ⟨rfl, rfl, rfl, found⟩

variable (loaded : opts.preload = false)
include loaded

theorem chosen_points : ∃ points last final,
    insertionPoints (limitOf text) (assignOffsets text.atoms 0) 0 none =
      some (points, last, final) ∧
      withLastPoint (limitOf text) points last final = layout.points := by
  obtain ⟨_, _, _, found⟩ := plan_parts planned
  have within : haveCrossSectionBranches text = false := by
    simp [haveCrossSectionBranches, crossSectionBranch, loaded]
  obtain ⟨⟨points, last, final⟩, inserted, chosen⟩ := map_eq_some_iff.mp found
  simp only [within, Bool.false_and, Bool.false_eq_true, if_false] at chosen
  exact ⟨points, last, final, inserted, chosen⟩

theorem regions_at_ends {key : Int} (isKey : key ∈ regionKeys layout) : key ∈ textEnds text := by
  obtain ⟨points, last, final, inserted, chosen⟩ := chosen_points planned loaded
  obtain ⟨isPlaced, sub⟩ := plan_regions planned
  obtain ⟨place, isIn, rfl⟩ := List.mem_map.mp isKey
  rw [isPlaced] at sub
  refine mem_map_of_mem (mem_filter.mpr ⟨sub.subset isIn, ?_⟩)
  have free := insertion_points_free _ inserted (fun _ none => absurd none not_mem_nil)
  have among : place ∈ points ++ final.toList := by
    rw [← chosen] at isIn
    cases final with
    | none => exact mem_append_left _ isIn
    | some point =>
      simp only [withLastPoint] at isIn
      split at isIn
      · exact isIn
      · exact mem_append_left _ isIn
  rw [free place among]
  rfl

/-- What no region serves is at the end of the section, a megabyte before the limit. -/
theorem regions_serve {value : Int} (nonneg : 0 ≤ value)
    (served : ∃ key ∈ textEnds text, value < key ∧ key ≤ value + limitOf text) :
    (∃ key ∈ regionKeys layout, value < key ∧ key ≤ value + limitOf text) ∨
      (textFinish text ≤ value + limitOf text ∧
        ∀ key ∈ textEnds text, key + 0x100000 ≤ value + limitOf text) := by
  have megabyte := megabyte_within text
  have ordered : (assignOffsets text.atoms 0).Pairwise fun first second =>
      first.finish ≤ second.finish :=
    (assign_offsets_ordered text.atoms 0).imp fun order => order.trans (Nat.le_add_right _ _)
  obtain ⟨points, last, final, inserted, chosen⟩ := chosen_points planned loaded
  have isPlace : ∃ place ∈ placesFrom none (assignOffsets text.atoms 0),
      value < place.finish ∧ place.finish ≤ value + limitOf text := by
    obtain ⟨key, isKey, between⟩ := served
    obtain ⟨place, isIn, rfl⟩ := List.mem_map.mp isKey
    exact ⟨place, isIn, between⟩
  have isRegion {place : Placed} (isIn : place ∈ layout.points) :
      (place.finish : Int) ∈ regionKeys layout := mem_map_of_mem isIn
  rcases insertion_points_serve _ inserted ordered nonneg isPlace with
    ⟨place, isIn, between⟩ | ⟨short, low, place, rfl, ahead, greatest⟩
  · refine .inl ⟨place.finish, isRegion ?_, between⟩
    rw [← chosen]
    cases final with
    | none => exact isIn
    | some point =>
      simp only [withLastPoint]
      split
      · exact mem_append_left _ isIn
      · exact isIn
  have placeIn := (insertion_points_sublist _ 0 none inserted).subset
    (mem_append_right _ mem_cons_self)
  simp only [withLastPoint] at chosen
  split at chosen
  · refine .inl ⟨place.finish, isRegion ?_, ahead, short place placeIn⟩
    rw [← chosen]
    exact mem_append_right _ mem_cons_self
  · rename_i distant
    refine .inr ⟨?_, fun key isKey => ?_⟩
    · unfold textFinish lastFinish
      cases isLast : (assignOffsets text.atoms 0).getLast? with
      | none =>
        simp only [map_none, getD_none]
        omega
      | some last => exact short last (mem_of_getLast? isLast)
    · obtain ⟨other, isIn, rfl⟩ := List.mem_map.mp isKey
      have below := greatest other isIn
      omega

end Section

section Branches

variable {opts : Options} (text : TextSection opts) (stubsSize : Nat)

/-- A branch that is too long, from the lower to the higher end of its way in the section without
islands. -/
structure FarBranch (placed : Placed) (cluster : Cluster Atom) (low high : Int) : Prop where
  member : placed ∈ assignOffsets text.atoms 0
  among : cluster ∈ placed.text.clusters
  branch : cluster.kind ≠ .other
  isLow : low = min (srcAddr text placed cluster)
    (dstAddr text (sectionLayout text stubsSize) (targetOf text cluster) cluster.addend.toInt)
  isHigh : high = max (srcAddr text placed cluster)
    (dstAddr text (sectionLayout text stubsSize) (targetOf text cluster) cluster.addend.toInt)
  far : limitOf text < high - low

/-- A way between places of the section, or to stubs that are at most a megabyte, with islands that
end in a branch. -/
structure UsualWay (target : Atom) (low high : Int) : Prop where
  loaded : opts.preload = false
  hopping : (kindFor text target).hops = true
  start : 0 ≤ low
  finish : high ≤ textFinish text ∨ high ≤ textFinish text + 0x100000 ∧
    ∀ last ∈ (assignOffsets text.atoms 0).getLast?, last.text.followOn = false

def Usual : Prop :=
  ∀ placed cluster low high, FarBranch text stubsSize placed cluster low high →
    UsualWay text (targetOf text cluster) low high

/-- The far branches that pass the end of an atom after which islands may go have no addend, and
wherever one has more than the limit left to go there is such an end within the limit. -/
def WellServed : Prop :=
  ∀ placed cluster low high, FarBranch text stubsSize placed cluster low high →
    (∃ key ∈ textEnds text, low < key ∧ key ≤ high) →
      cluster.addend = 0 ∧ Served (textEnds text) (limitOf text) low high

def Small : Prop :=
  (sectionLayout text stubsSize).totalTextSize <
      textSizeWhenMightNeedBranchIslands opts (hasThumbBranches text) ∧
    ¬ haveCrossSectionBranches text

/-- The atoms from one place for islands to the next are too long, and the link fails. -/
def GivesUp : Prop := insertionPoints (limitOf text) (assignOffsets text.atoms 0) 0 none = none

variable {text stubsSize} {layout : Layout} {placed : Placed} {cluster : Cluster Atom}
  {low high : Int} {regions : List Nat} (planned : plan text stubsSize = .regions layout)
include planned

theorem far_of_regions (member : placed ∈ layout.placed) (among : cluster ∈ placed.text.clusters)
    (branch : cluster.kind ≠ .other)
    (chosen : islandRegions text layout placed cluster = some regions) :
    ∃ low high, FarBranch text stubsSize placed cluster low high := by
  obtain ⟨isPlaced, sameLimit, sameTarget, _⟩ := plan_parts planned
  rw [isPlaced] at member
  refine ⟨_, _, member, among, branch, rfl, rfl, ?_⟩
  unfold islandRegions at chosen
  dsimp only at chosen
  rw [sameTarget, sameLimit] at chosen
  split at chosen
  · omega
  · split at chosen
    · omega
    · split at chosen
      · omega
      · cases chosen

omit planned in
theorem region_position_key (loaded : opts.preload = false) (region : Nat) :
    regionPosition text layout region = keyAt (regionKeys layout) region := by
  rw [regionPosition, keyAt, regionKeys, getElem?_map, loaded]
  cases layout.points[region]? <;> rfl

variable (far : FarBranch text stubsSize placed cluster low high)
include far

/-- The regions between the two ends of a far branch are those it gets islands in. -/
theorem far_regions (loaded : opts.preload = false) :
    let between := range' (cut (regionKeys layout) low)
      (cut (regionKeys layout) high - cut (regionKeys layout) low)
    islandRegions text layout placed cluster =
      some (if srcAddr text placed cluster = low then between.reverse else between) := by
  obtain ⟨_, sameLimit, sameTarget, _⟩ := plan_parts planned
  obtain ⟨_, _, _, rfl, rfl, isFar⟩ := far
  have ordered := plan_ordered planned
  have within : crossSectionBranch text placed.text.atom (targetOf text cluster) = false := by
    rw [crossSectionBranch, loaded, Bool.false_and]
  unfold islandRegions
  dsimp only
  rw [within, regions_between _ ordered, regions_between _ ordered, sameTarget, sameLimit,
    if_neg (by simp)]
  generalize dstAddr text (sectionLayout text stubsSize) (targetOf text cluster)
    cluster.addend.toInt = dst at *
  generalize srcAddr text placed cluster = src at *
  by_cases forward : dst - src > limitOf text
  · have low : min src dst = src := by omega
    have high : max src dst = dst := by omega
    rw [if_pos forward, low, high, if_pos rfl]
  · have low : min src dst = dst := by omega
    have high : max src dst = src := by omega
    rw [if_neg forward, if_pos (by omega), low, high, if_neg (by omega)]

/-- A branch gets no islands exactly if there is no region on its way. -/
theorem far_regions_nil (loaded : opts.preload = false)
    (chosen : islandRegions text layout placed cluster = some regions) :
    regions = [] ↔ ∀ key ∈ regionKeys layout, ¬(low < key ∧ key ≤ high) := by
  rw [far_regions planned far loaded] at chosen
  have none : range' (cut (regionKeys layout) low)
      (cut (regionKeys layout) high - cut (regionKeys layout) low) = [] ↔
        ∀ key ∈ regionKeys layout, ¬(low < key ∧ key ≤ high) := by
    rw [← map_eq_nil_iff, keys_between (plan_ordered planned), filter_eq_nil_iff]
    simp only [decide_eq_true_iff]
  cases chosen
  split
  · rw [reverse_eq_nil_iff, none]
  · exact none

variable (usual : UsualWay text (targetOf text cluster) low high)
include usual

/-- A branch keeps within the limit over its regions exactly if they serve its way. -/
theorem in_reach_iff (plain : cluster.addend = 0)
    (chosen : islandRegions text layout placed cluster = some regions) :
    InReach text layout placed cluster regions ↔
      Served (regionKeys layout) (limitOf text) low high := by
  have zero : cluster.addend.toInt = 0 := by
    rw [plain]
    rfl
  obtain ⟨_, sameLimit, sameTarget, _⟩ := plan_parts planned
  have ordered := plan_ordered planned
  have isFar := far.far
  have isLow := far.isLow
  have isHigh := far.isHigh
  have positions (regions : List Nat) : regions.map (regionPosition text layout) =
      regions.map (keyAt (regionKeys layout)) :=
    map_congr_left fun region _ => region_position_key usual.loaded region
  rw [far_regions planned far usual.loaded] at chosen
  rw [zero] at isLow isHigh
  rw [InReach, entered, if_pos usual.hopping, positions, sameTarget, sameLimit, ← served_between,
    ← near_chain_iff (ordered.filter _) (Int.natCast_nonneg _) (by omega) (by
      intro key isIn
      have between := of_decide_eq_true (mem_filter.mp isIn).2
      omega),
    ← keys_between ordered]
  generalize dstAddr text (sectionLayout text stubsSize) (targetOf text cluster) 0 = dst at *
  cases chosen
  split
  · rename_i forward
    rw [reverse_reverse, forward, show dst = high by omega]
  · rename_i backward
    rw [← near_chain_turned, show srcAddr text placed cluster = high by omega,
      show dst = low by omega]
    simp

/-- Before the end of its way a region is taken wherever there is a place for it. -/
theorem usual_region {value : Int} (above : low ≤ value) (more : value + limitOf text < high)
    (served : ∃ key ∈ textEnds text, value < key ∧ key ≤ value + limitOf text) :
    ∃ key ∈ regionKeys layout, value < key ∧ key ≤ value + limitOf text := by
  have start := usual.start
  rcases regions_serve planned usual.loaded (by omega) served with region | ⟨short, before⟩
  · exact region
  rcases usual.finish with inside | ⟨inside, free⟩
  · omega
  cases isLast : (assignOffsets text.atoms 0).getLast? with
  | none =>
    have member := far.member
    rw [getLast?_eq_none_iff.mp isLast] at member
    cases member
  | some last =>
    have isEnd : (last.finish : Int) ∈ textEnds text := by
      refine mem_map_of_mem (mem_filter.mpr ⟨mem_of_getLast? isLast, ?_⟩)
      rw [free last isLast]
      rfl
    have room := before _ isEnd
    rw [textFinish, lastFinish, isLast, map_some, getD_some] at inside
    omega

theorem passes_region (passes : ∃ key ∈ textEnds text, low < key ∧ key ≤ high) :
    ∃ key ∈ regionKeys layout, low < key ∧ key ≤ high := by
  obtain ⟨key, isEnd, behind, within⟩ := passes
  have isFar := far.far
  have start := usual.start
  have megabyte := megabyte_within text
  by_cases near : key ≤ low + limitOf text
  · obtain ⟨region, isRegion, above, below⟩ :=
      usual_region planned far usual (le_refl _) (by omega) ⟨key, isEnd, behind, near⟩
    exact ⟨region, isRegion, above, by omega⟩
  · have nonneg : 0 ≤ key - limitOf text := by omega
    rcases regions_serve planned usual.loaded nonneg ⟨key, isEnd, by omega, by omega⟩ with
      ⟨region, isRegion, above, below⟩ | ⟨_, before⟩
    · exact ⟨region, isRegion, by omega, by omega⟩
    · have room := before key isEnd
      omega

omit far usual

theorem spaced_iff (usual : Usual text stubsSize) :
    Spaced text stubsSize ↔ WellServed text stubsSize := by
  constructor
  · intro spaced placed cluster low high far passes
    have way := usual placed cluster low high far
    have chosen := far_regions planned far way.loaded
    obtain ⟨region, isRegion, between⟩ := passes_region planned far way passes
    have some := mt (far_regions_nil planned far way.loaded chosen).mp
      fun none => none region isRegion between
    have member := far.member
    rw [← (plan_parts planned).1] at member
    obtain ⟨plain, reach⟩ :=
      (spaced _ planned placed member cluster far.among far.branch _ chosen).2 some
    refine ⟨plain, fun value above more => ?_⟩
    obtain ⟨key, isKey, within⟩ :=
      (in_reach_iff planned far way plain chosen).mp reach value above more
    exact ⟨key, regions_at_ends planned way.loaded isKey, within⟩
  · intro served layout' planned' placed member cluster among branch regions chosen
    rw [← Plan.regions.inj (planned.symm.trans planned')] at member chosen ⊢
    obtain ⟨low, high, far⟩ := far_of_regions planned member among branch chosen
    have way := usual placed cluster low high far
    have empty := far_regions_nil planned far way.loaded chosen
    constructor
    · rintro ⟨only, none⟩
      have keys : regionKeys layout = [] := by rw [regionKeys, none, map_nil]
      rw [keys] at empty
      rw [empty.mpr (fun _ isIn => absurd isIn not_mem_nil)] at only
      cases only
    · intro some
      have passes : ∃ key ∈ textEnds text, low < key ∧ key ≤ high := by
        by_contra stays
        refine some (empty.mpr fun key isKey between => stays ?_)
        exact ⟨key, regions_at_ends planned way.loaded isKey, between⟩
      obtain ⟨plain, serves⟩ := served placed cluster low high far passes
      refine ⟨plain, (in_reach_iff planned far way plain chosen).mpr fun value above more => ?_⟩
      exact usual_region planned far way above more (serves value above more)

omit planned

theorem flow_preserved_of_served (usual : Usual text stubsSize)
    (served : WellServed text stubsSize) : FlowPreserved text stubsSize :=
  flow_preserved_of_spaced fun layout planned =>
    (spaced_iff planned usual).mpr served layout planned

variable (text stubsSize) in
theorem plan_cases : plan text stubsSize = .notNeeded ∧ Small text stubsSize ∨
    plan text stubsSize = .noInsertionPoint ∧ GivesUp text ∨
    ∃ layout, plan text stubsSize = .regions layout ∧ ¬Small text stubsSize ∧ ¬GivesUp text := by
  simp only [plan]
  split
  next small => exact .inl ⟨rfl, small⟩
  next big =>
    split
    next given => exact .inr (.inl ⟨rfl, Option.map_eq_none_iff.mp given⟩)
    next points given =>
      refine .inr (.inr ⟨_, rfl, big, fun givesUp => ?_⟩)
      cases given.symm.trans (Option.map_eq_none_iff.mpr givesUp)

end Branches

section Ordinary

variable {opts : Options} {text : TextSection opts} {stubsSize : Nat}

structure Ordinary (text : TextSection opts) (stubsSize : Nat) : Prop where
  loaded : opts.preload = false
  hopping : ∀ target, (kindFor text target).hops = true
  free : ∀ atom ∈ text.atoms, atom.followOn = false
  short : ∀ atom ∈ text.atoms, atom.size + (atom.modulus + 2 ^ atom.powerOf2) ≤
    maxDistanceBetweenIslands opts (hasThumbBranches text)
  branches : ∀ atom ∈ text.atoms, ∀ cluster ∈ atom.clusters, cluster.kind ≠ .other →
    cluster.addend = 0 ∧ cluster.offsetInAtom ≤ atom.size ∧
      (text.linkage.isStub (targetOf text cluster) = true ∨
        targetOf text cluster ∈ text.atoms.map TextAtom.atom)
  stubs : stubsSize ≤ 0x100000

/-- Where short atoms go on, one of them ends within the limit. -/
theorem assign_offsets_serve (atoms : List TextAtom) {offset k : Nat}
    (short : ∀ text ∈ atoms, text.size + (text.modulus + 2 ^ text.powerOf2) ≤ k) {value : Int}
    (above : offset ≤ value) (below : value < lastFinish offset (assignOffsets atoms offset)) :
    ∃ placed ∈ assignOffsets atoms offset, value < placed.finish ∧ placed.finish ≤ value + k := by
  induction atoms generalizing offset with
  | nil =>
    have none : lastFinish offset (assignOffsets [] offset) = offset := rfl
    omega
  | cons text rest ih =>
    have high : alignAtom text offset ≤ offset + (text.modulus + 2 ^ text.powerOf2) := by
      unfold alignAtom
      dsimp only
      split
      · split <;> omega
      · omega
    have size := short text mem_cons_self
    rw [assignOffsets] at below ⊢
    rw [last_finish_cons] at below
    have isFinish : Placed.finish ⟨text, alignAtom text offset⟩ =
        alignAtom text offset + text.size := rfl
    by_cases here : value < Placed.finish ⟨text, alignAtom text offset⟩
    · exact ⟨_, mem_cons_self, here, by omega⟩
    · obtain ⟨placed, isIn, between⟩ := ih (fun other isIn => short other (.tail _ isIn))
        (by omega) below
      exact ⟨placed, .tail _ isIn, between⟩

theorem finish_le_last {atoms : List Placed} (start : Nat)
    (ordered : atoms.Pairwise fun first second => first.finish ≤ second.offset) {placed : Placed}
    (isIn : placed ∈ atoms) : placed.finish ≤ lastFinish start atoms := by
  induction atoms generalizing start with
  | nil => cases isIn
  | cons first rest ih =>
    rw [pairwise_cons] at ordered
    rw [last_finish_cons]
    rcases mem_cons.mp isIn with rfl | later
    · unfold lastFinish
      cases isLast : rest.getLast? with
      | none => exact Nat.le_refl _
      | some last =>
        have order := ordered.1 last (mem_of_getLast? isLast)
        exact order.trans (Nat.le_add_right _ _)
    · exact ih _ ordered.2 later

section

variable (ordinary : Ordinary text stubsSize)
include ordinary

theorem ordinary_far_plain {placed : Placed} {cluster : Cluster Atom} {low high : Int}
    (far : FarBranch text stubsSize placed cluster low high) :
    cluster.addend = 0 ∧ 0 ≤ low ∧ high ≤ textFinish text + 0x100000 := by
  have texts := assign_offsets_text text.atoms 0
  have below {atom : Placed} (isIn : atom ∈ assignOffsets text.atoms 0) :
      atom.offset + atom.text.size ≤ textFinish text :=
    finish_le_last 0 (assign_offsets_ordered text.atoms 0) isIn
  have own : placed.text ∈ text.atoms := by
    rw [← texts]
    exact mem_map_of_mem far.member
  obtain ⟨plain, inAtom, target⟩ := ordinary.branches _ own cluster far.among far.branch
  have zero : cluster.addend.toInt = 0 := by
    rw [plain]
    rfl
  have source : srcAddr text placed cluster = placed.offset + cluster.offsetInAtom := by
    rw [srcAddr, ordinary.loaded, if_neg Bool.false_ne_true]
  have sourceBelow := below far.member
  have stubs := ordinary.stubs
  refine ⟨plain, ?_⟩
  rw [far.isLow, far.isHigh, zero, source, dstAddr]
  split
  · have total : (sectionLayout text stubsSize).totalTextSize = textFinish text + stubsSize := rfl
    omega
  · rename_i notStub
    have inside := target.resolve_left notStub
    rw [← texts, List.map_map] at inside
    obtain ⟨there, thereMember, is⟩ := List.mem_map.mp inside
    obtain ⟨here, hereIs⟩ : ∃ here, (sectionLayout text stubsSize).placed.find?
        (fun placed => placed.text.atom = targetOf text cluster) = some here := by
      apply isSome_iff_exists.mp
      rw [find?_isSome]
      exact ⟨there, thereMember, by simpa using is⟩
    have targetBelow := below (mem_of_find?_eq_some hereIs)
    rw [positionOf, ordinary.loaded, if_neg Bool.false_ne_true, sectionOffsetOf, hereIs, map_some,
      getD_some]
    omega

theorem ordinary_free : ∀ placed ∈ assignOffsets text.atoms 0, placed.text.followOn = false := by
  intro placed isIn
  refine ordinary.free _ ?_
  rw [← assign_offsets_text text.atoms 0]
  exact mem_map_of_mem isIn

theorem usual_of_ordinary : Usual text stubsSize := by
  intro placed cluster low high far
  obtain ⟨_, start, finish⟩ := ordinary_far_plain ordinary far
  refine ⟨ordinary.loaded, ordinary.hopping _, start, .inr ⟨finish, fun last isLast => ?_⟩⟩
  exact ordinary_free ordinary last (mem_of_getLast? isLast)

theorem served_of_ordinary : WellServed text stubsSize := by
  intro placed cluster low high far _
  obtain ⟨plain, start, finish⟩ := ordinary_far_plain ordinary far
  have megabyte := megabyte_within text
  refine ⟨plain, fun value above more => ?_⟩
  have begins : ((0 : Nat) : Int) ≤ value := by omega
  have goesOn : value < textFinish text := by omega
  obtain ⟨atom, isIn, between⟩ := assign_offsets_serve text.atoms ordinary.short begins goesOn
  refine ⟨atom.finish, mem_map_of_mem (mem_filter.mpr ⟨isIn, ?_⟩), between⟩
  rw [ordinary_free ordinary atom isIn]
  rfl

theorem flow_preserved_of_ordinary : FlowPreserved text stubsSize :=
  flow_preserved_of_served (usual_of_ordinary ordinary) (served_of_ordinary ordinary)

end

end Ordinary

/-- The first atom calls the last one, past two regions. -/
def farBranch : TextSection arm64Options where
  atoms := [⟨0, 80 * 1024 * 1024, 2, 0, false, [⟨0, .arm64Branch26, .directlyBound 2, 0#64⟩]⟩,
    ⟨1, 80 * 1024 * 1024, 2, 0, false, []⟩, ⟨2, 80 * 1024 * 1024, 2, 0, false, []⟩]
  linkage := plainLinkage
  index := 1
  distinct := by decide
  indexed := fun _ _ => rfl
  branches := by decide

theorem far_branch_done : ∃ result, makeIslandsForSection farBranch 0 = .done result ∧
    result.islands.length = 2 ∧ result.order = [.atom 0, .island 1, .atom 1, .island 0, .atom 2] := by
  refine ⟨_, rfl, ?_, ?_⟩ <;> decide +kernel

theorem far_branch_ordinary : Ordinary farBranch 0 :=
  ⟨rfl, fun _ => rfl, by decide, by decide, by decide, by decide⟩

theorem far_branch_preserved : FlowPreserved farBranch 0 ∧ ∃ result,
    makeIslandsForSection farBranch 0 = .done result ∧
      result.order = [.atom 0, .island 1, .atom 1, .island 0, .atom 2] := by
  obtain ⟨result, done, _, order⟩ := far_branch_done
  exact ⟨flow_preserved_of_ordinary far_branch_ordinary, result, done, order⟩

section Linked

variable {made : List Island} {final : TargetAndOffset}

/-- A place from which the islands lead to a target. -/
def Leads (made : List Island) (final : TargetAndOffset) : Ref → Prop
  | .atom atom => atom = final.atom
  | .island index => ∃ island, made[index]? = some island ∧ island.finalTarget = final

/-- Each island is for a region and a target of its own, and goes on to the target or to an
island for it that was made before. -/
inductive Linked : List Island → Prop
  | nil : Linked []
  | snoc {made : List Island} {island : Island} : Linked made →
      Leads made island.finalTarget island.nextTarget →
      (∀ other ∈ made, ¬ (other.region = island.region ∧ other.finalTarget = island.finalTarget)) →
      Linked (made ++ [island])

theorem island_in_linked (kind : IslandKind) {next : Ref} (region : Nat) (linked : Linked made)
    (leads : Leads made final next) :
    made <+: (islandIn kind final made next region).1 ∧
      Linked (islandIn kind final made next region).1 ∧
      Leads (islandIn kind final made next region).1 final
        (islandIn kind final made next region).2 := by
  unfold islandIn
  split
  next index found =>
    obtain ⟨inside, holds, _⟩ := findIdx?_eq_some_iff_getElem.mp found
    refine ⟨prefix_refl _, linked, made[index], getElem?_eq_getElem inside, ?_⟩
    exact (of_decide_eq_true holds).2
  next none =>
    refine ⟨prefix_append _ _, .snoc linked leads ?_, _, getElem?_concat_length, rfl⟩
    intro other isIn same
    have differs := findIdx?_eq_none_iff.mp none other isIn
    exact of_decide_eq_false differs same

theorem island_chain_linked (kind : IslandKind) (regions : List Nat) {next : Ref}
    (linked : Linked made) (leads : Leads made final next) :
    made <+: (islandChain kind final regions made next).1 ∧
      Linked (islandChain kind final regions made next).1 := by
  induction regions generalizing made next with
  | nil => exact ⟨prefix_refl _, linked⟩
  | cons region rest ih =>
    obtain ⟨grown, linked, leads⟩ := island_in_linked kind region linked leads
    obtain ⟨grown', linked'⟩ := ih linked leads
    exact ⟨grown.trans grown', linked'⟩

variable {opts : Options} {text : TextSection opts} {layout : Layout}

theorem linked_rule : BranchRule text layout Linked fun _ _ _ _ => True where
  grown _ _ _ _ _ _ _ := trivial
  step placed _ cluster _ made made' cluster' linked ran := by
    by_cases branch : cluster.kind = .other
    · rw [redirect, if_pos branch] at ran
      cases ran
      exact ⟨prefix_refl _, linked, trivial⟩
    rcases redirect_branch branch ran with ⟨_, rfl, _⟩ | ⟨regions, _, _, _, chain⟩
    · exact ⟨prefix_refl _, linked, trivial⟩
    · have start : Leads made ⟨targetOf text cluster, cluster.addend.setWidth 32⟩
          (.atom (targetOf text cluster)) := rfl
      obtain ⟨grown, still⟩ := island_chain_linked
        (islandKind opts cluster.kind (text.linkage.isThumb (targetOf text cluster))
          (crossSectionBranch text placed.text.atom (targetOf text cluster))) regions linked start
      rw [← chain] at grown still
      exact ⟨grown, still, trivial⟩

theorem islands_linked (text : TextSection opts) {stubsSize : Nat} {result : Result}
    (done : makeIslandsForSection text stubsSize = .done result) : Linked result.islands := by
  unfold makeIslandsForSection at done
  split at done
  · cases done
    exact .nil
  · cases done
  split at done
  · cases done
  rename_i made fixups ran
  cases done
  exact (linked_rule.make_islands _ (fun _ isIn => isIn) .nil ran).2.1

theorem far_islands_linked : ∃ result, makeIslandsForSection farBranch 0 = .done result ∧
    result.islands.length = 2 ∧ Linked result.islands := by
  obtain ⟨result, done, two, _⟩ := far_branch_done
  exact ⟨result, done, two, islands_linked _ done⟩

end Linked

end DeveloperTools.Ld64.BranchIslands
