import DeveloperTools.Ld64.BranchIslands
import DeveloperTools.Lib.Cuts

/-!
Where a branch leads after the pass. Islands are shared: the island of a region
for a target may have been made for an earlier branch. What makes sharing work
is that the way from a region to a target depends on nothing but the two, so an
island found in a region's map goes on as a new one would.
-/

namespace DeveloperTools.Ld64.BranchIslands

open Cuts Walk
open List

abbrev Place := Ref × Int

/-- The islands that end in a branch go on to their next target; the others load
the address of the final one, of which two kinds leave the offset out. -/
def leadsTo (island : Island) : Place :=
  match island.kind with
  | .arm64 | .armToArm | .thumb2ToThumb => (island.nextTarget, 0)
  | .thumb1ToThumb => (.atom island.finalTarget.atom, island.finalTarget.offset.toInt)
  | .noPicThumb1ToThumb | .thumb2ToThumbAbsolute => (.atom island.finalTarget.atom, 0)

/-- An island is entered at its start only. -/
def nextPlace (islands : List Island) : Place → Option Place
  | (.island index, offset) => if offset = 0 then (islands[index]?).map leadsTo else none
  | (.atom _, _) => none

def IslandKind.hops : IslandKind → Bool
  | .arm64 | .armToArm | .thumb2ToThumb => true
  | .thumb1ToThumb | .noPicThumb1ToThumb | .thumb2ToThumbAbsolute => false

section Positions

variable {opts : Options} (text : TextSection opts) (layout : Layout)

def regionPosition (region : Nat) : Int :=
  ((layout.points[region]?).map fun point =>
    ((if opts.preload then text.linkage.address point.text.atom else point.offset) +
      point.text.size : Int)).getD 0

def placeAt (islands : List Island) : Place → Int
  | (.atom atom, offset) => dstAddr text layout atom offset
  | (.island index, offset) =>
    ((islands[index]?).map fun island => regionPosition text layout island.region).getD 0 + offset

def startOf (cluster : Cluster Ref) : Place :=
  (cluster.binding.resolve fun index => .atom (text.linkage.indirectBindingTable index),
    cluster.addend.toInt)

/-- A branch ends at its original target plus addend, and if it goes through
islands no hop is longer than the limit. -/
def Reaches (islands : List Island) (placed : Placed) (cluster : Cluster Atom)
    (cluster' : Cluster Ref) : Prop :=
  ∃ hops, Run (nextPlace islands) (startOf text cluster') hops ∧
    (startOf text cluster' :: hops).getLast? =
      some (.atom (targetOf text cluster), cluster.addend.toInt) ∧
    (hops ≠ [] → List.IsChain (Near layout.kBetweenRegions)
      (srcAddr text placed cluster ::
        (startOf text cluster' :: hops).map (placeAt text layout islands)))

end Positions

/-- From a reference through islands for the target in these regions to the
target. -/
def Trail (kind : IslandKind) (target : Atom) (made : List Island) : Ref → List Nat → Prop
  | ref, [] => ref = .atom target
  | ref, region :: rest => ∃ index next, ref = .island index ∧
      made[index]? = some ⟨kind, region, next, ⟨target, 0#32⟩⟩ ∧ Trail kind target made next rest

variable {island : Island} {index : Nat}

variable {regions : List Nat} {ref : Ref}

theorem trail_grown {kind : IslandKind} {target : Atom} {made made' : List Island}
    (grown : made <+: made') (trail : Trail kind target made ref regions) :
    Trail kind target made' ref regions := by
  induction regions generalizing ref with
  | nil => exact trail
  | cons region rest ih =>
    obtain ⟨index, next, is, here, later⟩ := trail
    refine ⟨index, next, is, ?_, ih later⟩
    obtain ⟨more, rfl⟩ := grown
    exact List.getElem?_append_left (List.getElem?_eq_some_iff.mp here).1 ▸ here

/-- Every island made so far is on the way of its region and target. -/
def Kept (kindOf : Atom → IslandKind) (route : Atom → Nat → List Nat) (made : List Island) : Prop :=
  ∀ index island, made[index]? = some island →
    Trail (kindOf island.finalTarget.atom) island.finalTarget.atom made (.island index)
      (route island.finalTarget.atom island.region)

section Chains

variable {kindOf : Atom → IslandKind} {route : Atom → Nat → List Nat} {made : List Island}
  {target : Atom}

variable (kindOf route made target) in
def Added (result : List Island × Ref) (regions : List Nat) : Prop :=
  made <+: result.1 ∧ Kept kindOf route result.1 ∧
    Trail (kindOf target) target result.1 result.2 regions

theorem island_in_trail (kept : Kept kindOf route made) {next : Ref}
    (trail : Trail (kindOf target) target made next regions) {region : Nat}
    (way : route target region = region :: regions) :
    Added kindOf route made target (islandIn (kindOf target) ⟨target, 0#32⟩ made next region)
      (region :: regions) := by
  unfold islandIn
  split
  next index found =>
    obtain ⟨inside, same, _⟩ := List.findIdx?_eq_some_iff_getElem.mp found
    rw [decide_eq_true_iff] at same
    have there := kept index _ (getElem?_eq_getElem inside)
    rw [same.1, same.2, way] at there
    exact ⟨prefix_refl _, kept, there⟩
  · have grown : made <+: made ++ [⟨kindOf target, region, next, ⟨target, 0#32⟩⟩] :=
      prefix_append _ _
    have added : Trail (kindOf target) target
        (made ++ [⟨kindOf target, region, next, ⟨target, 0#32⟩⟩]) (.island made.length)
        (region :: regions) :=
      ⟨made.length, next, rfl, getElem?_concat_length, trail_grown grown trail⟩
    refine ⟨grown, ?_, added⟩
    intro index island here
    rcases Nat.lt_or_ge index made.length with old | new
    · rw [getElem?_append_left old] at here
      exact trail_grown grown (kept index island here)
    have last : index = made.length := by
      have := (List.getElem?_eq_some_iff.mp here).1
      rw [length_append, length_singleton] at this
      omega
    rw [last, getElem?_concat_length] at here
    rw [last, ← Option.some.inj here]
    rw [way]
    exact added

/-- The ways of the regions of a list, each through the one before it. -/
def Steps (way : Nat → List Nat) : List Nat → List Nat → Prop
  | _, [] => True
  | behind, region :: rest => way region = region :: behind ∧ Steps way (region :: behind) rest

theorem island_chain_trail (regions : List Nat) (kept : Kept kindOf route made) {next : Ref}
    {behind : List Nat} (trail : Trail (kindOf target) target made next behind)
    (steps : Steps (route target) behind regions) :
    Added kindOf route made target (islandChain (kindOf target) ⟨target, 0#32⟩ regions made next)
      (regions.reverse ++ behind) := by
  induction regions generalizing made next behind with
  | nil => exact ⟨prefix_refl _, kept, trail⟩
  | cons region rest ih =>
    obtain ⟨grown, kept', trail'⟩ := island_in_trail kept trail steps.1
    obtain ⟨grown', kept'', trail''⟩ := ih kept' trail' steps.2
    refine ⟨grown.trans grown', kept'', ?_⟩
    rw [reverse_cons, append_assoc]
    exact trail''

theorem island_chain_island (kind : IslandKind) (final : TargetAndOffset) (some : regions ≠ [])
    (made : List Island) (next : Ref) :
    ∃ index, (islandChain kind final regions made next).2 = .island index := by
  induction regions generalizing made next with
  | nil => exact absurd rfl some
  | cons region rest ih =>
    cases rest with
    | nil =>
      change ∃ index, (islandIn kind final made next region).2 = .island index
      unfold islandIn
      split
      · exact ⟨_, rfl⟩
      · exact ⟨_, rfl⟩
    | cons other rest => exact ih (cons_ne_nil _ _) _ _

end Chains

section Walking

variable {opts : Options} (text : TextSection opts) (layout : Layout) {kind : IslandKind}
  {target : Atom} {made : List Island}

theorem leads_to_next (hops : kind.hops = true) (region : Nat) (next : Ref)
    (final : TargetAndOffset) : leadsTo ⟨kind, region, next, final⟩ = (next, 0) := by
  cases kind
  case arm64 => rfl
  case armToArm => rfl
  case thumb2ToThumb => rfl
  all_goals exact Bool.noConfusion hops

theorem leads_to_target (direct : kind.hops = false) (region : Nat) (next : Ref) (target : Atom) :
    leadsTo ⟨kind, region, next, ⟨target, 0#32⟩⟩ = (.atom target, 0) := by
  cases kind
  case thumb1ToThumb => rfl
  case noPicThumb1ToThumb => rfl
  case thumb2ToThumbAbsolute => rfl
  all_goals exact Bool.noConfusion direct

theorem next_of_island (here : made[index]? = some island) :
    nextPlace made (.island index, 0) = some (leadsTo island) := by
  rw [nextPlace, if_pos rfl, here]
  rfl

theorem place_of_island (here : made[index]? = some island) :
    placeAt text layout made (.island index, 0) = regionPosition text layout island.region := by
  rw [placeAt, here]
  exact Int.add_zero _

def entered (kind : IslandKind) (regions : List Nat) : List Nat :=
  if kind.hops then regions else regions.take 1

theorem hopping_run (hopping : kind.hops = true) (trail : Trail kind target made ref regions) :
    ∃ hops, Run (nextPlace made) (ref, 0) hops ∧
      ((ref, 0) :: hops).getLast? = some (.atom target, 0) ∧
      ((ref, 0) :: hops).map (placeAt text layout made) =
        regions.map (regionPosition text layout) ++ [dstAddr text layout target 0] := by
  induction regions generalizing ref with
  | nil =>
    have here : ref = .atom target := trail
    rw [here]
    exact ⟨[], rfl, rfl, rfl⟩
  | cons region rest ih =>
    obtain ⟨index, next, is, here, later⟩ := trail
    obtain ⟨hops, run, last, positions⟩ := ih later
    have step := next_of_island here
    rw [leads_to_next hopping] at step
    rw [is]
    refine ⟨(next, 0) :: hops, ⟨step, run⟩, ?_, ?_⟩
    · rw [getLast?_cons_cons]
      exact last
    · rw [map_cons, place_of_island text layout here, positions]
      rfl

theorem trail_run (some : regions ≠ []) (trail : Trail kind target made ref regions) :
    ∃ hops, hops ≠ [] ∧ Run (nextPlace made) (ref, 0) hops ∧
      ((ref, 0) :: hops).getLast? = Option.some (.atom target, 0) ∧
      ((ref, 0) :: hops).map (placeAt text layout made) =
        (entered kind regions).map (regionPosition text layout) ++
          [dstAddr text layout target 0] := by
  by_cases hopping : kind.hops = true
  · obtain ⟨hops, run, last, positions⟩ := hopping_run text layout hopping trail
    refine ⟨hops, ?_, run, last, ?_⟩
    · intro none
      rw [none] at positions
      have lengths := congrArg length positions
      rw [length_append, length_map, length_map, length_singleton, length_singleton] at lengths
      have := length_pos_iff.mpr some
      omega
    · rw [entered, if_pos hopping]
      exact positions
  · rw [Bool.not_eq_true] at hopping
    cases regions with
    | nil => exact absurd rfl some
    | cons region rest =>
      obtain ⟨index, next, is, here, _⟩ := trail
      have step := next_of_island here
      rw [leads_to_target hopping] at step
      rw [is]
      refine ⟨[(.atom target, 0)], cons_ne_nil _ _, ⟨step, rfl⟩, rfl, ?_⟩
      rw [map_cons, place_of_island text layout here, entered, hopping]
      rfl

end Walking

section Routes

variable {opts : Options} (text : TextSection opts) (layout : Layout)

def crosses (target : Atom) : Bool := opts.preload && text.index != text.linkage.sectionIndex target

def kindFor (target : Atom) : IslandKind :=
  islandKind opts (if opts.architecture = .arm then .armBranch24 else .arm64Branch26)
    (text.linkage.isThumb target) (crosses text target)

def regionKeys : List Int := layout.points.map fun point => (point.finish : Int)

/-- The regions from a region on to a target, in the order islands are passed. -/
def route (target : Atom) (region : Nat) : List Nat :=
  let behind := cut (regionKeys layout) (dstAddr text layout target 0)
  if crosses text target then [0]
  else if region < behind then List.range' region (behind - region)
  else (List.range' behind (region - behind + 1)).reverse

theorem steps_forward (way : Nat → List Nat) (last : Nat)
    (forward : ∀ region < last, way region = range' region (last - region)) (count first : Nat)
    (within : first + count ≤ last) :
    Steps way (range' (first + count) (last - (first + count))) (range' first count).reverse := by
  induction count with
  | zero => exact trivial
  | succ count ih =>
    have way' : way (first + count) =
        (first + count) :: range' (first + (count + 1)) (last - (first + (count + 1))) := by
      have length : last - (first + count) = last - (first + (count + 1)) + 1 := by omega
      rw [forward _ (by omega), length, range'_succ]
      rfl
    rw [range'_1_concat, reverse_append]
    refine ⟨way', ?_⟩
    rw [← way', forward _ (by omega)]
    exact ih (by omega)

theorem steps_backward (way : Nat → List Nat) (low : Nat)
    (backward : ∀ region, low ≤ region →
      way region = (range' low (region - low + 1)).reverse) (count first : Nat)
    (above : low ≤ first) :
    Steps way (range' low (first - low)).reverse (range' first count) := by
  induction count generalizing first with
  | zero => exact trivial
  | succ count ih =>
    have way' : way first = first :: (range' low (first - low)).reverse := by
      rw [backward first above, range'_1_concat, reverse_append, Nat.add_sub_cancel' above]
      rfl
    refine ⟨way', ?_⟩
    have next := ih (first + 1) (by omega)
    have length : first + 1 - low = first - low + 1 := by omega
    rw [length, ← backward first above, way'] at next
    exact next

variable (ordered : (regionKeys layout).Pairwise (· ≤ ·))
include ordered

theorem region_address_le_iff (value : Int) {region : Nat} (inside : region < layout.points.length) :
    regionAddress layout region ≤ value ↔ region < cut (regionKeys layout) value := by
  have place : region < (regionKeys layout).length := by
    rw [regionKeys, length_map]
    exact inside
  have key : (regionKeys layout)[region] = layout.points[region].finish := getElem_map _
  rw [← le_iff_lt_cut ordered value place, key, regionAddress, getElem?_eq_getElem inside]
  rfl

theorem regions_between (low high : Int) :
    (range layout.points.length).filter (fun region =>
        low < regionAddress layout region ∧ regionAddress layout region ≤ high) =
      range' (cut (regionKeys layout) low)
        (cut (regionKeys layout) high - cut (regionKeys layout) low) := by
  have within : cut (regionKeys layout) high ≤ layout.points.length := by
    have := cut_le (regionKeys layout) high
    rwa [regionKeys, length_map] at this
  rw [← range_between within]
  apply filter_congr
  intro region member
  have inside := mem_range.mp member
  have low' := region_address_le_iff layout ordered low inside
  have high' := region_address_le_iff layout ordered high inside
  rw [decide_eq_decide]
  omega

variable {cluster : Cluster Atom}

theorem island_regions_cases {placed : Placed} (member : placed.text ∈ text.atoms)
    (chosen : islandRegions text layout placed cluster = some regions) :
    let keys := regionKeys layout
    let src := srcAddr text placed cluster
    let dst := dstAddr text layout (targetOf text cluster) cluster.addend.toInt
    (crosses text (targetOf text cluster) = true ∧ regions = [0]) ∨
      (crosses text (targetOf text cluster) = false ∧
        (regions = (range' (cut keys src) (cut keys dst - cut keys src)).reverse ∨
          regions = range' (cut keys dst) (cut keys src - cut keys dst))) := by
  intro keys src dst
  have crossing : crossSectionBranch text placed.text.atom (targetOf text cluster) =
      crosses text (targetOf text cluster) := by
    rw [crossSectionBranch, crosses, text.indexed _ member]
  unfold islandRegions at chosen
  dsimp only at chosen
  rw [crossing, regions_between layout ordered, regions_between layout ordered] at chosen
  split at chosen
  next across =>
    left
    exact ⟨across.1, (Option.some.inj chosen).symm⟩
  rename_i within
  split at chosen
  next far =>
    right
    refine ⟨?_, .inl (Option.some.inj chosen).symm⟩
    rw [← Bool.not_eq_true]
    exact fun across => within ⟨across, .inl far⟩
  · split at chosen
    next far =>
      right
      refine ⟨?_, .inr (Option.some.inj chosen).symm⟩
      rw [← Bool.not_eq_true]
      exact fun across => within ⟨across, .inr far⟩
    · exact absurd chosen (Option.some_ne_none _).symm

theorem island_regions_steps {placed : Placed} (member : placed.text ∈ text.atoms)
    (plain : cluster.addend = 0)
    (chosen : islandRegions text layout placed cluster = some regions) :
    Steps (route text layout (targetOf text cluster)) [] regions := by
  have zero : cluster.addend.toInt = 0 := by
    rw [plain]
    rfl
  have cases := island_regions_cases text layout ordered member chosen
  rw [zero] at cases
  generalize targetOf text cluster = target at cases ⊢
  rcases cases with ⟨across, only⟩ | ⟨inside, forward | backward⟩
  · rw [only]
    refine ⟨?_, trivial⟩
    rw [route, if_pos across]
  · rw [forward]
    generalize cut (regionKeys layout) (srcAddr text placed cluster) = first
    rcases Nat.le_total first (cut (regionKeys layout) (dstAddr text layout target 0)) with
      ordered' | empty
    · have steps := steps_forward (route text layout target)
        (cut (regionKeys layout) (dstAddr text layout target 0))
        (by
          intro region before
          rw [route, inside, if_neg Bool.false_ne_true, if_pos before])
        (cut (regionKeys layout) (dstAddr text layout target 0) - first) first (by omega)
      rw [Nat.add_sub_cancel' ordered', Nat.sub_self] at steps
      exact steps
    · rw [Nat.sub_eq_zero_of_le empty]
      exact trivial
  · rw [backward]
    have steps := steps_backward (route text layout target)
      (cut (regionKeys layout) (dstAddr text layout target 0))
      (by
        intro region behind
        rw [route, inside, if_neg Bool.false_ne_true, if_neg (Nat.not_lt.mpr behind)])
      (cut (regionKeys layout) (srcAddr text placed cluster) -
        cut (regionKeys layout) (dstAddr text layout target 0))
      (cut (regionKeys layout) (dstAddr text layout target 0)) (Nat.le_refl _)
    rw [Nat.sub_self] at steps
    exact steps

end Routes

end DeveloperTools.Ld64.BranchIslands
