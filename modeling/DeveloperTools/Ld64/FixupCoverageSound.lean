import DeveloperTools.Ld64.FixupCoverage

/-!
The machines of `FixupCoverage` go through a cluster in step: as long as nothing is subtracted
they have the same target, and the last fixup decides in each of them whether the place is one
of a chained pointer. With one pointer for a place, the lists of an image agree when the machines
agree on every cluster and the page starts can tell every place, and as far as one of the two is
so, only then.
-/

namespace DeveloperTools.Ld64.FixupCoverage

open ChainedFixups
open List

section Clusters

variable {Atom : Type} (output : OutputFile Atom)

structure Run (Atom : Type) extends Located Atom where
  incoming : Option Atom

def Run.buildState (run : Run Atom) : BuildState Atom :=
  buildStep (run.cluster.front.foldl buildStep .reset) run.cluster.last

def Run.applyState (run : Run Atom) : ApplyState Atom :=
  applyStep (run.cluster.front.foldl applyStep ⟨run.incoming, false⟩) run.cluster.last

def Run.places (run : Run Atom) : List (Recorded Atom) :=
  recordCluster output run.startAddr run.atom.finalAddress run.buildState run.cluster.offsetInAtom

def Run.stores (run : Run Atom) : List (Stored Atom) :=
  if storesChained output run.atom run.applyState run.cluster.last then
    [{ address := run.address, toTarget := run.applyState.toTarget }]
  else []

def atomRuns (startAddr : Nat) (atom : PlacedAtom Atom) :
    Option Atom → List (Cluster Atom) → List (Run Atom)
  | _, [] => []
  | incoming, cluster :: rest =>
    let run : Run Atom := ⟨⟨startAddr, atom, cluster⟩, incoming⟩
    run :: atomRuns startAddr atom run.applyState.toTarget rest

variable {output}

theorem build_cluster_fixups (startAddr finalAddress offsetInAtom : Nat) (first : Bool)
    (last : Step Atom) (front : List (Step Atom)) (state : BuildState Atom)
    (rest : List (Fixup Atom)) : buildFixups output startAddr finalAddress state
        (clusterFixups offsetInAtom first last front ++ rest) =
      let reached := buildStep (front.foldl buildStep (if first then .reset else state)) last
      recordCluster output startAddr finalAddress reached offsetInAtom ++
        buildFixups output startAddr finalAddress reached rest := by
  induction front generalizing first state with
  | nil => rfl
  | cons step front ih =>
    exact ih false _

theorem build_fixups_runs (startAddr : Nat) (atom : PlacedAtom Atom)
    (clusters : List (Cluster Atom)) (state : BuildState Atom) (incoming : Option Atom) :
    buildFixups output startAddr atom.finalAddress state (clusters.flatMap Cluster.fixups) =
      (atomRuns startAddr atom incoming clusters).flatMap (Run.places output) := by
  induction clusters generalizing state incoming with
  | nil => rfl
  | cons cluster rest ih =>
    rw [flatMap_cons, Cluster.fixups, build_cluster_fixups, atomRuns, flatMap_cons]
    dsimp only
    rw [ih _ _]
    rfl

variable {step : Step Atom}

theorem modifier_reads (modifier : isModifier step.kind = true) :
    marksPointer step = false ∧ setsTarget step.kind = decide (step.kind = .setTargetAddress) ∧
      setsToTarget step.kind =
        (decide (step.kind = .setTargetAddress) || decide (step.kind = .setTargetImageOffset)) := by
  unfold marksPointer
  cases isKind : step.kind <;>
    first
    | exact ⟨rfl, rfl, rfl⟩
    | (rw [isKind] at modifier; cases modifier)

variable {kind : Kind}

theorem pointer_store_cases (pointer : isPointerStore kind = true) :
    kind = .storeLittleEndian32 ∨ kind = .storeLittleEndian64 ∨
      kind = .storeLittleEndianAuth64 ∨ isTargetStore kind = true := by
  unfold isPointerStore at pointer
  split at pointer
  · exact Or.inl rfl
  · exact Or.inr (Or.inl rfl)
  · exact Or.inr (Or.inr (Or.inl rfl))
  · exact Or.inr (Or.inr (Or.inr pointer))

theorem target_store_cases (own : isTargetStore kind = true) :
    kind = .storeTargetAddressLittleEndian32 ∨ kind = .storeTargetAddressLittleEndian64 ∨
      kind = .storeTargetAddressLittleEndianAuth64 := by
  unfold isTargetStore at own
  split at own
  · exact Or.inl rfl
  · exact Or.inr (Or.inl rfl)
  · exact Or.inr (Or.inr rfl)
  · cases own

theorem stores_nothing (output : OutputFile Atom) (atom : PlacedAtom Atom) (state : ApplyState Atom)
    (other : isPointerStore step.kind = false) : storesChained output atom state step = false := by
  unfold storesChained
  split
  all_goals first | rfl | (rename_i isKind; rw [isKind] at other; cases other)

theorem modifier_stores_nothing (modifier : isModifier kind = true) :
    isPointerStore kind = false := by
  cases kind <;> first | rfl | cases modifier

theorem apply_cluster_fixups (atom : PlacedAtom Atom) (offsetInAtom : Nat) (first : Bool)
    (last : Step Atom) (front : List (Step Atom))
    (modifiers : ∀ step ∈ front, isModifier step.kind = true) (state : ApplyState Atom)
    (rest : List (Fixup Atom)) :
    applyFixups output atom state (clusterFixups offsetInAtom first last front ++ rest) =
      let reached := applyStep
        (front.foldl applyStep (if first then { state with isRelative := false } else state)) last
      (if storesChained output atom reached last then
        [{ address := atom.finalAddress + offsetInAtom, toTarget := reached.toTarget }]
      else []) ++ applyFixups output atom reached rest := by
  induction front generalizing first state with
  | nil => rfl
  | cons step front ih =>
    have nothing := stores_nothing output atom (applyStep
      (if first then { state with isRelative := false } else state) step)
      (modifier_stores_nothing (modifiers step mem_cons_self))
    rw [clusterFixups, cons_append, applyFixups, foldl_cons]
    rw [nothing]
    exact ih false (fun step isIn => modifiers step (.tail _ isIn)) _

theorem apply_fixups_runs (startAddr : Nat) (atom : PlacedAtom Atom)
    (clusters : List (Cluster Atom)) (state : ApplyState Atom) :
    applyFixups output atom state (clusters.flatMap Cluster.fixups) =
      (atomRuns startAddr atom state.toTarget clusters).flatMap (Run.stores output) := by
  induction clusters generalizing state with
  | nil => rfl
  | cons cluster rest ih =>
    rw [flatMap_cons, Cluster.fixups, apply_cluster_fixups _ _ _ _ _ cluster.modifiers,
      atomRuns, flatMap_cons]
    dsimp only
    rw [ih _]
    rfl

structure InStep (built : BuildState Atom) (applied : ApplyState Atom) (relative hasTarget : Bool) :
    Prop where
  storesNothing : built.isBind = false
  subtracts : built.hadSubtract = relative
  isRelative : applied.isRelative = relative
  target : built.target.isSome = hasTarget
  same : relative = false → hasTarget = true → applied.toTarget = built.target

variable {applied : ApplyState Atom} {built : BuildState Atom} {relative hasTarget : Bool}

theorem modifier_in_step
    (inStep : InStep built applied relative hasTarget) (modifier : isModifier step.kind = true) :
    InStep (buildStep built step) (applyStep applied step)
      (relative || makesRelative step.kind) (hasTarget || step.kind = .setTargetAddress) := by
  obtain ⟨marks, sets, setsTo⟩ := modifier_reads modifier
  have bound := step.bound
  constructor
  · simp [buildStep, inStep.storesNothing, marks]
  · simp [buildStep, inStep.subtracts]
  · simp [applyStep, inStep.isRelative]
  · by_cases isSet : step.kind = .setTargetAddress
    · have setsHere : setsTarget step.kind = true := by rw [sets, isSet]; rfl
      rw [show (hasTarget || decide (step.kind = .setTargetAddress)) = true by simp [isSet]]
      simp [buildStep, setsHere, bound]
    · simp [buildStep, sets, isSet, inStep.target]
  · intro absolute set
    rw [Bool.or_eq_false_iff] at absolute
    have notOffset : step.kind ≠ .setTargetImageOffset := by
      intro isOffset
      rw [isOffset] at absolute
      exact absurd absolute.2 (by decide)
    by_cases isSet : step.kind = .setTargetAddress
    · have setsHere : setsTarget step.kind = true := by rw [sets, isSet]; rfl
      have setsToHere : setsToTarget step.kind = true := by rw [setsTo, isSet]; rfl
      simp [buildStep, applyStep, setsHere, setsToHere]
    · simp only [isSet, decide_false, Bool.or_false] at set
      simp [buildStep, applyStep, sets, setsTo, isSet, notOffset, inStep.same absolute.1 set]

theorem front_in_step {front : List (Step Atom)}
    (modifiers : ∀ step ∈ front, isModifier step.kind = true)
    (inStep : InStep built applied relative hasTarget) :
    InStep (front.foldl buildStep built) (front.foldl applyStep applied)
      (relative || front.any fun step => makesRelative step.kind)
      (hasTarget || front.any fun step => step.kind = .setTargetAddress) := by
  induction front generalizing built applied relative hasTarget with
  | nil => simpa using inStep
  | cons step front ih =>
    have first := modifier_in_step inStep (modifiers step mem_cons_self)
    have rest := ih (fun step isIn => modifiers step (.tail _ isIn)) first
    simp only [foldl_cons, any_cons, ← Bool.or_assoc] at rest ⊢
    exact rest

theorem cluster_in_step (cluster : Cluster Atom) (incoming : Option Atom) :
    InStep (cluster.front.foldl buildStep .reset)
      (cluster.front.foldl applyStep ⟨incoming, false⟩) cluster.isRelative cluster.hasTarget := by
  have start : InStep .reset (ApplyState.mk incoming false) false false :=
    ⟨rfl, rfl, rfl, rfl, fun _ impossible => nomatch impossible⟩
  exact front_in_step cluster.modifiers start

def unpaged (output : OutputFile Atom) (place : Recorded Atom) : Nat × Option Bool :=
  (place.fixUpAddr, some (isBound output place.target))

def BuildState.records (state : BuildState Atom) : Bool :=
  state.target.isSome && state.isBind && !state.hadSubtract

variable (output) in
def Run.RecordsIf (run : Run Atom) (stores : Bool) : Prop :=
  run.buildState.records = stores ∧
    (run.buildState.records = true → run.applyState.toTarget.map (isBound output) =
      run.buildState.target.map (isBound output))

theorem places_eq_stores_iff (run : Run Atom) :
    (run.places output).map (unpaged output) = (run.stores output).map (Stored.location output) ↔
      run.RecordsIf output (storesChained output run.atom run.applyState run.cluster.last) := by
  rw [Run.RecordsIf, Run.places, Run.stores, recordCluster, BuildState.records]
  cases isTarget : run.buildState.target with
  | none =>
    cases storesChained output run.atom run.applyState run.cluster.last <;> simp
  | some target =>
    by_cases listed : run.buildState.isBind = true ∧ ¬ run.buildState.hadSubtract = true
    · cases storesChained output run.atom run.applyState run.cluster.last
      · simp [listed]
      · simp [listed, unpaged, recordAt, Stored.location, Located.address, eq_comm]
    · have neither : (run.buildState.isBind && !run.buildState.hadSubtract) = false := by
        simpa using listed
      dsimp only
      rw [if_neg listed]
      cases storesChained output run.atom run.applyState run.cluster.last <;> simp [neither]

theorem marks_pointer_store (other : isPointerStore step.kind = false) :
    marksPointer step = false := by
  unfold marksPointer
  split
  all_goals first | rfl | (rename_i isKind; rw [isKind] at other; cases other)

variable {run : Run Atom}

theorem made_records (plain : setsTarget run.cluster.last.kind = false ∧
      setsToTarget run.cluster.last.kind = false ∧ makesRelative run.cluster.last.kind = false) :
    run.buildState.records =
      (run.cluster.hasTarget && marksPointer run.cluster.last && !run.cluster.isRelative) := by
  have inStep := cluster_in_step run.cluster run.incoming
  simp [BuildState.records, Run.buildState, buildStep, plain, inStep.storesNothing,
    inStep.subtracts, inStep.target]

theorem made_agrees_iff (plain : setsTarget run.cluster.last.kind = false ∧
      setsToTarget run.cluster.last.kind = false ∧ makesRelative run.cluster.last.kind = false)
    (stores : Bool) : run.RecordsIf output stores ↔
      (run.cluster.hasTarget && marksPointer run.cluster.last && !run.cluster.isRelative) =
        stores := by
  rw [Run.RecordsIf, made_records plain]
  refine ⟨fun both => both.1, fun first => ⟨first, fun recorded => ?_⟩⟩
  simp only [Bool.and_eq_true, Bool.not_eq_true'] at recorded
  have same := (cluster_in_step run.cluster run.incoming).same recorded.2 recorded.1.1
  simp [Run.applyState, Run.buildState, applyStep, buildStep, plain, same]

section Own

variable (sets : setsTarget run.cluster.last.kind = true)
  (keeps : makesRelative run.cluster.last.kind = false)
  (marks : marksPointer run.cluster.last = true)
include sets keeps marks

theorem own_records : run.buildState.records = !run.cluster.isRelative := by
  have inStep := cluster_in_step run.cluster run.incoming
  have bound : run.cluster.last.target.isSome = true := run.cluster.last.bound (by rw [sets]; rfl)
  simp [BuildState.records, Run.buildState, buildStep, sets, keeps, marks, inStep.subtracts,
    bound]

theorem own_agrees_iff (setsTo : setsToTarget run.cluster.last.kind = true) (stores : Bool) :
    run.RecordsIf output stores ↔ (!run.cluster.isRelative) = stores := by
  rw [Run.RecordsIf, own_records sets keeps marks]
  refine ⟨fun both => both.1, fun first => ⟨first, fun _ => ?_⟩⟩
  simp [Run.applyState, Run.buildState, applyStep, buildStep, sets, setsTo]

end Own

theorem target_store_reads (own : isTargetStore step.kind = true) :
    setsTarget step.kind = true ∧ setsToTarget step.kind = true ∧
      makesRelative step.kind = false ∧ marksPointer step = true := by
  unfold marksPointer
  rcases target_store_cases own with isKind | isKind | isKind <;> rw [isKind] <;>
    exact ⟨rfl, rfl, rfl, rfl⟩

theorem records_eq (run : Run Atom) : run.buildState.records = run.cluster.isAbsolute := by
  have inStep := cluster_in_step run.cluster run.incoming
  rw [Cluster.isAbsolute]
  by_cases pointer : isPointerStore run.cluster.last.kind = true
  · rcases pointer_store_cases pointer with isKind | isKind | isKind | own
    · rw [made_records (by rw [isKind]; exact ⟨rfl, rfl, rfl⟩)]
      simp [isKind, isTargetStore]
    · rw [made_records (by rw [isKind]; exact ⟨rfl, rfl, rfl⟩)]
      simp [isKind, isTargetStore]
    · rw [made_records (by rw [isKind]; exact ⟨rfl, rfl, rfl⟩)]
      simp [isKind, isTargetStore]
    · obtain ⟨sets, _, keeps, marks⟩ := target_store_reads own
      rw [own_records sets keeps marks]
      simp [own, marks]
  · rw [Bool.not_eq_true] at pointer
    simp [BuildState.records, Run.buildState, buildStep, inStep.storesNothing,
      marks_pointer_store pointer]

theorem both_unless_relative (listed stored relative : Bool) :
    (relative = true ∨ listed = stored) ↔ (listed && true && !relative) = (stored && !relative) := by
  cases relative <;> simp

section

variable (chained : hasChainedFixups output = true)

include chained

theorem slidable_of_chained : output.outputSlidable = true := by
  simp only [hasChainedFixups, Bool.and_eq_true] at chained
  exact chained.1.2

theorem target_store_agrees (own : isTargetStore run.cluster.last.kind = true) :
    Agrees run.atom run.cluster ↔ (!run.cluster.isRelative) =
      storesChained output run.atom run.applyState run.cluster.last := by
  have stored : storesChained output run.atom run.applyState run.cluster.last =
      !run.cluster.last.contentAddendOnly := by
    rcases target_store_cases own with isKind | isKind | isKind <;>
      simp [storesChained, isKind, chained, neverSlides, slidable_of_chained chained]
  have agrees : Agrees run.atom run.cluster ↔
      run.cluster.last.contentAddendOnly = run.cluster.isRelative := by
    unfold Agrees
    rcases target_store_cases own with isKind | isKind | isKind <;> rw [isKind]
  rw [stored, agrees]
  cases run.cluster.last.contentAddendOnly <;> cases run.cluster.isRelative <;> decide

theorem run_agrees_iff (run : Run Atom) :
    Agrees run.atom run.cluster ↔
      (run.places output).map (unpaged output) =
        (run.stores output).map (Stored.location output) := by
  have inStep := cluster_in_step run.cluster run.incoming
  have relative (keeps : makesRelative run.cluster.last.kind = false) :
      run.applyState.isRelative = run.cluster.isRelative := by
    simp [Run.applyState, applyStep, keeps, inStep.isRelative]
  rw [places_eq_stores_iff]
  by_cases pointer : isPointerStore run.cluster.last.kind = true
  · rcases pointer_store_cases pointer with isKind | isKind | isKind | own
    · have isRelative := relative (by rw [isKind]; rfl)
      have stored : storesChained output run.atom run.applyState run.cluster.last =
          (!(run.cluster.last.contentAddendOnly || run.atom.keepsPlain) &&
            !run.cluster.isRelative) := by
        simp [storesChained, isKind, chained, isRelative, PlacedAtom.keepsPlain, Bool.and_assoc]
      rw [made_agrees_iff (by rw [isKind]; exact ⟨rfl, rfl, rfl⟩), stored, marksPointer, Agrees,
        isKind]
      exact both_unless_relative _ _ _
    · have isRelative := relative (by rw [isKind]; rfl)
      have stored : storesChained output run.atom run.applyState run.cluster.last =
          (!run.cluster.last.contentAddendOnly && !run.cluster.isRelative) := by
        simp [storesChained, isKind, chained, isRelative]
      rw [made_agrees_iff (by rw [isKind]; exact ⟨rfl, rfl, rfl⟩), stored, marksPointer, Agrees,
        isKind]
      exact both_unless_relative _ _ _
    · have stored : storesChained output run.atom run.applyState run.cluster.last =
          !run.cluster.last.contentAddendOnly := by
        simp [storesChained, isKind, chained]
      rw [made_agrees_iff (by rw [isKind]; exact ⟨rfl, rfl, rfl⟩), stored, marksPointer, Agrees,
        isKind]
      cases run.cluster.last.contentAddendOnly <;> simp
    · obtain ⟨sets, setsTo, keeps, marks⟩ := target_store_reads own
      rw [own_agrees_iff sets keeps marks setsTo]
      exact target_store_agrees chained own
  · rw [Bool.not_eq_true] at pointer
    have nothing := stores_nothing output run.atom run.applyState pointer
    have records : run.buildState.records = false := by
      simp [records_eq, Cluster.isAbsolute, marks_pointer_store pointer]
    rw [nothing, Run.RecordsIf, records]
    refine ⟨fun _ => ⟨rfl, fun impossible => nomatch impossible⟩, fun _ => ?_⟩
    unfold Agrees
    split
    all_goals first | trivial | (rename_i isKind; rw [isKind] at pointer; cases pointer)

end

end Clusters

section Image

variable {Atom : Type} {output : OutputFile Atom}

def runs (sections : List (FinalSection Atom)) : List (Run Atom) :=
  (inSegments none sections).flatMap fun placed =>
    atomRuns placed.1 placed.2 none placed.2.clusters

theorem runs_located (sections : List (FinalSection Atom)) :
    (runs sections).map Run.toLocated = located sections := by
  rw [runs, located, map_flatMap]
  apply flatMap_congr
  intro placed _
  generalize none = incoming
  induction placed.2.clusters generalizing incoming with
  | nil => rfl
  | cons cluster rest ih => rw [atomRuns, map_cons, map_cons, ih]

theorem in_segments_atoms (curSeg : Option (String × Nat)) (sections : List (FinalSection Atom)) :
    (inSegments curSeg sections).map Prod.snd = sections.flatMap FinalSection.atoms := by
  induction sections generalizing curSeg with
  | nil => rfl
  | cons sect rest ih =>
    rw [inSegments, map_append, ih, flatMap_cons, map_map]
    congr 1
    exact map_id _

theorem apply_fix_ups_runs (sections : List (FinalSection Atom)) :
    applyFixUps output sections = (runs sections).flatMap (Run.stores output) := by
  have flat : applyFixUps output sections = ((inSegments none sections).map Prod.snd).flatMap
      fun atom => applyFixups output atom {} atom.fixups := by
    rw [in_segments_atoms, applyFixUps, flatMap_assoc]
  rw [flat, flatMap_map, runs, flatMap_assoc]
  apply flatMap_congr
  intro placed _
  exact apply_fixups_runs placed.1 placed.2 placed.2.clusters {}

variable {sections : List (FinalSection Atom)}

theorem build_info_runs (chained : hasChainedFixups output = true) {places : List (Recorded Atom)}
    (built : buildChainedFixupInfo output sections = some places) :
    places = (runs sections).flatMap (Run.places output) := by
  unfold buildChainedFixupInfo at built
  dsimp only at built
  split at built
  · cases built
  have all := Option.some.inj built
  rw [filter_eq_self.mpr (by simp [slidable_of_chained chained])] at all
  rw [← all, runs, flatMap_assoc]
  apply flatMap_congr
  intro placed _
  exact build_fixups_runs placed.1 placed.2 placed.2.clusters .reset none

variable {run : Run Atom} {place : Recorded Atom}

theorem cluster_place {startAddr finalAddress offsetInAtom : Nat} {state : BuildState Atom}
    (recorded : place ∈ recordCluster output startAddr finalAddress state offsetInAtom) :
    ∃ target, place =
      recordAt output startAddr (finalAddress + offsetInAtom) target state.isAuthPtr := by
  rw [recordCluster] at recorded
  split at recorded
  · cases recorded
  rename_i target _
  split at recorded
  · exact ⟨target, mem_singleton.mp recorded⟩
  · cases recorded

theorem run_place (recorded : place ∈ run.places output) :
    ∃ target, place = recordAt output run.startAddr run.address target run.buildState.isAuthPtr :=
  cluster_place recorded

/-- The table tells the place, or one before it. -/
theorem told_location (positive : 0 < pageSize output) (above : run.startAddr ≤ run.address)
    (recorded : place ∈ run.places output) :
    (run.Told output → place.location output = unpaged output place) ∧
      (¬ run.Told output → (place.location output).1 < run.address) := by
  obtain ⟨target, rfl⟩ := run_place recorded
  simp only [Recorded.location, unpaged, recordAt, Located.Told, Prod.mk.injEq, and_true]
  generalize pageSize output = size at positive ⊢
  obtain ⟨distance, isAddress⟩ := Nat.exists_eq_add_of_le above
  rw [isAddress, Nat.add_sub_cancel_left]
  have whole := Nat.div_add_mod' distance size
  have index := Nat.mod_le (distance / size) (2 ^ 32)
  have page : distance / size % 2 ^ 32 * size ≤ distance / size * size :=
    Nat.mul_le_mul_right size index
  constructor
  · rintro ⟨few, small⟩
    rw [Nat.mod_eq_of_lt few] at page ⊢
    omega
  · intro wraps
    by_cases few : distance / size < 2 ^ 32
    · rw [Nat.mod_eq_of_lt few] at page ⊢
      have far : ¬ distance % size < 2 ^ 16 := fun small => wraps ⟨few, small⟩
      omega
    · -- the number of the page is short of the real one by 2^32 or more
      have short : (distance / size % 2 ^ 32 + 2 ^ 32) * size ≤ distance / size * size :=
        Nat.mul_le_mul_right size (by omega)
      rw [Nat.add_mul] at short
      have positivePages : 2 ^ 32 * 1 ≤ 2 ^ 32 * size := Nat.mul_le_mul_left _ positive
      omega

theorem absolute_of_place (recorded : place ∈ run.places output) :
    run.cluster.isAbsolute = true := by
  rw [← records_eq, BuildState.records]
  rw [Run.places, recordCluster] at recorded
  split at recorded
  · cases recorded
  next target isTarget =>
    split at recorded
    next listed => simp [isTarget, listed]
    · cases recorded

theorem place_of_absolute (absolute : run.cluster.isAbsolute = true) :
    ∃ place, place ∈ run.places output := by
  simp only [← records_eq, BuildState.records, Bool.and_eq_true, Option.isSome_iff_exists,
    Bool.not_eq_true'] at absolute
  obtain ⟨⟨⟨target, isTarget⟩, binds⟩, plain⟩ := absolute
  simp [Run.places, recordCluster, isTarget, binds, plain]

theorem pointer_of_place (recorded : place ∈ run.places output) :
    isPointerStore run.cluster.last.kind = true := by
  by_contra other
  rw [Bool.not_eq_true] at other
  have absolute := absolute_of_place recorded
  simp [Cluster.isAbsolute, marks_pointer_store other] at absolute

theorem pointer_of_store {store : Stored Atom} (stored : store ∈ run.stores output) :
    isPointerStore run.cluster.last.kind = true := by
  by_contra other
  rw [Bool.not_eq_true] at other
  rw [Run.stores, stores_nothing output run.atom run.applyState other] at stored
  cases stored

theorem located_of_run (isIn : run ∈ runs sections) : run.toLocated ∈ located sections := by
  rw [← runs_located]
  exact mem_map_of_mem isIn

theorem runs_apart (placed : Placed output sections) {other : Run Atom} (isIn : run ∈ runs sections)
    (otherIn : other ∈ runs sections) (pointer : isPointerStore run.cluster.last.kind = true)
    (otherPointer : isPointerStore other.cluster.last.kind = true)
    (same : run.address = other.address) : run = other := by
  have apart := placed.apart
  rw [← runs_located, filter_map, map_map] at apart
  exact inj_on_of_nodup_map apart (mem_filter.mpr ⟨isIn, pointer⟩)
    (mem_filter.mpr ⟨otherIn, otherPointer⟩) same

variable {location : Nat × Option Bool}

theorem places_at (isIn : location ∈ (run.places output).map (unpaged output)) :
    location.1 = run.address ∧ isPointerStore run.cluster.last.kind = true := by
  obtain ⟨place, recorded, rfl⟩ := List.mem_map.mp isIn
  refine ⟨?_, pointer_of_place recorded⟩
  obtain ⟨target, rfl⟩ := run_place recorded
  rfl

theorem stores_at (isIn : location ∈ (run.stores output).map (Stored.location output)) :
    location.1 = run.address ∧ isPointerStore run.cluster.last.kind = true := by
  obtain ⟨store, stored, rfl⟩ := List.mem_map.mp isIn
  refine ⟨?_, pointer_of_store stored⟩
  rw [Run.stores] at stored
  split at stored
  · rw [mem_singleton.mp stored]
    rfl
  · cases stored

theorem one_place (run : Run Atom) : (run.places output).length ≤ 1 := by
  rw [Run.places, recordCluster]
  split
  · exact Nat.zero_le 1
  · split
    · exact le_refl 1
    · exact Nat.zero_le 1

theorem short_lists_eq {Item : Type} {left right : List Item} (shortLeft : left.length ≤ 1)
    (shortRight : right.length ≤ 1) (same : ∀ item, item ∈ left ↔ item ∈ right) : left = right := by
  cases left with
  | nil => exact (eq_nil_iff_forall_not_mem.mpr fun item isIn => nomatch (same item).mpr isIn).symm
  | cons item rest =>
    have alone : rest = [] := length_eq_zero_iff.mp (by simpa using shortLeft)
    obtain ⟨before, behind, isRight⟩ := append_of_mem ((same item).mp mem_cons_self)
    rw [isRight, length_append, length_cons] at shortRight
    have none : before = [] := length_eq_zero_iff.mp (by omega)
    have none' : behind = [] := length_eq_zero_iff.mp (by omega)
    rw [isRight, alone, none, none', nil_append]

section Covering

variable (chained : hasChainedFixups output = true) (placed : Placed output sections)
include chained placed

/-- The lists of an image whose places can all be told. -/
theorem covers_of_told (told : AllTold output sections) :
    Covers output ((runs sections).flatMap (Run.places output)) (applyFixUps output sections) ↔
      AllAgree sections := by
  have placeOf : ((runs sections).flatMap (Run.places output)).map (Recorded.location output) =
      (runs sections).flatMap fun run => (run.places output).map (unpaged output) := by
    rw [map_flatMap]
    apply flatMap_congr
    intro run isIn
    refine map_congr_left fun place recorded => ?_
    have isLocated := located_of_run isIn
    exact (told_location placed.positive (placed.inside _ isLocated) recorded).1
      (told _ isLocated (absolute_of_place recorded))
  have storeOf : (applyFixUps output sections).map (Stored.location output) =
      (runs sections).flatMap fun run => (run.stores output).map (Stored.location output) := by
    rw [apply_fix_ups_runs, map_flatMap]
  have each : AllAgree sections ↔ ∀ run ∈ runs sections, Agrees run.atom run.cluster := by
    rw [AllAgree, ← runs_located]
    exact List.forall_mem_map
  unfold Covers
  rw [placeOf, storeOf, each]
  constructor
  · intro same run isIn
    apply (run_agrees_iff chained run).mpr
    apply short_lists_eq
    · rw [length_map]
      exact one_place run
    · rw [length_map, Run.stores]
      split <;> simp
    intro location
    -- what another run lists or stores lies elsewhere
    constructor
    · intro listed
      obtain ⟨other, otherIn, stored⟩ :=
        mem_flatMap.mp ((same location).mp (mem_flatMap.mpr ⟨run, isIn, listed⟩))
      obtain ⟨here, pointer⟩ := places_at listed
      obtain ⟨there, otherPointer⟩ := stores_at stored
      rwa [runs_apart placed isIn otherIn pointer otherPointer (here.symm.trans there)]
    intro stored
    obtain ⟨other, otherIn, listed⟩ :=
      mem_flatMap.mp ((same location).mpr (mem_flatMap.mpr ⟨run, isIn, stored⟩))
    obtain ⟨here, pointer⟩ := stores_at stored
    obtain ⟨there, otherPointer⟩ := places_at listed
    rwa [runs_apart placed isIn otherIn pointer otherPointer (here.symm.trans there)]
  · intro agree location
    have equal : (runs sections).flatMap (fun run => (run.places output).map (unpaged output)) =
        (runs sections).flatMap fun run => (run.stores output).map (Stored.location output) :=
      flatMap_congr fun run isIn => (run_agrees_iff chained run).mp (agree run isIn)
    rw [equal]

/-- A pointer that is stored and cannot be told would have to be told as one behind it. -/
theorem untold_climbs (agree : AllAgree sections)
    (covers : Covers output ((runs sections).flatMap (Run.places output))
      (applyFixUps output sections))
    (isIn : run ∈ runs sections) (absolute : run.cluster.isAbsolute = true)
    (untold : ¬ run.Told output) :
    ∃ other ∈ runs sections, other.cluster.isAbsolute = true ∧ ¬ other.Told output ∧
      run.address < other.address := by
  obtain ⟨place, recorded⟩ := place_of_absolute absolute
  have listed : unpaged output place ∈ (run.places output).map (unpaged output) :=
    mem_map_of_mem recorded
  obtain ⟨here, pointer⟩ := places_at listed
  rw [(run_agrees_iff chained run).mp (agree _ (located_of_run isIn))] at listed
  obtain ⟨store, stored, isStored⟩ := List.mem_map.mp listed
  have covered := (covers (unpaged output place)).mpr (List.mem_map.mpr
    ⟨store, by rw [apply_fix_ups_runs]; exact mem_flatMap.mpr ⟨run, isIn, stored⟩, isStored⟩)
  obtain ⟨otherPlace, otherListed, isPlace⟩ := List.mem_map.mp covered
  obtain ⟨other, otherIn, otherRecorded⟩ := mem_flatMap.mp otherListed
  obtain ⟨told, wraps⟩ := told_location placed.positive
    (placed.inside _ (located_of_run otherIn)) otherRecorded
  have otherUntold : ¬ other.Told output := by
    intro isTold
    have there := (places_at (mem_map_of_mem otherRecorded)).1
    rw [← told isTold, isPlace] at there
    have same := runs_apart placed isIn otherIn pointer (pointer_of_place otherRecorded)
      (here.symm.trans there)
    rw [same] at untold
    exact untold isTold
  refine ⟨other, otherIn, absolute_of_place otherRecorded, otherUntold, ?_⟩
  rw [← here, ← isPlace]
  exact wraps otherUntold

theorem told_of_covers (agree : AllAgree sections)
    (covers : Covers output ((runs sections).flatMap (Run.places output))
      (applyFixUps output sections)) : AllTold output sections := by
  rw [AllTold, ← runs_located, List.forall_mem_map]
  intro run isIn absolute
  by_contra untold
  obtain ⟨most, highest⟩ := ((runs sections).map fun run => run.address).toFinset.exists_le
  have climbs (count : Nat) : ∃ other ∈ runs sections, other.cluster.isAbsolute = true ∧
      ¬ other.Told output ∧ count ≤ other.address := by
    induction count with
    | zero => exact ⟨run, isIn, absolute, untold, Nat.zero_le _⟩
    | succ count ih =>
      obtain ⟨lower, lowerIn, lowerAbsolute, lowerUntold, above⟩ := ih
      obtain ⟨other, otherIn, otherAbsolute, otherUntold, higher⟩ :=
        untold_climbs chained placed agree covers lowerIn lowerAbsolute lowerUntold
      exact ⟨other, otherIn, otherAbsolute, otherUntold, by omega⟩
  obtain ⟨other, otherIn, _, _, above⟩ := climbs (most + 1)
  have below := highest other.address (mem_toFinset.mpr (mem_map_of_mem otherIn))
  omega

end Covering

/-- Chains and chained pointers agree where the machines agree on every cluster and the page starts
can tell every absolute pointer. Where they agree otherwise, both are not so. -/
theorem covers_iff (chained : hasChainedFixups output = true)
    {sections : List (FinalSection Atom)} (placed : Placed output sections)
    {places : List (Recorded Atom)} (built : buildChainedFixupInfo output sections = some places) :
    (AllAgree sections ∧ AllTold output sections →
        Covers output places (applyFixUps output sections)) ∧
      (Covers output places (applyFixUps output sections) →
        (AllAgree sections ↔ AllTold output sections)) := by
  rw [build_info_runs chained built]
  refine ⟨fun both => (covers_of_told chained placed both.2).mpr both.1, fun covers => ?_⟩
  exact ⟨fun agree => told_of_covers chained placed agree covers,
    fun told => (covers_of_told chained placed told).mp covers⟩

end Image

def localFunction : AtomInfo Unit where
  name := ⟨[102], by decide⟩
  definition := .regular
  scope := .linkageUnit
  combine := .never
  isThumb := false
  finalAddress := 0x5000
  isAlias := false
  followOns := []
  weakImported := false
  file := none

def watchOutput : OutputFile Unit where
  atoms _ := localFunction
  chainedPointerFormat := .ptr32
  dyldOrKernelLoadsOutput := true
  isDynamicExecutable := true
  isKextBundle := false
  twoLevelNameSpace := true
  interposable _ := false
  forceCoalesce _ := false
  undefinedDynamicLookup := false
  sharedRegionEligible := false
  allowedUndefined _ := false
  machHeaderVmAddr := 0x1000
  maxLibOrdinal := 1
  maxRebase := 0x3F00000
  makeChainedFixups := true
  outputSlidable := true
  cantUseChainedFixups := false
  dyldLoadsOutput := true
  supportsAuthenticatedPointers := false
  isKernel := false
  isX8664 := false
  segmentAlignment := 0x4000

def pointerCluster : Cluster Unit where
  offsetInAtom := 4
  front := [⟨.setTargetAddress, some (), false, fun _ => rfl⟩]
  last := ⟨.storeLittleEndian32, none, false, by decide⟩
  modifiers := by
    intro step isIn
    rw [mem_singleton.mp isIn]
    rfl

def pointerIn (sectionType : SectionType) : List (FinalSection Unit) :=
  [{ segmentName := "__SEG", address := 0x4000
     atoms := [⟨0x4000, false, sectionType, [pointerCluster]⟩] }]

theorem pointer_in_placed (sectionType : SectionType) :
    Placed watchOutput (pointerIn sectionType) where
  positive := by decide
  inside := by
    intro place isIn
    rw [mem_singleton.mp isIn]
    exact (by decide : 0x4000 ≤ 0x4004)
  apart := nodup_singleton _

theorem pointer_in_listed (sectionType : SectionType) :
    buildChainedFixupInfo watchOutput (pointerIn sectionType) =
      some [recordAt watchOutput 0x4000 0x4004 () false] := by
  cases sectionType <;> decide +kernel

theorem data_pointer_covered : Covers watchOutput [recordAt watchOutput 0x4000 0x4004 () false]
      (applyFixUps watchOutput (pointerIn .other)) := by
  apply (covers_iff rfl (pointer_in_placed .other) (pointer_in_listed .other)).1
  constructor
  · intro place isIn
    rw [mem_singleton.mp isIn]
    exact Or.inr rfl
  · intro place isIn _
    rw [mem_singleton.mp isIn]
    exact (by decide : 4 / 0x4000 < 2 ^ 32 ∧ 4 % 0x4000 < 2 ^ 16)

/-- In code the word is stored plain, and the chain still passes through it. -/
theorem code_pointer_not_covered :
    hasChainedFixups watchOutput = true ∧ Placed watchOutput (pointerIn .code) ∧
      buildChainedFixupInfo watchOutput (pointerIn .code) =
        some [recordAt watchOutput 0x4000 0x4004 () false] ∧
      applyFixUps watchOutput (pointerIn .code) = [] ∧
      ¬ Covers watchOutput [recordAt watchOutput 0x4000 0x4004 () false]
        (applyFixUps watchOutput (pointerIn .code)) := by
  refine ⟨rfl, pointer_in_placed .code, pointer_in_listed .code, rfl, ?_⟩
  intro covers
  have stored := (covers _).mp (List.mem_map_of_mem mem_cons_self)
  cases stored

end DeveloperTools.Ld64.FixupCoverage
