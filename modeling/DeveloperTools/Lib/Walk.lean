import Mathlib.Data.List.Basic

/-!
Following links from node to node until there is none. A run is the list of the
nodes that are met.
-/

namespace DeveloperTools.Walk

variable {Node : Type*}

/-- The nodes met from a node on; `none` when the fuel is used up. -/
def walk (next : Node → Option Node) : Nat → Node → Option (List Node)
  | 0, _ => none
  | fuel + 1, node =>
    match next node with
    | none => some [node]
    | some other => (walk next fuel other).map (node :: ·)

def Path (next : Node → Option Node) : Node → List Node → Node → Prop
  | node, [], last => next node = some last
  | node, hop :: hops, last => next node = some hop ∧ Path next hop hops last

def Run (next : Node → Option Node) : Node → List Node → Prop
  | node, [] => next node = none
  | node, other :: rest => next node = some other ∧ Run next other rest

variable {next other : Node → Option Node} {rest : List Node}

theorem walk_run :
    ∀ {node : Node} {fuel : Nat}, Run next node rest → rest.length < fuel →
      walk next fuel node = some (node :: rest) := by
  induction rest with
  | nil =>
    intro node fuel run enough
    cases fuel with
    | zero => exact absurd enough (Nat.not_lt_zero _)
    | succ fuel => simp only [walk, show next node = none from run]
  | cons hop rest ih =>
    intro node fuel run enough
    cases fuel with
    | zero => exact absurd enough (Nat.not_lt_zero _)
    | succ fuel =>
      simp only [walk, run.1, ih run.2 (Nat.lt_of_succ_lt_succ enough)]
      rfl

theorem run_unique :
    ∀ {node : Node} {rest' : List Node}, Run next node rest → Run next node rest' →
      rest = rest' := by
  induction rest with
  | nil =>
    intro node rest' run run'
    cases rest' with
    | nil => rfl
    | cons other rest' => exact absurd (run.symm.trans run'.1) (Option.some_ne_none _).symm
  | cons hop rest ih =>
    intro node rest' run run'
    cases rest' with
    | nil => exact absurd (run'.symm.trans run.1) (Option.some_ne_none _).symm
    | cons other rest' =>
      have same : hop = other := Option.some.inj (run.1.symm.trans run'.1)
      subst same
      rw [ih run.2 run'.2]

theorem run_of_path {hops : List Node} {last : Node} (run : Run next last rest) :
    ∀ {node : Node}, Path next node hops last → Run next node (hops ++ last :: rest) := by
  induction hops with
  | nil =>
    intro node path
    exact ⟨path, run⟩
  | cons hop hops ih =>
    intro node path
    exact ⟨path.1, ih path.2⟩

theorem path_congr {hops : List Node} {last : Node} :
    ∀ {node : Node}, (∀ met ∈ node :: hops, other met = next met) →
      Path next node hops last → Path other node hops last := by
  induction hops with
  | nil =>
    intro node same path
    exact (same node List.mem_cons_self).trans path
  | cons hop hops ih =>
    intro node same path
    exact ⟨(same node List.mem_cons_self).trans path.1,
      ih (fun met member => same met (List.mem_cons_of_mem _ member)) path.2⟩

end DeveloperTools.Walk
