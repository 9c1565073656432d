import Mathlib.Tactic

/-!
A search that expands a node into what it yields and the nodes below, in depth and with a bound
on the depth. A search that comes to an end has yielded exactly what the nodes below its start
do, none of them deeper than the bound; and if what is below a node depends on its key alone, no
key comes again below itself.
-/

namespace DeveloperTools.FuelledSearch

open List

variable {Node Out Error Key : Type*}

structure Unfolds (expand : Node → Except Error (List Out × List Node))
    (search : Nat → Node → Except Error (List Out)) : Prop where
  zero : ∀ node result, search 0 node ≠ .ok result
  succ : ∀ fuel node result, search (fuel + 1) node = .ok result →
    ∃ own children below, expand node = .ok (own, children) ∧
      List.Forall₂ (fun child found => search fuel child = .ok found) children below ∧
      result = own ++ below.flatten

section

variable (expand : Node → Except Error (List Out × List Node))

inductive Path : Nat → Node → Node → Prop where
  | here (node : Node) : Path 0 node node
  | down {length : Nat} {node child last : Node} {own : List Out} {children : List Node}
      (expands : expand node = .ok (own, children)) (isIn : child ∈ children)
      (further : Path length child last) : Path (length + 1) node last

end

variable {expand : Node → Except Error (List Out × List Node)}
  {search : Nat → Node → Except Error (List Out)}

variable {node : Node}

theorem Path.append {first second : Nat} {middle last : Node} (path : Path expand first node middle)
    (further : Path expand second middle last) :
    Path expand (first + second) node last := by
  induction path with
  | here node =>
    rw [Nat.zero_add]
    exact further
  | down expands isIn _ ih =>
    rw [Nat.add_right_comm]
    exact Path.down expands isIn (ih further)

section

variable {Left Right : Type*} {relation : Left → Right → Prop} {children : List Left}
  {below : List Right} (all : List.Forall₂ relation children below)

include all

theorem forall₂_of_mem {child : Left}
    (isIn : child ∈ children) : ∃ found ∈ below, relation child found := by
  induction all with
  | nil => cases isIn
  | cons first _ ih =>
    rcases mem_cons.mp isIn with rfl | later
    · exact ⟨_, mem_cons_self, first⟩
    · obtain ⟨found, isFound, related⟩ := ih later
      exact ⟨found, .tail _ isFound, related⟩

theorem forall₂_of_mem_right {found : Right}
    (isIn : found ∈ below) : ∃ child ∈ children, relation child found :=
  forall₂_of_mem all.flip isIn

end

variable {length : Nat} {last : Node}

theorem searched_below (unfolds : Unfolds expand search)
    (path : Path expand length node last) :
    ∀ {fuel : Nat} {result : List Out}, search fuel node = .ok result →
      ∃ rest found, fuel = length + (rest + 1) ∧ search (rest + 1) last = .ok found := by
  induction path with
  | here node =>
    intro fuel result ran
    cases fuel with
    | zero => exact absurd ran (unfolds.zero _ _)
    | succ rest => exact ⟨rest, result, by omega, ran⟩
  | down expands isIn _ ih =>
    intro fuel result ran
    cases fuel with
    | zero => exact absurd ran (unfolds.zero _ _)
    | succ fuel =>
      obtain ⟨own, children, below, expanded, all, _⟩ := unfolds.succ _ _ _ ran
      rw [expands] at expanded
      cases expanded
      obtain ⟨found, _, searched⟩ := forall₂_of_mem all isIn
      obtain ⟨rest, last, isSum, lastRan⟩ := ih searched
      exact ⟨rest, last, by omega, lastRan⟩

variable {result : List Out}

theorem expands_of_search (unfolds : Unfolds expand search) {fuel : Nat}
    (ran : search fuel node = .ok result) :
    ∃ own children, expand node = .ok (own, children) := by
  cases fuel with
  | zero => exact absurd ran (unfolds.zero _ _)
  | succ fuel =>
    obtain ⟨own, children, _, expanded, _⟩ := unfolds.succ _ _ _ ran
    exact ⟨own, children, expanded⟩

theorem yielded_iff (unfolds : Unfolds expand search) :
    ∀ {fuel : Nat} {node : Node} {result : List Out}, search fuel node = .ok result →
      ∀ out, out ∈ result ↔ ∃ length last own children, Path expand length node last ∧
        expand last = .ok (own, children) ∧ out ∈ own := by
  intro fuel
  induction fuel with
  | zero =>
    intro node result ran
    exact absurd ran (unfolds.zero _ _)
  | succ fuel ih =>
    intro node result ran out
    obtain ⟨own, children, below, expanded, all, rfl⟩ := unfolds.succ _ _ _ ran
    rw [mem_append, mem_flatten]
    constructor
    · rintro (isOwn | ⟨found, isFound, isIn⟩)
      · exact ⟨0, node, own, children, Path.here node, expanded, isOwn⟩
      obtain ⟨child, isChild, searched⟩ := forall₂_of_mem_right all isFound
      obtain ⟨length, last, lastOwn, lastChildren, path, lastExpanded, yields⟩ :=
        (ih searched out).mp isIn
      exact ⟨length + 1, last, lastOwn, lastChildren, Path.down expanded isChild path,
        lastExpanded, yields⟩
    · rintro ⟨length, last, lastOwn, lastChildren, path, lastExpanded, yields⟩
      cases path with
      | here =>
        rw [expanded] at lastExpanded
        cases lastExpanded
        exact Or.inl yields
      | down expands isIn further =>
        rw [expanded] at expands
        cases expands
        obtain ⟨found, isFound, searched⟩ := forall₂_of_mem all isIn
        refine Or.inr ⟨found, isFound, (ih searched out).mpr ?_⟩
        exact ⟨_, last, lastOwn, lastChildren, further, lastExpanded, yields⟩

section Keys

variable (key : Node → Key)

/-- What is below a node depends on its key. -/
def DependsOnKey (expand : Node → Except Error (List Out × List Node)) : Prop :=
  ∀ node other own children own' children', key node = key other →
    expand node = .ok (own, children) → expand other = .ok (own', children') →
    children.map key = children'.map key

variable {key}

theorem walk_again (unfolds : Unfolds expand search) (depends : DependsOnKey key expand)
    (path : Path expand length node last) :
    ∀ {other : Node} {fuel : Nat} {result : List Out}, key node = key other →
      search fuel other = .ok result →
      ∃ last', Path expand length other last' ∧ key last' = key last := by
  induction path with
  | here node =>
    intro other fuel result same _
    exact ⟨other, Path.here other, same.symm⟩
  | @down length node child last own children expands isIn _ ih =>
    intro other fuel result same ran
    cases fuel with
    | zero => exact absurd ran (unfolds.zero _ _)
    | succ fuel =>
      obtain ⟨own', children', below, expanded, all, _⟩ := unfolds.succ _ _ _ ran
      have keys := depends _ _ _ _ _ _ same expands expanded
      have isKey : key child ∈ children'.map key := by
        rw [← keys]
        exact mem_map_of_mem isIn
      obtain ⟨child', isChild, sameKey⟩ := List.mem_map.mp isKey
      obtain ⟨found, _, searched⟩ := forall₂_of_mem all isChild
      obtain ⟨last', path', lastKey⟩ := ih sameKey.symm searched
      exact ⟨last', Path.down expanded isChild path', lastKey⟩

/-- No key comes again below itself: the way back could be walked again and again. -/
theorem key_not_below (unfolds : Unfolds expand search) (depends : DependsOnKey key expand)
    {fuel : Nat} (ran : search fuel node = .ok result)
    (path : Path expand (length + 1) node last) :
    key last ≠ key node := by
  intro again
  have round (times : Nat) :
      ∃ last', Path expand (times * (length + 1)) node last' ∧ key last' = key node := by
    induction times with
    | zero =>
      rw [Nat.zero_mul]
      exact ⟨node, Path.here node, rfl⟩
    | succ times ih =>
      obtain ⟨middle, walked, sameKey⟩ := ih
      obtain ⟨rest, found, _, searched⟩ := searched_below unfolds walked ran
      obtain ⟨last', path', lastKey⟩ := walk_again unfolds depends path sameKey.symm searched
      refine ⟨last', ?_, lastKey.trans again⟩
      rw [Nat.succ_mul]
      exact walked.append path'
  obtain ⟨last', walked, _⟩ := round fuel
  obtain ⟨rest, _, isSum, _⟩ := searched_below unfolds walked ran
  have deep : fuel * 1 ≤ fuel * (length + 1) := Nat.mul_le_mul_left _ (by omega)
  omega

end Keys

end DeveloperTools.FuelledSearch
