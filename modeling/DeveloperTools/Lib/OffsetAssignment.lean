import Mathlib.Tactic

/-!
Assigning byte offsets to a sequence of items whose sizes depend on the offsets
of other items. One pass walks the items in order, gives each the running
offset and advances it by the item's size under the offsets known so far.
Passes repeat until one changes nothing.

If sizes never shrink when offsets grow and there is room for every item below
the word size, the passes climb from below towards any offsets that leave
enough room, so no offset ever wraps and the last pass leaves a layout.
-/

namespace DeveloperTools.OffsetAssignment

open List Function

section

variable {Item : Type*} (slot : Item → Nat) (size : (Nat → Nat) → Item → Nat) (modulus : Nat)

/-- One pass from a running offset. The flag is raised when an item moved. -/
def assign : List Item → (Nat → Nat) → Nat → Bool → (Nat → Nat) × Bool
  | [], offsets, _, more => (offsets, more)
  | item :: rest, offsets, current, more =>
    assign rest (Function.update offsets (slot item) current)
      ((current + size offsets item) % modulus)
      (more || decide (offsets (slot item) ≠ current))

/-- Passes until nothing moves; `none` when the fuel runs out first. -/
def settle (items : List Item) : Nat → (Nat → Nat) → Option (Nat → Nat)
  | 0, _ => none
  | fuel + 1, offsets =>
    let (next, more) := assign slot size modulus items offsets 0 false
    if more then settle items fuel next else some next

/-- The items lie back to back from `start` to `finish`, each of the size the
same offsets give it. -/
def IsLayout (offsets : Nat → Nat) : Nat → List Item → Nat → Prop
  | start, [], finish => start = finish
  | start, item :: rest, finish =>
    offsets (slot item) = start ∧ IsLayout offsets (start + size offsets item) rest finish

def IsSpacing (offsets : Nat → Nat) : Nat → List Item → Nat → Prop
  | start, [], finish => start ≤ finish
  | start, item :: rest, finish =>
    start ≤ offsets (slot item) ∧
      IsSpacing offsets (offsets (slot item) + size offsets item) rest finish

variable {slot size modulus}

variable {items : List Item} {finish start : Nat} {offsets : Nat → Nat}

theorem layout_is_spacing (layout : IsLayout slot size offsets start items finish) :
    IsSpacing slot size offsets start items finish := by
  induction items generalizing start with
  | nil => exact le_of_eq layout
  | cons item rest ih =>
    refine ⟨layout.1.ge, ih ?_⟩
    rw [layout.1]
    exact layout.2

theorem spacing_of_cells {cell bound : Nat}
    (ordered : items.Pairwise fun left right => slot left < slot right)
    (small : ∀ item ∈ items, size (fun index => index * cell) item ≤ cell)
    (bounded : ∀ item ∈ items, slot item < bound) (room : start ≤ bound * cell)
    (behind : ∀ item ∈ items, start ≤ slot item * cell) :
    IsSpacing slot size (fun index => index * cell) start items (bound * cell) := by
  induction items generalizing start with
  | nil => exact room
  | cons item rest ih =>
    rw [pairwise_cons] at ordered
    have fits := small item mem_cons_self
    have below := Nat.mul_le_mul_right cell (bounded item mem_cons_self)
    rw [Nat.succ_mul] at below
    refine ⟨behind item mem_cons_self, ih ordered.2
      (fun later member => small later (.tail _ member))
      (fun later member => bounded later (.tail _ member)) (by dsimp only; omega) ?_⟩
    intro later member
    have next := Nat.mul_le_mul_right cell (ordered.1 later member)
    rw [Nat.succ_mul] at next
    dsimp only
    omega

theorem is_spacing_ordered (spacing : IsSpacing slot size offsets start items finish) :
    start ≤ finish := by
  induction items generalizing start with
  | nil => exact spacing
  | cons item rest ih =>
    have place := spacing.1
    have tail := ih spacing.2
    omega

theorem spacing_item_within (spacing : IsSpacing slot size offsets start items finish) :
    ∀ item ∈ items, start ≤ offsets (slot item) ∧
      offsets (slot item) + size offsets item ≤ finish := by
  induction items generalizing start with
  | nil => simp
  | cons first rest ih =>
    intro item member
    have place := spacing.1
    have tail := is_spacing_ordered spacing.2
    rcases mem_cons.mp member with rfl | later
    · omega
    · have within := ih spacing.2 item later
      omega

section

variable (layout : IsLayout slot size offsets start items finish)
include layout

theorem layout_finish : start + (items.map (size offsets)).sum = finish := by
  induction items generalizing start with
  | nil => exact layout
  | cons first rest ih =>
    have tail := ih layout.2
    rw [map_cons, sum_cons]
    omega

theorem layout_pairwise : items.Pairwise fun left right =>
      offsets (slot left) + size offsets left ≤ offsets (slot right) := by
  induction items generalizing start with
  | nil => exact List.Pairwise.nil
  | cons first rest ih =>
    apply List.Pairwise.cons
    · intro item later
      rw [layout.1]
      exact (spacing_item_within (layout_is_spacing layout.2) item later).1
    · exact ih layout.2

end

variable {target : Nat → Nat} {current : Nat}

theorem spacing_next_fits {item : Item} {rest : List Item}
    (spacing : IsSpacing slot size target start (item :: rest) finish)
    (fits : ∀ later ∈ rest, target (slot later) < modulus) :
    rest = [] ∨ target (slot item) + size target item < modulus := by
  cases rest with
  | nil => exact .inl rfl
  | cons next rest => exact .inr (spacing.2.1.trans_lt (fits next mem_cons_self))

theorem assign_more_of_more (items : List Item) (offsets : Nat → Nat) (current : Nat) :
    (assign slot size modulus items offsets current true).2 = true := by
  induction items generalizing offsets current with
  | nil => rfl
  | cons item rest ih => exact ih _ _

section

variable (monotone : ∀ item, Monotone fun offsets => size offsets item)
include monotone

theorem assign_below_spacing (more : Bool) (spacing : IsSpacing slot size target start items finish)
    (below : offsets ≤ target) (behind : current ≤ start) :
    (assign slot size modulus items offsets current more).1 ≤ target := by
  induction items generalizing offsets start current more with
  | nil => exact below
  | cons item rest ih =>
    have sizes : size offsets item ≤ size target item := monotone item below
    have placed := behind.trans spacing.1
    refine ih _ spacing.2 ?_ ?_
    · intro other
      by_cases same : other = slot item
      · subst same
        rw [update_self]
        exact placed
      · rw [update_of_ne same]
        exact below other
    · exact (Nat.mod_le _ _).trans (Nat.add_le_add placed sizes)

theorem assign_monotone {lower upper : Nat → Nat} {low high : Nat} (lowMore highMore : Bool)
    (spacing : IsSpacing slot size target start items finish)
    (fits : ∀ item ∈ items, target (slot item) < modulus) (below : upper ≤ target)
    (behind : high ≤ start) (ordered : lower ≤ upper) (orderedStart : low ≤ high) :
    (assign slot size modulus items lower low lowMore).1 ≤
      (assign slot size modulus items upper high highMore).1 := by
  induction items generalizing lower upper start low high lowMore highMore with
  | nil => exact ordered
  | cons item rest ih =>
    have lowSize : size lower item ≤ size upper item := monotone item ordered
    have highSize : size upper item ≤ size target item := monotone item below
    have updated : Function.update lower (slot item) low ≤
        Function.update upper (slot item) high := by
      intro other
      by_cases same : other = slot item
      · subst same
        rw [update_self, update_self]
        exact orderedStart
      · rw [update_of_ne same, update_of_ne same]
        exact ordered other
    have restFits : ∀ later ∈ rest, target (slot later) < modulus :=
      fun later member => fits later (.tail _ member)
    have placed := behind.trans spacing.1
    -- the last running offset may wrap, but no item is placed there
    rcases spacing_next_fits spacing restFits with rfl | exactSum
    · exact updated
    refine ih _ _ spacing.2 restFits ?_ ?_ updated ?_
    · intro other
      by_cases same : other = slot item
      · subst same
        rw [update_self]
        exact placed
      · rw [update_of_ne same]
        exact below other
    · exact (Nat.mod_le _ _).trans (Nat.add_le_add placed highSize)
    · rw [Nat.mod_eq_of_lt (by omega), Nat.mod_eq_of_lt (by omega)]
      omega

/-- A pass that moves nothing found a layout. The bound on the offsets keeps
the additions exact. -/
theorem assign_unmoved (spacing : IsSpacing slot size target start items finish)
    (fits : ∀ item ∈ items, target (slot item) < modulus) (below : offsets ≤ target)
    (behind : current ≤ start)
    (unmoved : (assign slot size modulus items offsets current false).2 = false) :
    (assign slot size modulus items offsets current false).1 = offsets ∧
      ∃ reached ≤ finish, IsLayout slot size offsets current items reached := by
  induction items generalizing start current with
  | nil => exact ⟨rfl, current, behind.trans spacing, rfl⟩
  | cons item rest ih =>
    have sizes : size offsets item ≤ size target item := monotone item below
    have placed := behind.trans spacing.1
    have total := is_spacing_ordered spacing.2
    have restFits : ∀ later ∈ rest, target (slot later) < modulus :=
      fun later member => fits later (.tail _ member)
    rw [assign] at unmoved ⊢
    have still : offsets (slot item) = current := by
      by_contra moved
      simp only [ne_eq, moved, not_false_eq_true, decide_true, Bool.or_true] at unmoved
      rw [assign_more_of_more] at unmoved
      cases unmoved
    rw [← still, update_eq_self, still] at unmoved ⊢
    simp only [ne_eq, not_true_eq_false, decide_false, Bool.or_false] at unmoved ⊢
    rcases spacing_next_fits spacing restFits with rfl | exactSum
    · exact ⟨rfl, current + size offsets item, by omega, still, rfl⟩
    · rw [Nat.mod_eq_of_lt (by omega)] at unmoved ⊢
      obtain ⟨same, reached, bounded, found⟩ := ih spacing.2 restFits (by omega) unmoved
      exact ⟨same, reached, bounded, still, found⟩

end

theorem assign_frame {more : Bool} {other : Nat} (absent : other ∉ items.map slot) :
    (assign slot size modulus items offsets current more).1 other = offsets other := by
  induction items generalizing offsets current more with
  | nil => rfl
  | cons item rest ih =>
    rw [map_cons, mem_cons, not_or] at absent
    rw [assign, ih absent.2, update_of_ne absent.1]

theorem assign_moved (distinct : (items.map slot).Nodup)
    (moved : (assign slot size modulus items offsets current false).2 = true) : ∃ item ∈ items,
      (assign slot size modulus items offsets current false).1 (slot item) ≠
        offsets (slot item) := by
  induction items generalizing offsets current with
  | nil => cases moved
  | cons item rest ih =>
    rw [map_cons, nodup_cons] at distinct
    by_cases still : offsets (slot item) = current
    · rw [assign] at moved ⊢
      rw [← still, update_eq_self, still] at moved ⊢
      simp only [ne_eq, not_true_eq_false, decide_false, Bool.or_false] at moved ⊢
      obtain ⟨later, member, changed⟩ := ih distinct.2 moved
      exact ⟨later, .tail _ member, changed⟩
    · refine ⟨item, mem_cons_self, ?_⟩
      rw [assign, assign_frame distinct.1, update_self]
      exact fun same => still same.symm

section

variable (monotone : ∀ item, Monotone fun offsets => size offsets item)
    (distinct : (items.map slot).Nodup) (spacing : IsSpacing slot size target 0 items finish)
    (fits : ∀ item ∈ items, target (slot item) < modulus)

include monotone distinct spacing fits

/-- Each repeated pass raises the sum of the offsets, which the spacing bounds. -/
theorem settle_from_below
    {fuel : Nat} (below : offsets ≤ target)
    (climbing : offsets ≤ (assign slot size modulus items offsets 0 false).1)
    (enough : (items.map fun item => target (slot item)).sum <
      fuel + (items.map fun item => offsets (slot item)).sum) :
    ∃ settled reached, settle slot size modulus items fuel offsets = some settled ∧
      IsLayout slot size settled 0 items reached ∧ reached ≤ finish ∧ settled ≤ target := by
  induction fuel generalizing offsets with
  | zero =>
    have bounded : (items.map fun item => offsets (slot item)).sum ≤
        (items.map fun item => target (slot item)).sum :=
      sum_le_sum fun item _ => below (slot item)
    omega
  | succ fuel ih =>
    rw [settle]
    cases flag : (assign slot size modulus items offsets 0 false).2 with
    | false =>
      obtain ⟨same, reached, bounded, found⟩ :=
        assign_unmoved monotone spacing fits below le_rfl flag
      refine ⟨offsets, reached, ?_, found, bounded, below⟩
      simp only [flag, same, Bool.false_eq_true, if_false]
    | true =>
      have nextBelow : (assign slot size modulus items offsets 0 false).1 ≤ target :=
        assign_below_spacing monotone false spacing below le_rfl
      have nextClimbing := assign_monotone monotone false false spacing fits nextBelow le_rfl
        climbing (le_refl 0)
      have rises : (items.map fun item => offsets (slot item)).sum <
          (items.map fun item =>
            (assign slot size modulus items offsets 0 false).1 (slot item)).sum := by
        obtain ⟨item, member, changed⟩ := assign_moved distinct flag
        exact sum_lt_sum _ _ (fun later _ => climbing (slot later))
          ⟨item, member, lt_of_le_of_ne (climbing (slot item)) changed.symm⟩
      simp only [flag, if_true]
      exact ih nextBelow nextClimbing (by omega)

theorem settle_reaches_layout : ∃ settled reached,
      settle slot size modulus items (modulus * items.length + 1) (fun _ => 0) = some settled ∧
        IsLayout slot size settled 0 items reached ∧ reached ≤ finish ∧ settled ≤ target := by
  refine settle_from_below monotone distinct spacing fits (fun _ => Nat.zero_le _)
    (fun _ => Nat.zero_le _) ?_
  have bounded := sum_le_card_nsmul (items.map fun item => target (slot item)) modulus (by
    intro offset member
    obtain ⟨item, present, rfl⟩ := List.mem_map.mp member
    exact (fits item present).le)
  rw [length_map, smul_eq_mul, Nat.mul_comm] at bounded
  omega

end

end

end DeveloperTools.OffsetAssignment
