import Mathlib.Data.List.Perm.Lattice
import Mathlib.Data.List.Sort
import Mathlib.Order.Defs.LinearOrder
import Mathlib.Tactic

/-!
A map that is walked in the order of its keys, and whose only operation makes a missing value
and changes the value it finds, as `std::map` does behind its index operator; and lists that
are sorted by a numeric key. When the keys are distinct the sorted list is the only increasing
arrangement, so nothing depends on how ties are broken.
-/

namespace DeveloperTools

open List

section

variable (Key Value : Type) [LinearOrder Key]

structure OrderedMap where
  entries : List (Key × Value)
  ordered : entries.Pairwise fun left right => left.1 < right.1

end

namespace OrderedMap

variable {Key Value Item : Type} [LinearOrder Key]

def empty : OrderedMap Key Value := ⟨[], List.Pairwise.nil⟩

def modifyEntries (key : Key) (missing : Value) (change : Value → Value) :
    List (Key × Value) → List (Key × Value)
  | [] => [(key, change missing)]
  | (other, value) :: rest =>
    if key < other then (key, change missing) :: (other, value) :: rest
    else if key = other then (other, change value) :: rest
    else (other, value) :: modifyEntries key missing change rest

variable {change : Value → Value} {missing : Value} {entries : List (Key × Value)}

theorem mem_modify_entries {key : Key} {entry : Key × Value}
    (isIn : entry ∈ modifyEntries key missing change entries) :
    entry.1 = key ∨ entry ∈ entries := by
  induction entries with
  | nil =>
    rw [modifyEntries, mem_singleton] at isIn
    exact Or.inl (congrArg Prod.fst isIn)
  | cons head rest ih =>
    rw [modifyEntries] at isIn
    split_ifs at isIn with below same
    · rcases mem_cons.mp isIn with rfl | later
      · exact Or.inl rfl
      · exact Or.inr later
    · rcases mem_cons.mp isIn with rfl | later
      · exact Or.inl same.symm
      · exact Or.inr (.tail _ later)
    · rcases mem_cons.mp isIn with rfl | later
      · exact Or.inr mem_cons_self
      · exact (ih later).imp_right (mem_cons_of_mem _)

theorem modify_entries_ordered {key : Key}
    (ordered : entries.Pairwise fun left right => left.1 < right.1) :
    (modifyEntries key missing change entries).Pairwise fun left right => left.1 < right.1 := by
  induction entries with
  | nil => exact pairwise_singleton _ _
  | cons head rest ih =>
    obtain ⟨above, tail⟩ := pairwise_cons.mp ordered
    rw [modifyEntries]
    split_ifs with below same
    · apply List.Pairwise.cons
      · intro entry isIn
        rcases mem_cons.mp isIn with rfl | later
        · exact below
        · exact below.trans (above entry later)
      · exact ordered
    · exact List.Pairwise.cons above tail
    · apply List.Pairwise.cons
      · intro entry isIn
        rcases mem_modify_entries isIn with isKey | later
        · rw [isKey]
          exact lt_of_le_of_ne (not_lt.mp below) (Ne.symm same)
        · exact above entry later
      · exact ih tail

def modify (map : OrderedMap Key Value) (key : Key) (missing : Value)
    (change : Value → Value) : OrderedMap Key Value :=
  ⟨modifyEntries key missing change map.entries, modify_entries_ordered map.ordered⟩

def contents (items : Value → List Item) (entries : List (Key × Value)) : List (Key × Item) :=
  entries.flatMap fun entry => (items entry.2).map (Prod.mk entry.1)

theorem contents_modify {items : Value → List Item} {item : Item} (none : items missing = [])
    (added : ∀ value, (items (change value)).Perm (item :: items value))
    (map : OrderedMap Key Value) (key : Key) :
    (contents items (map.modify key missing change).entries).Perm
      ((key, item) :: contents items map.entries) := by
  obtain ⟨entries, ordered⟩ := map
  change (contents items (modifyEntries key missing change entries)).Perm
    ((key, item) :: contents items entries)
  clear ordered
  have fresh : ((items (change missing)).map (Prod.mk key)).Perm [(key, item)] := by
    have single := (added missing).map (Prod.mk key)
    rwa [none, map_cons, map_nil] at single
  induction entries with
  | nil =>
    rw [modifyEntries, contents, flatMap_singleton]
    exact fresh
  | cons head rest ih =>
    rw [modifyEntries]
    split_ifs with below same
    · rw [contents, flatMap_cons]
      exact fresh.append_right _
    · subst same
      have here := ((added head.2).map (Prod.mk head.1)).append_right (contents items rest)
      exact here
    · rw [contents, flatMap_cons, contents, flatMap_cons]
      exact (ih.append_left _).trans perm_middle

end OrderedMap

end DeveloperTools

namespace DeveloperTools.Sorting

open List

variable {Item : Type*} (key : Item → Nat)

theorem merge_sort_by_key (items : List Item) :
    (items.mergeSort fun left right => key left ≤ key right).Pairwise
      fun left right => key left ≤ key right := by
  exact pairwise_mergeSort' (fun left right => key left ≤ key right) items

theorem merge_sort_eq_of_increasing {items sorted : List Item} (same : items.Perm sorted)
    (increasing : sorted.Pairwise fun left right => key left < key right) :
    (items.mergeSort fun left right => key left ≤ key right) = sorted := by
  have distinct : (sorted.map key).Nodup := pairwise_map.mpr (increasing.imp fun less => less.ne)
  have permuted := (mergeSort_perm items fun left right => key left ≤ key right).trans same
  refine List.Perm.eq_of_pairwise ?_ (merge_sort_by_key key items)
    (increasing.imp fun less => less.le) permuted
  intro left right leftMember rightMember below above
  exact inj_on_of_nodup_map distinct (permuted.mem_iff.mp leftMember) rightMember (by omega)

theorem pairwise_of_key_lt {relation : Item → Item → Prop} {items : List Item}
    (sorted : items.Pairwise fun left right => key left ≤ key right)
    (related : items.Pairwise relation) {left right : Item} (leftMember : left ∈ items)
    (rightMember : right ∈ items) (less : key left < key right) : relation left right := by
  induction items with
  | nil => cases leftMember
  | cons item rest ih =>
    rw [pairwise_cons] at sorted related
    rcases mem_cons.mp leftMember with rfl | leftLater
    · rcases mem_cons.mp rightMember with rfl | rightLater
      · omega
      · exact related.1 right rightLater
    rcases mem_cons.mp rightMember with rfl | rightLater
    · have ordered := sorted.1 left leftLater
      omega
    · exact ih sorted.2 related.2 leftLater rightLater

end DeveloperTools.Sorting
