import Mathlib.Tactic

/-!
Where a value cuts a list of increasing keys in two, and the positions between
two cuts.
-/

namespace DeveloperTools.Cuts

open List

def cut (keys : List Int) (value : Int) : Nat := keys.countP (· ≤ value)

theorem cut_le (keys : List Int) (value : Int) : cut keys value ≤ keys.length := countP_le_length

theorem le_iff_lt_cut {keys : List Int} (ordered : keys.Pairwise (· ≤ ·)) (value : Int) {i : Nat}
    (inside : i < keys.length) : keys[i] ≤ value ↔ i < cut keys value := by
  induction keys generalizing i with
  | nil => exact absurd inside (Nat.not_lt_zero i)
  | cons key keys ih =>
    rw [pairwise_cons] at ordered
    by_cases small : key ≤ value
    · have counted : cut (key :: keys) value = cut keys value + 1 := by
        unfold cut
        rw [countP_cons_of_pos (by simpa using small)]
      rw [counted]
      cases i with
      | zero => simpa using small
      | succ i =>
        rw [getElem_cons_succ, ih ordered.2 (by simpa using inside)]
        omega
    · have none : cut (key :: keys) value = 0 := by
        unfold cut
        rw [countP_eq_zero]
        intro other member
        rcases mem_cons.mp member with here | later
        · rw [here]
          simpa using small
        · have := ordered.1 other later
          rw [decide_eq_true_iff]
          omega
      rw [none]
      cases i with
      | zero => simpa using small
      | succ i =>
        have := ordered.1 _ (getElem_mem (by simpa using inside : i < keys.length))
        rw [getElem_cons_succ]
        omega

theorem range_between {count low high : Nat} (within : high ≤ count) :
    (range count).filter (fun i => low ≤ i ∧ i < high) = range' low (high - low) := by
  refine List.Perm.eq_of_pairwise ?_ (pairwise_lt_range.filter _) pairwise_lt_range' ?_
  · intro a b _ _ less more
    omega
  apply (perm_ext_iff_of_nodup (nodup_range.filter _) nodup_range').mpr
  intro i
  rw [mem_filter, mem_range, mem_range'_1, decide_eq_true_iff]
  omega

def Near (limit first second : Int) : Prop := second - first ≤ limit ∧ first - second ≤ limit

/-- Wherever more than the limit is left to go, there is a key within the limit. -/
def Served (keys : List Int) (limit low high : Int) : Prop :=
  ∀ value, low ≤ value → value + limit < high → ∃ key ∈ keys, value < key ∧ key ≤ value + limit

variable {keys : List Int} {limit low high : Int}

/-- The steps over all the keys between two values are within the limit exactly if the keys serve
the way between the two. -/
theorem near_chain_iff (ordered : keys.Pairwise (· ≤ ·)) (nonneg : 0 ≤ limit) (order : low ≤ high)
    (inside : ∀ key ∈ keys, low ≤ key ∧ key ≤ high) :
    IsChain (Near limit) (low :: (keys ++ [high])) ↔ Served keys limit low high := by
  induction keys generalizing low with
  | nil =>
    rw [nil_append, isChain_pair]
    constructor
    · intro near value above more
      have short := near.1
      omega
    · intro served
      refine ⟨?_, by omega⟩
      by_contra far
      obtain ⟨key, isKey, _⟩ := served low (le_refl _) (by omega)
      cases isKey
  | cons key keys ih =>
    rw [pairwise_cons] at ordered
    rw [forall_mem_cons] at inside
    obtain ⟨⟨above, below⟩, later⟩ := inside
    have onward := ih ordered.2 below fun other isIn => ⟨ordered.1 other isIn, (later other isIn).2⟩
    rw [cons_append, isChain_cons_cons, onward]
    constructor
    · rintro ⟨near, served⟩ value atLeast more
      have step := near.1
      by_cases before : value < key
      · exact ⟨key, mem_cons_self, before, by omega⟩
      · obtain ⟨other, isIn, between⟩ := served value (by omega) more
        exact ⟨other, mem_cons_of_mem _ isIn, between⟩
    · intro served
      refine ⟨⟨?_, by omega⟩, fun value atLeast more => ?_⟩
      · by_cases more : low + limit < high
        · obtain ⟨other, isIn, _, near⟩ := served low (le_refl _) more
          rcases mem_cons.mp isIn with rfl | behind
          · omega
          · have first := ordered.1 other behind
            omega
        · omega
      · obtain ⟨other, isIn, between⟩ := served value (by omega) more
        rcases mem_cons.mp isIn with rfl | behind
        · omega
        · exact ⟨other, behind, between⟩

theorem served_between : Served (keys.filter fun key => low < key ∧ key ≤ high) limit low high ↔
    Served keys limit low high := by
  refine forall₃_congr fun value above more => exists_congr fun key => ?_
  rw [mem_filter, decide_eq_true_iff]
  constructor
  · exact fun found => ⟨found.1.1, found.2⟩
  · exact fun found => ⟨⟨found.1, by omega⟩, found.2⟩

theorem near_chain_turned (path : List Int) :
    IsChain (Near limit) path.reverse ↔ IsChain (Near limit) path := by
  rw [isChain_reverse]
  constructor
  · exact fun chain => chain.imp fun _ _ near => ⟨near.2, near.1⟩
  · exact fun chain => chain.imp fun _ _ near => ⟨near.2, near.1⟩

def keyAt (keys : List Int) (i : Nat) : Int := (keys[i]?).getD 0

theorem key_at_inside {i : Nat} (inside : i < keys.length) : keyAt keys i = keys[i] := by
  rw [keyAt, getElem?_eq_getElem inside, Option.getD_some]

/-- The positions between two cuts are those of the keys between the two values. -/
theorem keys_between (ordered : keys.Pairwise (· ≤ ·)) :
    (range' (cut keys low) (cut keys high - cut keys low)).map (keyAt keys) =
      keys.filter fun key => low < key ∧ key ≤ high := by
  have whole : (range keys.length).map (keyAt keys) = keys := by
    apply List.ext_getElem (by simp)
    intro i _ inside
    rw [getElem_map, getElem_range, key_at_inside inside]
  conv_rhs => rw [← whole]
  rw [filter_map, ← range_between (cut_le keys high)]
  congr 1
  apply filter_congr
  intro i isIn
  have inside := mem_range.mp isIn
  have under := le_iff_lt_cut ordered low inside
  have upTo := le_iff_lt_cut ordered high inside
  rw [Function.comp_apply, key_at_inside inside, decide_eq_decide]
  omega

end DeveloperTools.Cuts
