import Mathlib.Data.List.Basic

/-!
Records with keys in the order of their insertion. An upsert changes the record of a key, which
it appends first if there is none.
-/

namespace DeveloperTools

variable {Record Key Item : Type} [DecidableEq Key] {keyOf : Record → Key} {missing : Record}
  {change : Record → Record} {records : List Record}

def upsert (keyOf : Record → Key) (missing : Record) (change : Record → Record)
    (records : List Record) : List Record :=
  if ∃ record ∈ records, keyOf record = keyOf missing then
    records.map fun record => if keyOf record = keyOf missing then change record else record
  else records ++ [change missing]

theorem forall_mem_upsert {p : Record → Prop} (old : ∀ record ∈ records, p record)
    (new : p missing) (keeps : ∀ record, keyOf record = keyOf missing → p record →
      p (change record)) : ∀ record ∈ upsert keyOf missing change records, p record := by
  intro record isIn
  unfold upsert at isIn
  split at isIn
  · obtain ⟨before, isBefore, rfl⟩ := List.mem_map.mp isIn
    split
    · exact keeps before ‹_› (old before isBefore)
    · exact old before isBefore
  rcases List.mem_append.mp isIn with isOld | isNew
  · exact old record isOld
  · rw [List.mem_singleton.mp isNew]
    exact keeps missing rfl new

theorem mem_flatMap_upsert {visit : Record → List Item} {extra : List Item} {item : Item}
    (grows : ∀ record ∈ records, keyOf record = keyOf missing →
      (item ∈ visit (change record) ↔ item ∈ visit record ∨ item ∈ extra))
    (new : (∀ record ∈ records, keyOf record ≠ keyOf missing) →
      (item ∈ visit (change missing) ↔ item ∈ extra)) :
    item ∈ (upsert keyOf missing change records).flatMap visit ↔
      item ∈ records.flatMap visit ∨ item ∈ extra := by
  unfold upsert
  split
  next found =>
    simp only [List.mem_flatMap, List.mem_map, exists_exists_and_eq_and]
    constructor
    · rintro ⟨record, isIn, isItem⟩
      split at isItem
      · exact ((grows record isIn ‹_›).mp isItem).imp_left fun old => ⟨record, isIn, old⟩
      · exact .inl ⟨record, isIn, isItem⟩
    rintro (⟨record, isIn, isItem⟩ | isExtra)
    · refine ⟨record, isIn, ?_⟩
      split
      · exact (grows record isIn ‹_›).mpr (.inl isItem)
      · exact isItem
    · obtain ⟨record, isIn, isKey⟩ := found
      exact ⟨record, isIn, (if_pos isKey).symm ▸ (grows record isIn isKey).mpr (.inr isExtra)⟩
  next absent =>
    simp [new fun record isIn isKey => absent ⟨record, isIn, isKey⟩]

end DeveloperTools
