import Mathlib.Data.List.Destutter
import DeveloperTools.Lib.Leb128

/-!
Lists of machine words written as the differences of neighbours in ULEB128 and
ended by a zero. A difference of zero would end the list, so a word that is the
one before it is not written.
-/

namespace DeveloperTools.Leb128

open List Nat

variable {size last next fuel : Nat} {values : List Nat}

def delta (size last next : Nat) : Nat := (next + size - last) % size

def writeDeltas (size : Nat) : Nat → List Nat → List UInt8
  | _, [] => []
  | last, next :: rest =>
    (if delta size last next = 0 then [] else encode (delta size last next)) ++
      writeDeltas size next rest

def fresh : Nat → List Nat → List Nat
  | _, [] => []
  | last, next :: rest => if last = next then fresh last rest else next :: fresh next rest

/-- Reads words up to a zero; every difference takes a byte, so the length of
the stream is fuel enough. -/
def readDeltas (size : Nat) : Nat → Nat → List UInt8 → Option (List Nat × List UInt8)
  | 0, _, _ => none
  | fuel + 1, last, stream => do
    let (delta, rest) ← decode stream
    if delta = 0 then some ([], rest)
    else do
      let next := (last + delta) % size
      let (more, left) ← readDeltas size fuel next rest
      some (next :: more, left)

theorem delta_spec (lastFits : last < size) (nextFits : next < size) :
    (delta size last next = 0 ↔ last = next) ∧ (last + delta size last next) % size = next := by
  rcases lt_or_ge next last with before | after
  · have wraps : delta size last next = next + size - last := mod_eq_of_lt (by omega)
    have round : last + (next + size - last) = next + size := by omega
    rw [wraps, round, add_mod_right, mod_eq_of_lt nextFits]
    omega
  have plain : delta size last next = next - last := by
    rw [delta, show next + size - last = next - last + size by omega, add_mod_right,
      mod_eq_of_lt (by omega)]
  rw [plain, add_sub_of_le after, mod_eq_of_lt nextFits]
  omega

theorem write_deltas_append (size last : Nat) (first second : List Nat) :
    writeDeltas size last (first ++ second) =
      writeDeltas size last first ++ writeDeltas size (first.getLastD last) second := by
  induction first generalizing last with
  | nil => rfl
  | cons next first ih =>
    rw [cons_append, writeDeltas, writeDeltas, ih, append_assoc]
    rw [getLastD_cons]

theorem read_deltas_written (rest : List UInt8) (lastFits : last < size)
    (fits : ∀ value ∈ values, value < size)
    (enough : (writeDeltas size last values).length < fuel) :
    readDeltas size fuel last (writeDeltas size last values ++ 0 :: rest) =
      some (fresh last values, rest) := by
  induction values generalizing last fuel with
  | nil =>
    obtain ⟨fuel, rfl⟩ := exists_eq_succ_of_ne_zero (ne_zero_of_lt enough)
    rfl
  | cons next values ih =>
    obtain ⟨nextFits, moreFit⟩ := forall_mem_cons.mp fits
    obtain ⟨zero, back⟩ := delta_spec lastFits nextFits
    rw [writeDeltas] at enough ⊢
    rw [fresh]
    by_cases same : last = next
    · subst same
      rw [if_pos (zero.mpr rfl)] at enough ⊢
      rw [if_pos rfl]
      exact ih lastFits moreFit enough
    have written : delta size last next ≠ 0 := same ∘ zero.mp
    have positive := encode_size (delta size last next) ▸ size_positive (delta size last next)
    rw [if_neg written, length_append] at enough
    obtain ⟨fuel, rfl⟩ := exists_eq_succ_of_ne_zero (ne_zero_of_lt enough)
    have room : (writeDeltas size next values).length < fuel := by omega
    have later := ih nextFits moreFit room
    rw [if_neg same, if_neg written, append_assoc, readDeltas, decode_encode]
    simp only [Option.bind_eq_bind, Option.bind_some, if_neg written, back, later]

theorem destutter_eq_fresh (last : Nat) (values : List Nat) :
    (last :: values).destutter (· ≠ ·) = last :: fresh last values := by
  rw [destutter_cons']
  induction values generalizing last with
  | nil => rfl
  | cons next values ih =>
    rw [destutter'_cons, fresh, ih, ih]
    by_cases same : last = next <;> simp [same]

theorem fresh_increasing_iff (last : Nat) (values : List Nat) :
    (last :: fresh last values).Pairwise (· < ·) ↔ (last :: values).Pairwise (· ≤ ·) := by
  rw [← isChain_iff_pairwise, ← isChain_iff_pairwise]
  induction values generalizing last with
  | nil => simp [fresh]
  | cons next values ih =>
    rw [fresh, isChain_cons_cons, ← ih next]
    by_cases same : last = next
    · simp [same]
    · rw [if_neg same, isChain_cons_cons]
      simp only [le_iff_lt_or_eq, same, or_false]

end DeveloperTools.Leb128
