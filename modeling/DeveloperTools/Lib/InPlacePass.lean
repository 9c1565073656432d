import DeveloperTools.Lib.Transducer

/-!
A pass that rewrites the slots of a buffer in place. The contents of the buffer
end at the first slot marked done. Each round reads some slots from the source
index on and writes one slot at the destination index, which never overtakes
the source; what the written slot does not set keeps its old value.

Since the destination stays behind the source, a round reads slots no round has
written, and a pass preserves the meaning of the contents if every round
replaces slots by one of the same meaning.
-/

namespace DeveloperTools

open List Transducer

/-- `rewrite head rest old` is the slot written over `old` when the source is at
`head`, with the number of further slots used up. -/
structure InPlacePass (Slot : Type*) where
  done : Slot → Bool
  mark : Slot → Slot
  rewrite : Slot → List Slot → Slot → Slot × Nat

namespace InPlacePass

variable {Slot : Type*} (pass : InPlacePass Slot)

/-- The loop; `none` when it reads past the end of the buffer. -/
def loop : Nat → List Slot → Nat → Nat → Option (List Slot)
  | 0, _, _, _ => none
  | fuel + 1, buffer, src, dst =>
    match buffer.drop src with
    | [] => none
    | head :: rest =>
      if pass.done head then some (buffer.modify dst pass.mark)
      else
        let written := pass.rewrite head rest (buffer.getD dst head)
        loop fuel (buffer.set dst written.1) (src + 1 + written.2) (dst + 1)

def run (buffer : List Slot) : Option (List Slot) := pass.loop (buffer.length + 1) buffer 0 0

def contents (buffer : List Slot) : List Slot := buffer.takeWhile fun slot => !pass.done slot

/-- The buffer holds these slots and then a done one. -/
def Holds (buffer live : List Slot) : Prop :=
  (∀ slot ∈ live, pass.done slot = false) ∧
    ∃ stop left, pass.done stop = true ∧ buffer = live ++ stop :: left

/-- Every round replaces slots of the contents by one slot of the same meaning,
which is valid if the first of them was. -/
structure Sound {State Event : Type*} (meaning : Slot → Transducer State Event)
    (valid : Slot → Prop) : Prop where
  marked : ∀ slot, pass.done (pass.mark slot) = true
  live : ∀ head rest old, pass.done head = false → pass.done (pass.rewrite head rest old).1 = false
  within : ∀ head rest old, pass.done head = false →
    (pass.rewrite head rest old).2 ≤ (pass.contents rest).length
  same : ∀ head rest old, pass.done head = false →
    meaning (pass.rewrite head rest old).1 =
      meaning head * Transducer.program meaning (rest.take (pass.rewrite head rest old).2)
  keeps : ∀ head rest old, pass.done head = false → valid head →
    valid (pass.rewrite head rest old).1

variable {pass}

theorem contents_of_holds {buffer live : List Slot} (held : pass.Holds buffer live) :
    pass.contents buffer = live := by
  obtain ⟨alive, stop, left, done, rfl⟩ := held
  rw [contents, takeWhile_append_of_pos]
  · rw [takeWhile_cons_of_neg (by simp [done]), append_nil]
  · intro slot member
    rw [alive slot member]
    rfl

theorem run_within (pass : InPlacePass Slot) {member : Slot → Bool}
    (alive : ∀ slot, member slot = true → pass.done slot = false)
    (rest : List Slot) : (rest.takeWhile member).length ≤ (pass.contents rest).length := by
  induction rest with
  | nil => exact le_rfl
  | cons slot rest ih =>
    unfold contents at ih ⊢
    by_cases inside : member slot = true
    · simp only [takeWhile_cons, inside, alive slot inside, Bool.not_false, if_true, length_cons]
      omega
    · simp [takeWhile_cons, inside]

theorem take_run (member : Slot → Bool) (rest : List Slot) :
    rest.take (rest.takeWhile member).length = rest.takeWhile member :=
  (prefix_iff_eq_take.mp ( takeWhile_prefix member)).symm

section

variable (written : List Slot) (old : Slot) (tail : List Slot)

include written old tail

theorem modify_behind (change : Slot → Slot) :
    (written ++ old :: tail).modify written.length change = written ++ change old :: tail := by
  induction written with
  | nil => rfl
  | cons first written ih => simp [ih]

theorem set_behind (slot : Slot) :
    (written ++ old :: tail).set written.length slot = written ++ slot :: tail := by
  induction written with
  | nil => rfl
  | cons first written ih => simp [ih]

theorem get_behind (other : Slot) : (written ++ old :: tail).getD written.length other = old := by
  simp

end

theorem sound_of_rounds {State Event : Type*} {meaning : Slot → Transducer State Event}
    {valid : Slot → Prop} (marked : ∀ slot, pass.done (pass.mark slot) = true)
    (rounds : ∀ head rest old, pass.done head = false → pass.rewrite head rest old = (head, 0) ∨
      ∃ slot used, pass.rewrite head rest old = (slot, used) ∧ pass.done slot = false ∧
        used ≤ (pass.contents rest).length ∧
        meaning slot = meaning head * Transducer.program meaning (rest.take used) ∧ valid slot) :
    pass.Sound meaning valid := by
  constructor
  · exact marked
  all_goals
    intro head rest old alive
    rcases rounds head rest old alive with moved | ⟨slot, used, replaced, live, within, same, holds⟩
  · rw [moved]
    exact alive
  · rw [replaced]
    exact live
  · rw [moved]
    exact Nat.zero_le _
  · rw [replaced]
    exact within
  · rw [moved, take_zero, program_nil, mul_one]
  · rw [replaced]
    exact same
  · rw [moved]
    exact id
  · rw [replaced]
    exact fun _ => holds

/-- A pass keeps every tally if it puts unmarked slots together and adds their amounts. -/
theorem Sound.tallies {State Event Mark : Type*} {meaning : Slot → Transducer State Event}
    {valid : Slot → Prop} (sound : pass.Sound meaning valid) {amount : Slot → Nat}
    {mark : Slot → Option Mark}
    (adds : ∀ head rest old, pass.rewrite head rest old = (head, 0) ∨
      (mark (pass.rewrite head rest old).1 = none ∧
        (∀ slot ∈ head :: rest.take (pass.rewrite head rest old).2, mark slot = none) ∧
        amount (pass.rewrite head rest old).1 =
          ((head :: rest.take (pass.rewrite head rest old).2).map amount).sum)) :
    pass.Sound (tally amount mark) fun _ => True where
  marked := sound.marked
  live := sound.live
  within := sound.within
  keeps _ _ _ _ _ := trivial
  same head rest old alive := by
    rcases adds head rest old with moved | ⟨unmarked, run, sum⟩
    · rw [moved, take_zero, program_nil, mul_one]
    · rw [← program_cons, ← program_singleton (tally amount mark)]
      funext count
      rw [program_tally_unmarked _ _ run,
        program_tally_unmarked _ _ (forall_mem_singleton.mpr unmarked), ← sum, map_singleton,
        sum_singleton]

section

variable {State Event : Type*} {meaning : Slot → Transducer State Event} {valid : Slot → Prop}
    (sound : pass.Sound meaning valid)

include sound

/-- With the destination behind the source, the slots written so far and the
slots still to read are the program. -/
theorem loop_sound (fuel : Nat) :
    ∀ (written between live rest : List Slot), pass.Holds rest live →
      (∀ slot ∈ written, pass.done slot = false ∧ valid slot) → (∀ slot ∈ live, valid slot) →
      live.length < fuel →
      ∃ result out, pass.loop fuel (written ++ (between ++ rest)) (written.length + between.length)
          written.length = some result ∧ pass.Holds result out ∧ (∀ slot ∈ out, valid slot) ∧
        Transducer.program meaning out =
          Transducer.program meaning written * Transducer.program meaning live := by
  induction fuel with
  | zero =>
    intro _ _ _ _ _ _ _ enough
    exact absurd enough (Nat.not_lt_zero _)
  | succ fuel ih =>
    intro written between live rest held writtenGood liveValid enough
    obtain ⟨alive, stop, left, done, rfl⟩ := held
    have window : (written ++ (between ++ (live ++ stop :: left))).drop
        (written.length + between.length) = live ++ stop :: left := by
      rw [← append_assoc, ← length_append, drop_left]
    cases live with
    | nil =>
      obtain ⟨old, tail, split⟩ := exists_cons_of_ne_nil
        (append_ne_nil_of_right_ne_nil between (cons_ne_nil stop left))
      refine ⟨written ++ pass.mark old :: tail, written, ?_,
        ⟨fun slot member => (writtenGood slot member).1, pass.mark old, tail,
          sound.marked old, rfl⟩, fun slot member => (writtenGood slot member).2, (mul_one _).symm⟩
      rw [loop, window]
      simp only [nil_append, done, if_true]
      rw [split, modify_behind]
    | cons head more =>
      have headLive : pass.done head = false := alive head mem_cons_self
      have moreHeld : pass.Holds (more ++ stop :: left) more :=
        ⟨fun slot member => alive slot (.tail _ member), stop, left, done, rfl⟩
      -- the destination slot is the source slot or one of those in between
      obtain ⟨old, tail, split⟩ := exists_cons_of_ne_nil
        (append_ne_nil_of_right_ne_nil between (cons_ne_nil head []))
      have tailLength : tail.length = between.length := by
        have lengths := congrArg length split
        simpa using lengths.symm
      have buffer : written ++ (between ++ (head :: more ++ stop :: left)) =
          written ++ old :: (tail ++ (more ++ stop :: left)) := by
        have front := congrArg (· ++ (more ++ stop :: left)) split
        simpa using front
      have slotLive := sound.live head (more ++ stop :: left) old headLive
      have within := sound.within head (more ++ stop :: left) old headLive
      have same := sound.same head (more ++ stop :: left) old headLive
      have kept := sound.keeps head (more ++ stop :: left) old headLive
        (liveValid head mem_cons_self)
      rw [contents_of_holds moreHeld] at within
      rw [take_append_of_le_length within] at same
      rw [loop, window, buffer]
      simp only [cons_append, headLive, Bool.false_eq_true, if_false, get_behind, set_behind]
      generalize pass.rewrite head (more ++ stop :: left) old = result at *
      have usedLength : (more.take result.2).length = result.2 := by
        rw [length_take]
        omega
      have nextHeld : pass.Holds (more.drop result.2 ++ stop :: left) (more.drop result.2) :=
        ⟨fun slot member => moreHeld.1 slot (mem_of_mem_drop member), stop, left, done, rfl⟩
      obtain ⟨final, out, ran, held, valids, meant⟩ := ih (written ++ [result.1])
        (tail ++ more.take result.2) (more.drop result.2) _ nextHeld
        (by
          intro slot member
          rcases mem_append.mp member with old | new
          · exact writtenGood slot old
          · rw [mem_singleton.mp new]
            exact ⟨slotLive, kept⟩)
        (fun slot member => liveValid slot (.tail _ (mem_of_mem_drop member)))
        (by
          rw [length_drop]
          simp only [length_cons] at enough
          omega)
      refine ⟨final, out, ?_, held, valids, ?_⟩
      · rw [← ran]
        congr 1
        · rw [← append_assoc (tail ++ more.take result.2), append_assoc tail, take_append_drop]
          simp
        · simp only [length_append, length_singleton, usedLength, tailLength]
          omega
        · simp
      · rw [meant, program_append, program_cons, program_nil,
          mul_one, same, mul_assoc, mul_assoc, ← program_append,
          take_append_drop, program_cons]

theorem run_sound {buffer live : List Slot}
    (held : pass.Holds buffer live) (valids : ∀ slot ∈ live, valid slot) :
    ∃ result out, pass.run buffer = some result ∧ pass.Holds result out ∧
      (∀ slot ∈ out, valid slot) ∧
      Transducer.program meaning out = Transducer.program meaning live := by
  have enough : live.length < buffer.length + 1 := by
    obtain ⟨_, stop, left, _, rfl⟩ := held
    rw [length_append]
    omega
  obtain ⟨result, out, ran, outHeld, outValid, meant⟩ :=
    loop_sound sound (buffer.length + 1) [] [] live buffer held (by simp) valids enough
  exact ⟨result, out, ran, outHeld, outValid, meant⟩

end

end InPlacePass

end DeveloperTools
