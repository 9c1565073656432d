import Mathlib.Tactic

/-!
Machines that emit events while they change their state. Running one step after
the other makes the steps a monoid, so a program is the product of its
instructions and a rewriting of a program is an equation between products.
-/

namespace DeveloperTools

open List

def Transducer (State Event : Type*) := State → State × List Event

namespace Transducer

variable {State Event : Type*}

instance : Monoid (Transducer State Event) where
  one := fun state => (state, [])
  mul first second := fun state =>
    ((second (first state).1).1, (first state).2 ++ (second (first state).1).2)
  one_mul step := rfl
  mul_one step := by
    funext state
    exact Prod.ext rfl (append_nil _)
  mul_assoc first second third := by
    funext state
    exact Prod.ext rfl (List.append_assoc _ _ _)

theorem one_apply (state : State) : (1 : Transducer State Event) state = (state, []) := rfl

theorem mul_apply (first second : Transducer State Event) (state : State) : (first * second) state =
      ((second (first state).1).1, (first state).2 ++ (second (first state).1).2) := rfl

variable {Instruction : Type*} (meaning : Instruction → Transducer State Event)

def program (instructions : List Instruction) : Transducer State Event :=
  (instructions.map meaning).prod

@[simp] theorem program_nil : program meaning [] = 1 := rfl

@[simp] theorem program_cons (first : Instruction) (rest : List Instruction) :
    program meaning (first :: rest) = meaning first * program meaning rest := prod_cons

@[simp] theorem program_append (first second : List Instruction) :
    program meaning (first ++ second) = program meaning first * program meaning second := by
  rw [program, map_append, prod_append]
  rfl

theorem program_then {meaning : Instruction → Transducer State Event}
    {first second : List Instruction} {start middle finish : State} {early late : List Event}
    (one : program meaning first start = (middle, early))
    (other : program meaning second middle = (finish, late)) :
    program meaning (first ++ second) start = (finish, early ++ late) := by
  rw [program_append, mul_apply, one, other]

theorem program_events_then {meaning : Instruction → Transducer State Event}
    {first : List Instruction} {start middle : State} {early : List Event}
    (one : program meaning first start = (middle, early)) (second : List Instruction) :
    (program meaning (first ++ second) start).2 = early ++ (program meaning second middle).2 := by
  rw [program_append, mul_apply, one]

theorem program_singleton (instruction : Instruction) :
    program meaning [instruction] = meaning instruction := prod_singleton

theorem program_of_same {step : Transducer State Event} {run : List Instruction}
    (same : ∀ instruction ∈ run, meaning instruction = step) :
    program meaning run = step ^ run.length := by
  rw [program, ← length_map meaning]
  apply prod_eq_pow_card
  intro other member
  obtain ⟨instruction, inside, rfl⟩ := List.mem_map.mp member
  exact same instruction inside

section Tally

variable {Mark : Type*} (amount : Instruction → Nat) (mark : Instruction → Option Mark)

/-- A machine that only counts, and gives each mark with the count it has reached. -/
def tally (instruction : Instruction) : Transducer Nat (Nat × Mark) := fun count =>
  (count + amount instruction, (mark instruction).toList.map fun given => (count, given))

theorem program_tally_unmarked {run : List Instruction}
    (unmarked : ∀ instruction ∈ run, mark instruction = none) (count : Nat) :
    program (tally amount mark) run count = (count + (run.map amount).sum, []) := by
  induction run generalizing count with
  | nil => rfl
  | cons first rest ih =>
    rw [forall_mem_cons] at unmarked
    rw [program_cons, mul_apply, tally, unmarked.1, ih unmarked.2, map_cons, sum_cons, Nat.add_assoc]
    rfl

end Tally

end Transducer

end DeveloperTools
