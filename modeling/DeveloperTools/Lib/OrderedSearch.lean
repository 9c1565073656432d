import Mathlib.Tactic

/-!
Tasks that are done one after the other, each of them a head that can fail and further tasks, with
a bound on how often some of them are begun below one another. Which tasks are come to is said by
the heads alone: those of the tasks before have all been done. A bounded performance ends with the
first error it comes to, and is cut short only on a way down that is as long as the bound.
-/

namespace DeveloperTools.OrderedSearch

open List

variable {Task Out Error : Type*}

section Tasks

variable (head : Task → Except Error (List Out × List Task))

/-- The task and all that it leads to can be done. -/
inductive Finishes : Task → Prop
  | all {task : Task} {own : List Out} {tasks : List Task}
      (heads : head task = .ok (own, tasks)) (below : ∀ next ∈ tasks, Finishes next) :
      Finishes task

/-- In doing the one task one comes to the other. -/
inductive ComesTo : Task → Task → Prop
  | here (task : Task) : ComesTo task task
  | down {task next last : Task} {own : List Out} {front back : List Task}
      (heads : head task = .ok (own, front ++ next :: back))
      (done : ∀ before ∈ front, Finishes head before) (further : ComesTo next last) :
      ComesTo task last

def ComesBelow (task last : Task) : Prop :=
  ∃ own front next back, head task = .ok (own, front ++ next :: back) ∧
    (∀ before ∈ front, Finishes head before) ∧ ComesTo head next last

end Tasks

variable {head : Task → Except Error (List Out × List Task)} {task last : Task}

def performAll (perform : Task → Except Error (List Out)) : List Task → Except Error (List Out)
  | [] => .ok []
  | task :: rest => do
    let here ← perform task
    let later ← performAll perform rest
    .ok (here ++ later)

/-- A task of cost one uses up some of the bound, and without any left it is not begun. -/
structure Performs (head : Task → Except Error (List Out × List Task)) (cost : Task → Nat)
    (tired : Error) (perform : Nat → Task → Except Error (List Out)) : Prop where
  costs : ∀ task, cost task ≤ 1
  zero : ∀ task, cost task = 1 → perform 0 task = .error tired
  step : ∀ fuel task, perform (fuel + cost task) task =
    (head task).bind fun found => (performAll (perform fuel) found.2).map (found.1 ++ ·)
  tireless : ∀ task, head task ≠ .error tired
  induct : ∀ {motive : Nat → Task → Prop}, (∀ task, cost task = 1 → motive 0 task) →
    (∀ fuel task, (∀ own tasks, head task = .ok (own, tasks) → ∀ next ∈ tasks,
      motive fuel next) → motive (fuel + cost task) task) → ∀ fuel task, motive fuel task

section Performing

variable {cost : Task → Nat} {tired : Error} {perform : Nat → Task → Except Error (List Out)}

theorem perform_all_ok {tasks : List Task} {result : List Out}
    {run : Task → Except Error (List Out)} (ok : performAll run tasks = .ok result) :
    ∀ next ∈ tasks, ∃ out, run next = .ok out := by
  induction tasks generalizing result with
  | nil => exact fun _ isIn => absurd isIn not_mem_nil
  | cons first rest ih =>
    rw [performAll] at ok
    cases here : run first with
    | error fault =>
      rw [here] at ok
      cases ok
    | ok out =>
      rw [here] at ok
      cases later : performAll run rest with
      | error fault =>
        simp only [later] at ok
        cases ok
      | ok rest => exact forall_mem_cons.mpr ⟨⟨out, here⟩, ih later⟩

/-- The first task that fails is the one whose error is returned. -/
theorem perform_all_error {tasks : List Task} {fault : Error}
    {run : Task → Except Error (List Out)} (failed : performAll run tasks = .error fault) :
    ∃ front next back, tasks = front ++ next :: back ∧ (∀ before ∈ front, ∃ out,
      run before = .ok out) ∧ run next = .error fault := by
  induction tasks with
  | nil => cases failed
  | cons first rest ih =>
    rw [performAll] at failed
    cases here : run first with
    | error other =>
      rw [here] at failed
      cases failed
      exact ⟨[], first, rest, rfl, fun _ isIn => absurd isIn not_mem_nil, here⟩
    | ok out =>
      rw [here] at failed
      cases later : performAll run rest with
      | error other =>
        simp only [later] at failed
        cases failed
        obtain ⟨front, next, back, isRest, done, fails⟩ := ih later
        refine ⟨first :: front, next, back, by rw [isRest, cons_append], ?_, fails⟩
        exact forall_mem_cons.mpr ⟨⟨out, here⟩, done⟩
      | ok rest =>
        simp only [later] at failed
        cases failed

theorem perform_all_front {front back : List Task} {next : Task} {fault : Error}
    {run : Task → Except Error (List Out)} (done : ∀ before ∈ front, ∃ out, run before = .ok out)
    (fails : run next = .error fault) : performAll run (front ++ next :: back) = .error fault := by
  induction front with
  | nil =>
    rw [nil_append, performAll, fails]
    rfl
  | cons first front ih =>
    rw [forall_mem_cons] at done
    obtain ⟨⟨out, here⟩, later⟩ := done
    rw [cons_append, performAll, here, ih later]
    rfl

/-- The tasks in front are all done where what they fail with is not what the whole fails with. -/
theorem front_done {front : List Task} (back : List Task) {run : Task → Except Error (List Out)}
    (other : ∀ before ∈ front, ∀ fault, run before = .error fault →
      performAll run (front ++ back) ≠ .error fault) :
    ∀ before ∈ front, ∃ out, run before = .ok out := by
  induction front with
  | nil => exact fun _ isIn => absurd isIn not_mem_nil
  | cons first front ih =>
    rw [forall_mem_cons] at other
    cases here : run first with
    | error fault =>
      refine absurd ?_ (other.1 fault here)
      rw [cons_append, performAll, here]
      rfl
    | ok out =>
      refine forall_mem_cons.mpr ⟨⟨out, here⟩, ih fun before isIn fault fails whole => ?_⟩
      refine other.2 before isIn fault fails ?_
      rw [cons_append, performAll, here, whole]
      rfl

variable (performs : Performs head cost tired perform)
include performs

theorem Performs.ok_parts {fuel : Nat} {result : List Out}
    (ok : perform (fuel + cost task) task = .ok result) :
    ∃ own tasks, head task = .ok (own, tasks) ∧
      ∀ next ∈ tasks, ∃ out, perform fuel next = .ok out := by
  rw [performs.step] at ok
  cases heads : head task with
  | error fault =>
    rw [heads] at ok
    cases ok
  | ok found =>
    rw [heads] at ok
    cases below : performAll (perform fuel) found.2 with
    | error fault =>
      simp only [Except.bind, below] at ok
      cases ok
    | ok out => exact ⟨found.1, found.2, rfl, perform_all_ok below⟩

theorem Performs.error_parts {fuel : Nat} {fault : Error}
    (failed : perform (fuel + cost task) task = .error fault) :
    head task = .error fault ∨ ∃ own front next back, head task = .ok (own, front ++ next :: back) ∧
      (∀ before ∈ front, ∃ out, perform fuel before = .ok out) ∧
      perform fuel next = .error fault := by
  rw [performs.step] at failed
  cases heads : head task with
  | error other =>
    rw [heads] at failed
    cases failed
    exact .inl rfl
  | ok found =>
    rw [heads] at failed
    cases below : performAll (perform fuel) found.2 with
    | ok out =>
      simp only [Except.bind, below] at failed
      cases failed
    | error other =>
      simp only [Except.bind, below] at failed
      cases failed
      obtain ⟨front, next, back, isTasks, done, fails⟩ := perform_all_error below
      refine .inr ⟨found.1, front, next, back, ?_, done, fails⟩
      rw [← isTasks]

theorem Performs.finishes {fuel : Nat} {result : List Out} (ok : perform fuel task = .ok result) :
    Finishes head task := by
  refine performs.induct (motive := fun fuel task => ∀ result,
    perform fuel task = .ok result → Finishes head task) ?_ ?_ fuel task result ok
  · intro task isCost result ok
    rw [performs.zero task isCost] at ok
    cases ok
  · intro fuel task ih result ok
    obtain ⟨own, tasks, heads, below⟩ := performs.ok_parts ok
    refine .all heads fun next isIn => ?_
    obtain ⟨out, done⟩ := below next isIn
    exact ih own tasks heads next isIn out done

/-- What can be done is done, or cut short. -/
theorem Performs.done_or_tired (finishes : Finishes head task) (fuel : Nat) {fault : Error}
    (failed : perform fuel task = .error fault) : fault = tired := by
  refine performs.induct (motive := fun fuel task => Finishes head task →
    perform fuel task = .error fault → fault = tired) ?_ ?_ fuel task finishes failed
  · intro task isCost _ failed
    rw [performs.zero task isCost] at failed
    exact (Except.error.inj failed).symm
  · intro fuel task ih finishes failed
    obtain ⟨heads, below⟩ := finishes
    rcases performs.error_parts failed with fails | ⟨own, front, next, back, again, _, fails⟩
    · rw [heads] at fails
      cases fails
    · rw [heads] at again
      cases again
      have isIn : next ∈ front ++ next :: back := mem_append_right _ mem_cons_self
      exact ih _ _ heads next isIn (below next isIn) fails

/-- An error is that of the head of a task that is come to. -/
theorem Performs.comes_to_fault {fuel : Nat} {fault : Error}
    (failed : perform fuel task = .error fault) (other : fault ≠ tired) :
    ∃ last, ComesTo head task last ∧ head last = .error fault := by
  revert failed
  apply performs.induct (motive := fun fuel task => perform fuel task = .error fault →
    ∃ last, ComesTo head task last ∧ head last = .error fault) _ _ fuel task
  · intro task isCost failed
    rw [performs.zero task isCost] at failed
    exact absurd (Except.error.inj failed).symm other
  · intro fuel task ih failed
    rcases performs.error_parts failed with fails | ⟨own, front, next, back, heads, done, fails⟩
    · exact ⟨task, .here task, fails⟩
    · obtain ⟨last, further, lastFails⟩ :=
        ih own _ heads next (mem_append_right _ mem_cons_self) fails
      refine ⟨last, .down heads (fun before isIn => ?_) further, lastFails⟩
      obtain ⟨out, isDone⟩ := done before isIn
      exact performs.finishes isDone

/-- A performance that is cut short goes down as far as the bound. -/
theorem Performs.tired_way {fuel : Nat} (failed : perform fuel task = .error tired) :
    ∃ way : List Task, way.length = fuel + 1 ∧ (∀ last ∈ way, cost last = 1 ∧
      ComesTo head task last) ∧ way.Pairwise (ComesBelow head) := by
  revert failed
  apply performs.induct (motive := fun fuel task => perform fuel task = .error tired →
    ∃ way : List Task, way.length = fuel + 1 ∧ (∀ last ∈ way, cost last = 1 ∧
      ComesTo head task last) ∧ way.Pairwise (ComesBelow head)) _ _ fuel task
  · intro task isCost _
    refine ⟨[task], rfl, fun last isIn => ?_, pairwise_singleton _ _⟩
    rw [mem_singleton.mp isIn]
    exact ⟨isCost, .here task⟩
  · intro fuel task ih failed
    rcases performs.error_parts failed with fails | ⟨own, front, next, back, heads, done, fails⟩
    · exact absurd fails (performs.tireless task)
    have finished : ∀ before ∈ front, Finishes head before := by
      intro before isIn
      obtain ⟨out, isDone⟩ := done before isIn
      exact performs.finishes isDone
    obtain ⟨way, isLength, comes, below⟩ :=
      ih own _ heads next (mem_append_right _ mem_cons_self) fails
    have comesHere : ∀ last ∈ way, cost last = 1 ∧ ComesTo head task last := fun last isIn =>
      ⟨(comes last isIn).1, .down heads finished (comes last isIn).2⟩
    rcases Nat.le_one_iff_eq_zero_or_eq_one.mp (performs.costs task) with free | isCost
    · rw [free]
      exact ⟨way, isLength, comesHere, below⟩
    · rw [isCost]
      refine ⟨task :: way, by rw [length_cons, isLength], ?_, pairwise_cons.mpr ⟨?_, below⟩⟩
      · exact forall_mem_cons.mpr ⟨⟨isCost, .here task⟩, comesHere⟩
      · intro last isIn
        exact ⟨own, front, next, back, heads, finished, (comes last isIn).2⟩

theorem Performs.below_next {fuel : Nat} {own : List Out} {front back : List Task} {next : Task}
    (heads : head task = .ok (own, front ++ next :: back))
    (done : ∀ before ∈ front, Finishes head before)
    (ends : perform (fuel + cost task) task ≠ .error tired) :
    perform fuel next ≠ .error tired ∧ ∀ fault, perform fuel next = .error fault →
      perform (fuel + cost task) task = .error fault := by
  rw [performs.step, heads] at ends ⊢
  have all : ∀ before ∈ front, ∃ out, perform fuel before = .ok out := by
    refine front_done (next :: back) fun before isIn fault fails whole => ends ?_
    rw [performs.done_or_tired (done before isIn) fuel fails] at whole
    simp only [Except.bind, whole]
    rfl
  have carried (fault : Error) (fails : perform fuel next = .error fault) :
      ((Except.ok (own, front ++ next :: back)).bind fun found =>
        (performAll (perform fuel) found.2).map (found.1 ++ ·)) = .error fault := by
    simp only [Except.bind, perform_all_front all fails]
    rfl
  exact ⟨fun fails => ends (carried tired fails), carried⟩

theorem Performs.begun {fuel : Nat} (ends : perform fuel task ≠ .error tired) :
    ∃ rest, fuel = rest + cost task := by
  refine Nat.exists_eq_add_of_le' ?_
  by_contra short
  have atMost := performs.costs task
  have isCost : cost task = 1 := by omega
  have none : fuel = 0 := by omega
  rw [none] at ends
  exact ends (performs.zero task isCost)

/-- What is come to in a performance that is not cut short is performed with no more, and an error
there is the error of the whole. -/
theorem Performs.comes_to_ends (comes : ComesTo head task last) :
    ∀ {fuel : Nat}, perform fuel task ≠ .error tired → ∃ less ≤ fuel,
      perform less last ≠ .error tired ∧ ∀ fault, perform less last = .error fault →
        perform fuel task = .error fault := by
  induction comes with
  | here task => exact fun {fuel} ends => ⟨fuel, le_refl _, ends, fun _ failed => failed⟩
  | @down task next last own front back heads done _ ih =>
    intro fuel ends
    obtain ⟨rest, rfl⟩ := performs.begun ends
    obtain ⟨nextEnds, carried⟩ := performs.below_next heads done ends
    obtain ⟨less, isLess, lastEnds, lastCarried⟩ := ih nextEnds
    exact ⟨less, by omega, lastEnds, fun fault failed => carried fault (lastCarried fault failed)⟩

/-- A failing head that is come to is the error of the whole. -/
theorem Performs.comes_to_failing (comes : ComesTo head task last) {fault : Error}
    (fails : head last = .error fault) {fuel : Nat} (ends : perform fuel task ≠ .error tired) :
    perform fuel task = .error fault := by
  obtain ⟨less, _, lastEnds, carried⟩ := performs.comes_to_ends comes ends
  obtain ⟨rest, rfl⟩ := performs.begun lastEnds
  refine carried fault ?_
  rw [performs.step, fails]
  rfl

theorem Performs.comes_below_ends (isCost : cost task = 1) (comes : ComesBelow head task last)
    {fuel : Nat} (ends : perform fuel task ≠ .error tired) : ∃ less < fuel,
      perform less last ≠ .error tired ∧ ∀ fault, perform less last = .error fault →
        perform fuel task = .error fault := by
  obtain ⟨own, front, next, back, heads, done, further⟩ := comes
  obtain ⟨rest, rfl⟩ := performs.begun ends
  obtain ⟨nextEnds, carried⟩ := performs.below_next heads done ends
  obtain ⟨less, isLess, lastEnds, lastCarried⟩ := performs.comes_to_ends further nextEnds
  exact ⟨less, by omega, lastEnds, fun fault failed => carried fault (lastCarried fault failed)⟩

end Performing

section Repeating

/-- A task does again what an alike one did, as long as it does not fail for one reason. -/
structure Repeats (head : Task → Except Error (List Out × List Task)) (cost : Task → Nat)
    (fault : Error) (Alike : Task → Task → Prop) : Prop where
  costs : ∀ {task again}, Alike task again → cost again = cost task
  step : ∀ {task again own tasks}, Alike task again → head task = .ok (own, tasks) →
    head again = .error fault ∨ ∃ own' tasks', head again = .ok (own', tasks') ∧
      Forall₂ Alike tasks tasks'

variable {cost : Task → Nat} {tired fault : Error} {perform : Nat → Task → Except Error (List Out)}
  {Alike : Task → Task → Prop}

theorem forall₂_split : ∀ {front back tasks : List Task} {next : Task},
    Forall₂ Alike (front ++ next :: back) tasks → ∃ front' next' back',
      tasks = front' ++ next' :: back' ∧ Forall₂ Alike front front' ∧ Alike next next' := by
  intro front
  induction front with
  | nil =>
    intro back tasks next alike
    obtain ⟨next', back', nextAlike, _, rfl⟩ := forall₂_cons_left_iff.mp alike
    exact ⟨[], next', back', rfl, .nil, nextAlike⟩
  | cons first front ih =>
    intro back tasks next alike
    obtain ⟨first', rest, firstAlike, restAlike, rfl⟩ := forall₂_cons_left_iff.mp alike
    obtain ⟨front', next', back', rfl, frontAlike, nextAlike⟩ := ih restAlike
    exact ⟨first' :: front', next', back', rfl, .cons firstAlike frontAlike, nextAlike⟩

theorem exists_alike {tasks tasks' : List Task} (alike : Forall₂ Alike tasks tasks')
    {again : Task} (isIn : again ∈ tasks') : ∃ task ∈ tasks, Alike task again := by
  induction alike with
  | nil => cases isIn
  | cons firstAlike _ ih =>
    rcases mem_cons.mp isIn with rfl | isLater
    · exact ⟨_, mem_cons_self, firstAlike⟩
    · obtain ⟨task, isTask, isAlike⟩ := ih isLater
      exact ⟨task, mem_cons_of_mem _ isTask, isAlike⟩

variable (performs : Performs head cost tired perform) (repeats : Repeats head cost fault Alike)
include performs repeats

/-- What is alike to a task that can be done is done, fails for the one reason or is cut short. -/
theorem Performs.again_fails {fuel : Nat} {task again : Task} {stop : Error}
    (alike : Alike task again) (finishes : Finishes head task)
    (failed : perform fuel again = .error stop) : stop = tired ∨ stop = fault := by
  refine performs.induct (motive := fun fuel again => ∀ task, Alike task again →
    Finishes head task → perform fuel again = .error stop → stop = tired ∨ stop = fault)
    ?_ ?_ fuel again task alike finishes failed
  · intro again isCost _ _ _ failed
    rw [performs.zero again isCost] at failed
    exact .inl (Except.error.inj failed).symm
  · intro fuel again ih task alike finishes failed
    obtain ⟨heads, below⟩ := finishes
    rcases repeats.step alike heads with faults | ⟨own', tasks', heads', tasksAlike⟩
    · rw [performs.step, faults] at failed
      exact .inr (Except.error.inj failed).symm
    rcases performs.error_parts failed with fails | ⟨own, front, next, back, split, _, fails⟩
    · rw [heads'] at fails
      cases fails
    · rw [heads'] at split
      cases split
      have isIn : next ∈ front ++ next :: back := mem_append_right _ mem_cons_self
      obtain ⟨first, isFirst, firstAlike⟩ := exists_alike tasksAlike isIn
      exact ih _ _ heads' next isIn first firstAlike (below first isFirst) fails

theorem Performs.again_next {fuel : Nat} {again : Task} {own : List Out}
    {front back : List Task} {next : Task} (alike : Alike task again)
    (heads : head task = .ok (own, front ++ next :: back))
    (done : ∀ before ∈ front, Finishes head before)
    (ends : perform fuel again ≠ .error tired) (sound : perform fuel again ≠ .error fault) :
    ∃ own' front' next' back' less, head again = .ok (own', front' ++ next' :: back') ∧
      (∀ before ∈ front', Finishes head before) ∧ Alike next next' ∧
      perform less next' ≠ .error tired ∧ perform less next' ≠ .error fault := by
  obtain ⟨rest, rfl⟩ := performs.begun ends
  rcases repeats.step alike heads with faults | ⟨own', tasks', heads', tasksAlike⟩
  · rw [performs.step, faults] at sound
    exact absurd rfl sound
  obtain ⟨front', next', back', rfl, frontAlike, nextAlike⟩ := forall₂_split tasksAlike
  have whole {stop : Error}
      (stopped : performAll (perform rest) (front' ++ next' :: back') = .error stop) :
      perform (rest + cost again) again = .error stop := by
    rw [performs.step, heads']
    simp only [Except.bind, stopped]
    rfl
  have all : ∀ before ∈ front', ∃ out, perform rest before = .ok out := by
    refine front_done (next' :: back') fun before isIn stop fails stopped => ?_
    obtain ⟨first, isFirst, firstAlike⟩ := exists_alike frontAlike isIn
    rcases performs.again_fails repeats firstAlike (done first isFirst) fails with rfl | rfl
    · exact ends (whole stopped)
    · exact sound (whole stopped)
  refine ⟨own', front', next', back', rest, heads', fun before isIn => ?_, nextAlike, ?_, ?_⟩
  · obtain ⟨out, isDone⟩ := all before isIn
    exact performs.finishes isDone
  · exact fun fails => ends (whole (perform_all_front all fails))
  · exact fun fails => sound (whole (perform_all_front all fails))

theorem Performs.again_comes (comes : ComesTo head task last) : ∀ {fuel : Nat} {again : Task},
    Alike task again → perform fuel again ≠ .error tired → perform fuel again ≠ .error fault →
    ∃ last', Alike last last' ∧ ComesTo head again last' := by
  induction comes with
  | here task => exact fun {_ again} alike _ _ => ⟨again, alike, .here again⟩
  | down heads done _ ih =>
    intro fuel again alike ends sound
    obtain ⟨own', front', next', back', less, heads', done', nextAlike, nextEnds, nextSound⟩ :=
      performs.again_next repeats alike heads done ends sound
    obtain ⟨last', lastAlike, further⟩ := ih nextAlike nextEnds nextSound
    exact ⟨last', lastAlike, .down heads' done' further⟩

theorem Performs.again_below {fuel : Nat} {again : Task} (below : ComesBelow head task last)
    (alike : Alike task again) (ends : perform fuel again ≠ .error tired)
    (sound : perform fuel again ≠ .error fault) :
    ∃ last', Alike last last' ∧ ComesBelow head again last' := by
  obtain ⟨own, front, next, back, heads, done, further⟩ := below
  obtain ⟨own', front', next', back', less, heads', done', nextAlike, nextEnds, nextSound⟩ :=
    performs.again_next repeats alike heads done ends sound
  obtain ⟨last', lastAlike, further'⟩ :=
    performs.again_comes repeats further nextAlike nextEnds nextSound
  exact ⟨last', lastAlike, own', front', next', back', heads', done', further'⟩

/-- A task that comes to an alike one below itself is never done: with each repetition there is
less of the bound left. -/
theorem Performs.never_done (fuel : Nat) : ∀ {task again : Task}, cost task = 1 →
    Alike task again → ComesBelow head task again →
    perform fuel task = .error tired ∨ perform fuel task = .error fault := by
  induction fuel using Nat.strong_induction_on with
  | _ fuel ih =>
    intro task again isCost alike below
    by_contra neither
    rw [not_or] at neither
    obtain ⟨less, isLess, ends, carried⟩ :=
      performs.comes_below_ends isCost below neither.1
    have sound : perform less again ≠ .error fault := fun fails => neither.2 (carried _ fails)
    obtain ⟨third, thirdAlike, further⟩ := performs.again_below repeats below alike ends sound
    have againCost : cost again = 1 := by rw [repeats.costs alike, isCost]
    rcases ih less isLess againCost thirdAlike further with tires | faults
    · exact ends tires
    · exact sound faults

end Repeating

end DeveloperTools.OrderedSearch
