import Mathlib.Data.List.Basic

/-!
Runs that can stop with an error: what a sequence of steps keeps when it gets through, and that
it does not stop for a reason for which none of its steps stops.
-/

namespace DeveloperTools.FailingFold

open List

universe u

variable {Error Item : Type*} {State Result : Type u} {next : State → Except Error Result}
  {run : Except Error State}

theorem bind_ok {result : Result} (ok : (run >>= next) = .ok result) :
    ∃ state, run = .ok state ∧ next state = .ok result := by
  cases run with
  | error stop => cases ok
  | ok state => exact ⟨state, rfl, ok⟩

theorem map_ok {made : State → Result} {result : Result} (ok : run.map made = .ok result) :
    ∃ state, run = .ok state ∧ made state = result := by
  cases run with
  | error stop => cases ok
  | ok state => exact ⟨state, rfl, Except.ok.inj ok⟩

theorem bind_error {stop : Error} (failed : (run >>= next) = .error stop) :
    run = .error stop ∨ ∃ state, run = .ok state ∧ next state = .error stop := by
  cases run with
  | error other =>
    cases failed
    exact .inl rfl
  | ok state => exact .inr ⟨state, rfl, failed⟩

theorem bind_ne_error {stop : Error} (first : run ≠ .error stop)
    (second : ∀ state, run = .ok state → next state ≠ .error stop) :
    (run >>= next) ≠ .error stop := by
  cases run with
  | error other =>
    intro stopped
    cases stopped
    exact first rfl
  | ok state => exact second state rfl

variable {step : State → Item → Except Error State} {items : List Item}

theorem foldlM_keeps (Keeps : State → Prop)
    (keeps : ∀ state item after, item ∈ items → Keeps state → step state item = .ok after →
      Keeps after) : ∀ {state after : State}, Keeps state → items.foldlM step state = .ok after →
      Keeps after := by
  induction items with
  | nil =>
    intro state after holds run
    cases run
    exact holds
  | cons item items ih =>
    intro state after holds run
    obtain ⟨middle, first, rest⟩ := bind_ok run
    apply ih (fun state item after isIn => keeps state item after (by simp [isIn]))
      (keeps state item middle mem_cons_self holds first) rest

theorem foldlM_index_keeps (Keeps : Nat → State → Prop)
    (keeps : ∀ i item state after, items[i]? = some item → Keeps i state →
      step state item = .ok after → Keeps (i + 1) after) :
    ∀ {state after : State}, Keeps 0 state → items.foldlM step state = .ok after →
      Keeps items.length after := by
  induction items generalizing Keeps with
  | nil =>
    intro state after holds run
    cases run
    exact holds
  | cons item items ih =>
    intro state after holds run
    obtain ⟨middle, first, rest⟩ := bind_ok run
    exact ih (fun i => Keeps (i + 1))
      (fun i other state after isOther => keeps (i + 1) other state after isOther)
      (keeps 0 item state middle rfl holds first) rest

theorem foldlM_range_keeps {step : State → Nat → Except Error State} (Keeps : Nat → State → Prop)
    {count : Nat} (keeps : ∀ i state after, i < count → Keeps i state → step state i = .ok after →
      Keeps (i + 1) after) {state after : State} (holds : Keeps 0 state)
    (run : (range count).foldlM step state = .ok after) : Keeps count after := by
  rw [← length_range (n := count)]
  apply foldlM_index_keeps Keeps _ holds run
  intro i item state after isItem
  obtain ⟨inside, isIndex⟩ := List.getElem?_eq_some_iff.mp isItem
  rw [getElem_range] at isIndex
  exact isIndex ▸ keeps i state after (by simpa using inside)

theorem foldlM_ne_error (Keeps : State → Prop) {stop : Error}
    (keeps : ∀ state item after, Keeps state → step state item = .ok after → Keeps after)
    (goesOn : ∀ state item, Keeps state → step state item ≠ .error stop) {state : State}
    (holds : Keeps state) : items.foldlM step state ≠ .error stop := by
  induction items generalizing state holds with
  | nil =>
    intro run
    cases run
  | cons item items ih =>
    apply bind_ne_error (goesOn state item holds)
    intro middle first
    exact ih (keeps state item middle holds first)

theorem mapM_ok_mem {f : Item → Except Error State} :
    ∀ {items : List Item} {results : List State}, items.mapM f = .ok results →
      ∀ item ∈ items, ∃ result ∈ results, f item = .ok result := by
  intro items
  induction items with
  | nil =>
    intro results _ item isIn
    cases isIn
  | cons head items ih =>
    intro results run item isIn
    rw [mapM_cons] at run
    obtain ⟨first, ran, run⟩ := bind_ok run
    obtain ⟨rest, ranRest, run⟩ := bind_ok run
    cases run
    rcases mem_cons.mp isIn with rfl | later
    · exact ⟨first, mem_cons_self, ran⟩
    · obtain ⟨result, found, made⟩ := ih ranRest item later
      exact ⟨result, .tail _ found, made⟩

end DeveloperTools.FailingFold
