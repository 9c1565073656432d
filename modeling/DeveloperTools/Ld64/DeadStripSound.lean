import DeveloperTools.Ld64.DeadStripMarking

/-!
What the whole of dead stripping marks and what it leaves. The roots are marked one after
another, and a slot can be filled from an archive in between; the invariant is that every
followed fixup of a marked atom leads to a live atom, or to the one just loaded.
-/

namespace DeveloperTools.Ld64.DeadStrip

open Marking FailingFold
open List Option

variable {Ref : Type}

section Filling

variable {marked : Ref → Prop} {table : List (Option Ref)} {fixup : Fixup Ref} {slot : Nat}
  {atom : Ref}

theorem Settled.fill (settled : Settled marked table fixup) (empty : table[slot]? = some none) :
    Settled (fun next => marked next ∨ next = atom) (table.set slot (some atom)) fixup := by
  obtain ⟨kind, binding⟩ := fixup
  cases binding with
  | directlyBound target => exact .inl settled
  | indirectlyBound index =>
    obtain ⟨entry, found, bound⟩ := settled
    by_cases same : slot = index
    · subst same
      have inRange := (List.getElem?_eq_some_iff.mp empty).1
      refine ⟨some atom, getElem?_set_self inRange, ?_⟩
      intro target isAtom
      cases isAtom
      exact .inr rfl
    · refine ⟨entry, ?_, fun target isIn => .inl (bound target isIn)⟩
      rw [getElem?_set_ne same]
      exact found
  | none => exact settled.elim
  | byNameUnbound name => exact settled.elim
  | byContentBound target => exact settled.elim

theorem target_of_fill {next : Ref} (empty : table[slot]? = some none)
    (bound : targetIn table fixup = some next) :
    targetIn (table.set slot (some atom)) fixup = some next := by
  obtain ⟨kind, binding⟩ := fixup
  cases binding with
  | directlyBound target => exact bound
  | indirectlyBound index =>
    simp only [targetIn, join_eq_some_iff] at bound ⊢
    have differs : slot ≠ index := by
      intro same
      rw [← same, empty] at bound
      cases bound
    rw [getElem?_set_ne differs]
    exact bound
  | none => exact bound
  | byNameUnbound name => exact bound
  | byContentBound target => exact bound

end Filling

/-- The state between the calls of `markLive` from `deadStripOptimize`: an atom in `pending` is
the next to be marked. -/
structure Walked (start pending : Ref → Prop) (state : State Ref) : Prop where
  begun : ∀ atom, start atom → state.live atom = true
  roots : ∀ atom ∈ state.rooted, state.live atom = true
  progress : Progress start (fun _ => False) pending (fun atom => atom ∈ state.rooted) state

variable {name : String}

section Walking

variable {link : Link Ref} {start pending : Ref → Prop} {state after : State Ref}

theorem Walked.initial (state : State Ref) (roots : ∀ atom ∈ state.rooted, state.live atom = true) :
    Walked (fun atom => state.live atom = true) (fun _ => False) state where
  begun _ isLive := isLive
  roots := roots
  progress :=
    { settled := fun _ isLive fresh => absurd isLive fresh
      reached := fun _ isLive fresh => absurd isLive fresh }

theorem Walked.weaken {pending' : Ref → Prop} (walked : Walked start pending state)
    (more : ∀ atom, pending atom → pending' atom) : Walked start pending' state where
  begun := walked.begun
  roots := walked.roots
  progress :=
    { settled := fun atom isLive fresh free fixup isIn kind =>
        (walked.progress.settled atom isLive fresh free fixup isIn kind).mono
          fun _ either => either.imp_right (more _)
      reached := walked.progress.reached }

variable {atom : Ref}

theorem Walked.grow (walked : Walked start pending state) (grown : Grown state after) :
    Walked start pending after := by
  obtain ⟨table, _, rooted, live, fixups⟩ := grown
  constructor
  case begun =>
    rw [live]
    exact walked.begun
  case roots =>
    rw [live, rooted]
    exact walked.roots
  case progress =>
    constructor
    · rw [live, fixups]
      intro atom isLive fresh free fixup isIn kind
      exact (walked.progress.settled atom isLive fresh free fixup isIn kind).grow table
    · rw [live, rooted]
      intro atom isLive fresh
      apply (walked.progress.reached atom isLive fresh).imp
      intro a b _ _ link
      obtain ⟨fixup, isIn, kind, target⟩ := link
      refine ⟨fixup, ?_, kind, target_of_grown table target⟩
      rw [fixups]
      exact isIn

theorem Walked.fill {slot : Nat} (atoms : List Ref) (walked : Walked start (fun _ => False) state)
    (empty : state.indirectBindingTable[slot]? = some none) :
    Walked start (fun other => other = atom) { state with
      atoms := atoms
      indirectBindingTable := state.indirectBindingTable.set slot (some atom) } where
  begun := walked.begun
  roots := walked.roots
  progress :=
    { settled := by
        intro other isLive fresh free fixup isIn kind
        have settled := walked.progress.settled other isLive fresh free fixup isIn kind
        exact ((settled.mono fun _ either => either.resolve_right fun no => no).fill empty)
      reached := by
        intro other isLive fresh
        apply (walked.progress.reached other isLive fresh).imp
        intro a b _ _ link
        obtain ⟨fixup, isIn, kind, target⟩ := link
        exact ⟨fixup, isIn, kind, target_of_fill empty target⟩ }

section

variable (walked : Walked start (fun _ => False) state)
include walked

theorem Walked.follows_live {next : Ref} (isLive : state.live atom = true) (fresh : ¬ start atom)
    (link : Follows state atom next) :
    state.live next = true := by
  obtain ⟨fixup, isIn, kind, target⟩ := link
  have settled := walked.progress.settled atom isLive fresh (fun no => no) fixup isIn kind
  exact (settled.target target).resolve_right fun no => no

theorem Walked.reached_live
    (reached : Reach (Follows state) start (fun atom => atom ∈ state.rooted) atom) :
    state.live atom = true :=
  reached.least walked.roots fun _ _ isLive fresh link => walked.follows_live isLive fresh link

theorem searchedAtom_walked {found : Option Ref}
    (run : searchedAtom link name state = .ok (found, after)) :
    Walked start (fun atom => found = some atom) after := by
  have grown := walked.grow (findSlotForName_grown name state)
  unfold searchedAtom at run
  simp only at run
  split at run
  · cases run
  · cases run
    exact grown.weaken fun _ no => no.elim
  rename_i empty
  split at run
  · cases run
    exact grown.weaken fun _ no => no.elim
  rename_i atom archived
  cases run
  apply (grown.fill _ empty).weaken
  intro other same
  rw [same]

end

variable [DecidableEq Ref] [Fintype Ref]

theorem markRoot_walked (walked : Walked start pending state)
    (next : ∀ other, pending other → other = atom) (run : markRoot link state atom = .ok after) :
    Walked start (fun _ => False) after := by
  obtain ⟨marks, isLive⟩ := markLive_marks run
  have begun : Progress start (fun _ => False) pending
      (fun other => other ∈ atom :: state.rooted)
      { state with rooted := atom :: state.rooted } :=
    { settled := walked.progress.settled
      reached := fun other isLive fresh =>
        (walked.progress.reached other isLive fresh).trans (fun _ old => old)
          fun root isIn => .root (.tail _ isIn) }
  have rooted : after.rooted = atom :: state.rooted := marks.frame.rooted
  refine ⟨fun other old => marks.frame.live other (walked.begun other old), ?_, ?_⟩
  · rw [rooted]
    intro other isIn
    cases mem_cons.mp isIn with
    | inl same => exact same ▸ isLive
    | inr older => exact marks.frame.live other (walked.roots other older)
  · rw [rooted]
    apply begun.further marks walked.begun
    · intro other same
      rw [same]
      exact .root mem_cons_self
    · intro other waiting
      rw [next other waiting]
      exact isLive

/-- Something that holds along the walks from the roots; an atom in `pending` is the next to be
marked. -/
structure Kept (link : Link Ref) (Holds : (Ref → Prop) → State Ref → Prop) : Prop where
  weaken : ∀ {pending pending' state}, Holds pending state →
    (∀ atom, pending atom → pending' atom) → Holds pending' state
  searched : ∀ {name state found after}, Holds (fun _ => False) state →
    searchedAtom link name state = .ok (found, after) → Holds (fun atom => found = some atom) after
  marked : ∀ {pending state atom after}, Holds pending state →
    (∀ other, pending other → other = atom) → markRoot link state atom = .ok after →
    Holds (fun _ => False) after

section

variable {Holds : (Ref → Prop) → State Ref → Prop} (kept : Kept link Holds)
include kept

theorem Kept.optional {atom : Option Ref} (holds : Holds (fun other => atom = some other) state)
    (run : markOptional link state atom = .ok after) : Holds (fun _ => False) after := by
  cases atom with
  | none =>
    cases run
    exact kept.weaken holds fun _ no => by cases no
  | some atom =>
    apply kept.marked holds _ run
    intro other same
    exact (Option.some.inj same).symm

variable (holds : Holds (fun _ => False) state)
include holds

theorem Kept.undefined (run : markUndefined link state name = .ok after) :
    Holds (fun _ => False) after := by
  unfold markUndefined at run
  split at run
  · cases run
  next searched =>
    exact kept.optional (kept.searched holds searched) run

theorem Kept.entry (run : markEntry link state = .ok after) : Holds (fun _ => False) after := by
  unfold markEntry at run
  split at run
  · cases run
  rename_i entry
  apply kept.optional _ run
  unfold entryPoint at entry
  split at entry
  · cases entry
    exact kept.weaken holds fun _ no => no.elim
  split at entry
  · cases entry
  · cases entry
  rename_i searched
  split at entry
  · cases entry
  · cases entry
    exact kept.searched holds searched

theorem Kept.roots {force : Bool} (run : forEachDeadStripRoot link force state = .ok after) :
    Holds (fun _ => False) after := by
  obtain ⟨first, entry, run⟩ := bind_ok run
  obtain ⟨second, undefines, run⟩ := bind_ok run
  obtain ⟨third, helpers, run⟩ := bind_ok run
  have afterUndefines := foldlM_keeps (Holds fun _ => False)
    (fun _ _ _ _ holds run => kept.undefined holds run) (kept.entry holds entry) undefines
  have afterHelpers := foldlM_keeps (Holds fun _ => False)
    (fun _ _ _ _ holds run => kept.optional (kept.weaken holds fun _ no => no.elim) run)
    afterUndefines helpers
  exact foldlM_keeps (Holds fun _ => False)
    (fun _ _ _ _ holds run => kept.marked holds (fun _ no => no.elim) run) afterHelpers run

end

theorem walked_kept : Kept link (Walked start) :=
  ⟨Walked.weaken, fun walked run => searchedAtom_walked walked run, markRoot_walked⟩

section

variable (walked : Walked start (fun _ => False) state)
include walked

theorem markIfRefLive_walked (run : markIfRefLive link state atom = .ok after) :
    Walked start (fun _ => False) after := by
  unfold markIfRefLive at run
  split at run
  · cases run
    exact walked
  split at run
  · exact markRoot_walked walked (fun _ no => no.elim) run
  · cases run
    exact walked

end

end Walking

section Ending

variable {link : Link Ref} {state : State Ref}

theorem searchedAtom_ne_depth : searchedAtom link name state ≠ .error .depth := by
  unfold searchedAtom
  simp only
  split
  · simp
  · simp
  · split <;> simp

variable [DecidableEq Ref] [Fintype Ref]

theorem markOptional_ne_depth {atom : Option Ref} :
    markOptional link state atom ≠ .error .depth := by
  cases atom with
  | none => simp [markOptional]
  | some atom => exact markLive_ne_depth (Nat.lt_succ_of_le (unmarked_le_card _))

theorem markUndefined_ne_depth : markUndefined link state name ≠ .error .depth := by
  unfold markUndefined
  split
  next stop failed =>
    intro same
    cases same
    exact searchedAtom_ne_depth failed
  · exact markOptional_ne_depth

theorem markEntry_ne_depth : markEntry link state ≠ .error .depth := by
  unfold markEntry
  split
  next stop failed =>
    intro same
    cases same
    unfold entryPoint at failed
    split at failed
    · cases failed
    split at failed
    next searched =>
      cases failed
      exact searchedAtom_ne_depth searched
    · cases failed
    · split at failed <;> cases failed
  · exact markOptional_ne_depth

/-- Whatever the graph, the pass returns or stops for a reason that the source has. -/
theorem deadStripOptimize_ne_depth {force : Bool} :
    deadStripOptimize link force state ≠ .error .depth := by
  have loops {Item : Type} (step : State Ref → Item → Except Stop (State Ref))
      (items : List Item) (state : State Ref)
      (goesOn : ∀ state item, step state item ≠ .error .depth) :
      items.foldlM step state ≠ .error .depth :=
    foldlM_ne_error (fun _ => True) (fun _ _ _ _ _ => trivial)
      (fun state item _ => goesOn state item) trivial
  have root (state : State Ref) (atom : Ref) : markRoot link state atom ≠ .error .depth :=
    markLive_ne_depth (Nat.lt_succ_of_le (unmarked_le_card _))
  unfold deadStripOptimize
  split
  · simp
  apply bind_ne_error
  · apply bind_ne_error markEntry_ne_depth
    intro first _
    apply bind_ne_error (loops _ _ _ fun _ _ => markUndefined_ne_depth)
    intro second _
    apply bind_ne_error (loops _ _ _ fun _ _ => markOptional_ne_depth)
    intro third _
    exact loops _ _ _ root
  · intro rooted _
    apply bind_ne_error
    · apply loops
      intro state atom
      unfold markIfRefLive
      split
      · simp
      split
      · exact root state atom
      · simp
    · intro marked _
      simp [pure, Except.pure]

end Ending

section Removing

variable {link : Link Ref} {force : Bool} {state : State Ref} {fixup : Fixup Ref} {next : Ref}

@[simp] theorem removeNotLive_live : (removeNotLive link force state).live = state.live := by
  unfold removeNotLive
  split <;> rfl

@[simp] theorem removeNotLive_fixups : (removeNotLive link force state).fixups = state.fixups := by
  unfold removeNotLive
  split <;> rfl

theorem target_before_removal (bound : (removeNotLive link force state).target fixup = some next) :
    state.target fixup = some next := by
  unfold removeNotLive at bound
  split at bound
  · obtain ⟨kind, binding⟩ := fixup
    cases binding with
    | indirectlyBound slot =>
      simp only [State.target, targetIn, removeDeadAtoms, getElem?_mapIdx] at bound ⊢
      cases entry : state.indirectBindingTable[slot]? with
      | none =>
        rw [entry] at bound
        cases bound
      | some content =>
        rw [entry] at bound
        split at bound
        · cases bound
        · exact bound
    | directlyBound target => exact bound
    | none => exact bound
    | byNameUnbound name => exact bound
    | byContentBound target => exact bound
  · exact bound

theorem target_after_removal (bound : state.target fixup = some next)
    (isLive : state.live next = true) :
    (removeNotLive link force state).target fixup = some next := by
  unfold removeNotLive
  split
  · obtain ⟨kind, binding⟩ := fixup
    cases binding with
    | indirectlyBound slot =>
      simp only [State.target, targetIn, join_eq_some_iff] at bound
      simp only [State.target, targetIn, removeDeadAtoms, getElem?_mapIdx, bound, deadSlot,
        map_some, join_some, notLive, isLive, Bool.true_or, Bool.not_true,
        Bool.false_and, Bool.false_eq_true, if_false]
    | directlyBound target => exact bound
    | none => exact bound
    | byNameUnbound name => exact bound
    | byContentBound target => exact bound
  · exact bound

end Removing

end DeveloperTools.Ld64.DeadStrip
