import DeveloperTools.Lib.FailingFold
import DeveloperTools.Ld64.DeadStrip

/-!
What a call of `markLive` does. The atoms it marks are those its followed fixups reach, and
when it returns each of their followed fixups is bound and leads to a live atom or to an empty
slot. The fixups of an atom are bound while the loop over them runs, so the loop has an
invariant of its own, in which that atom is in hand.
-/

namespace DeveloperTools.Ld64.DeadStrip

open Marking FailingFold
open List Option Function

variable {Ref : Type}

/-- A fixup is bound, and to nothing outside `marked`. -/
def Settled (marked : Ref → Prop) (table : List (Option Ref)) (fixup : Fixup Ref) : Prop :=
  match fixup.binding with
  | .directlyBound target => marked target
  | .indirectlyBound slot => ∃ entry, table[slot]? = some entry ∧ ∀ target ∈ entry, marked target
  | _ => False

def Follows (state : State Ref) (atom next : Ref) : Prop :=
  ∃ fixup ∈ state.fixups atom, followed fixup.kind = true ∧ state.target fixup = some next

variable {slot : Nat}

section Bindings

variable {marked marked' : Ref → Prop} {table table' : List (Option Ref)} {fixup : Fixup Ref}

theorem Settled.mono (settled : Settled marked table fixup)
    (more : ∀ atom, marked atom → marked' atom) : Settled marked' table fixup := by
  obtain ⟨kind, binding⟩ := fixup
  cases binding with
  | directlyBound target => exact more _ settled
  | indirectlyBound slot =>
    obtain ⟨entry, found, bound⟩ := settled
    exact ⟨entry, found, fun target isIn => more _ (bound target isIn)⟩
  | none => exact settled
  | byNameUnbound name => exact settled
  | byContentBound target => exact settled

theorem getElem?_of_grown {entry : Option Ref} (grown : table <+: table')
    (found : table[slot]? = some entry) : table'[slot]? = some entry := by
  obtain ⟨rest, rfl⟩ := grown
  rw [getElem?_append_left (List.getElem?_eq_some_iff.mp found).1]
  exact found

theorem Settled.grow (settled : Settled marked table fixup) (grown : table <+: table') :
    Settled marked table' fixup := by
  obtain ⟨kind, binding⟩ := fixup
  cases binding with
  | directlyBound target => exact settled
  | indirectlyBound slot =>
    obtain ⟨entry, found, bound⟩ := settled
    exact ⟨entry, getElem?_of_grown grown found, bound⟩
  | none => exact settled
  | byNameUnbound name => exact settled
  | byContentBound target => exact settled

theorem Settled.target {next : Ref} (settled : Settled marked table fixup)
    (bound : targetIn table fixup = some next) : marked next := by
  obtain ⟨kind, binding⟩ := fixup
  cases binding with
  | directlyBound target =>
    cases bound
    exact settled
  | indirectlyBound slot =>
    obtain ⟨entry, found, all⟩ := settled
    simp only [targetIn, found, join_some] at bound
    exact all next bound
  | none => exact settled.elim
  | byNameUnbound name => exact settled.elim
  | byContentBound target => exact settled.elim

theorem target_of_grown {next : Ref} (grown : table <+: table')
    (bound : targetIn table fixup = some next) : targetIn table' fixup = some next := by
  obtain ⟨kind, binding⟩ := fixup
  cases binding with
  | directlyBound target => exact bound
  | indirectlyBound slot =>
    simp only [targetIn, join_eq_some_iff] at bound ⊢
    exact getElem?_of_grown grown bound
  | none => exact bound
  | byNameUnbound name => exact bound
  | byContentBound target => exact bound

end Bindings

/-- What no call of `markLive` undoes. -/
structure Frame (before after : State Ref) : Prop where
  table : before.indirectBindingTable <+: after.indirectBindingTable
  atoms : after.atoms = before.atoms
  rooted : after.rooted = before.rooted
  live : ∀ atom, before.live atom = true → after.live atom = true
  old : ∀ atom, before.live atom = true → after.fixups atom = before.fixups atom
  follows : ∀ atom next, Follows before atom next → Follows after atom next

/-- How far a walk has come: what was not in `start` and is live now is met from the roots, and
has settled fixups if it is not in hand. -/
structure Progress (start inHand pending root : Ref → Prop) (state : State Ref) : Prop where
  settled : ∀ atom, state.live atom = true → ¬ start atom → ¬ inHand atom →
    ∀ fixup ∈ state.fixups atom, followed fixup.kind = true →
      Settled (fun next => state.live next = true ∨ pending next) state.indirectBindingTable fixup
  reached : ∀ atom, state.live atom = true → ¬ start atom → Reach (Follows state) start root atom

/-- What one or more calls of `markLive` do that start from the atoms in `root`. -/
structure Marks (root : Ref → Prop) (before after : State Ref) : Prop where
  frame : Frame before after
  progress : Progress (fun atom => before.live atom = true) (fun _ => False) (fun _ => False)
    root after

section Composition

variable {start inHand pending root root' : Ref → Prop} {before middle after : State Ref}

theorem Frame.refl (state : State Ref) : Frame state state where
  table := prefix_rfl
  atoms := rfl
  rooted := rfl
  live _ isLive := isLive
  old _ _ := rfl
  follows _ _ link := link

theorem Frame.trans (first : Frame before middle) (second : Frame middle after) :
    Frame before after where
  table := first.table.trans second.table
  atoms := second.atoms.trans first.atoms
  rooted := second.rooted.trans first.rooted
  live atom isLive := second.live atom (first.live atom isLive)
  old atom isLive := (second.old atom (first.live atom isLive)).trans (first.old atom isLive)
  follows atom next link := second.follows atom next (first.follows atom next link)

theorem Marks.refl (state : State Ref) : Marks root state state where
  frame := Frame.refl state
  progress :=
    { settled := fun _ isLive fresh => absurd isLive fresh
      reached := fun _ isLive fresh => absurd isLive fresh }

theorem Progress.further (progress : Progress start inHand pending root before)
    (marks : Marks root' before after) (begun : ∀ atom, start atom → before.live atom = true)
    (met : ∀ atom, root' atom → Reach (Follows after) start root atom)
    (done : ∀ atom, pending atom → after.live atom = true) :
    Progress start inHand (fun _ => False) root after where
  settled := by
    intro atom isLive fresh free fixup isIn kind
    by_cases was : before.live atom = true
    · rw [marks.frame.old atom was] at isIn
      apply ((progress.settled atom was fresh free fixup isIn kind).grow marks.frame.table).mono
      intro next either
      left
      cases either with
      | inl wasLive => exact marks.frame.live next wasLive
      | inr waiting => exact done next waiting
    · exact marks.progress.settled atom isLive was (fun no => no) fixup isIn kind
  reached := by
    intro atom isLive fresh
    by_cases was : before.live atom = true
    · exact (progress.reached atom was fresh).imp fun a b _ _ link => marks.frame.follows a b link
    · exact (marks.progress.reached atom isLive was).trans begun met

end Composition

variable {atom : Ref} {state : State Ref} {index : Nat} {after : State Ref}

section OneFixup

variable {link : Link Ref} {visit : Ref → State Ref → Except Stop (State Ref)}

structure Rebound (atom : Ref) (index : Nat) (binding : Binding Ref) (before after : State Ref) :
    Prop where
  table : before.indirectBindingTable <+: after.indirectBindingTable
  atoms : after.atoms = before.atoms
  rooted : after.rooted = before.rooted
  live : after.live = before.live
  others : ∀ other, other ≠ atom → after.fixups other = before.fixups other
  own : after.fixups atom = (before.fixups atom).modify index fun fixup =>
    { fixup with binding := binding }
  follows : ∀ other next, Follows before other next → Follows after other next

variable {fixup : Fixup Ref}

theorem Rebound.refl (found : (state.fixups atom)[index]? = some fixup) :
    Rebound atom index fixup.binding state state where
  table := prefix_rfl
  atoms := rfl
  rooted := rfl
  live := rfl
  others _ _ := rfl
  own := by
    apply ext_getElem?
    intro i
    rw [getElem?_modify]
    split
    next same =>
      rw [← same, found]
      rfl
    · simp
  follows _ _ link := link

inductive Visited (visit : Ref → State Ref → Except Stop (State Ref)) (bound : State Ref) :
    Binding Ref → State Ref → Prop
  | direct {target : Ref} {after : State Ref} : visit target bound = .ok after →
      Visited visit bound (.directlyBound target) after
  | empty {slot : Nat} : bound.indirectBindingTable[slot]? = some none →
      Visited visit bound (.indirectlyBound slot) bound
  | slot {slot : Nat} {target : Ref} {after : State Ref} :
      bound.indirectBindingTable[slot]? = some (some target) → visit target bound = .ok after →
      Visited visit bound (.indirectlyBound slot) after

theorem visited_of_visitSlot {bound : State Ref} (run : visitSlot visit slot bound = .ok after) :
    Visited visit bound (.indirectlyBound slot) after := by
  unfold visitSlot at run
  split at run
  · cases run
  next entry =>
    cases run
    exact .empty entry
  next target entry =>
    exact .slot entry run

structure Grown (before after : State Ref) : Prop where
  table : before.indirectBindingTable <+: after.indirectBindingTable
  atoms : after.atoms = before.atoms
  rooted : after.rooted = before.rooted
  live : after.live = before.live
  fixups : after.fixups = before.fixups

theorem findSlotForName_grown (name : String) (state : State Ref) :
    Grown state (findSlotForName name state).2 := by
  unfold findSlotForName
  split
  · exact ⟨prefix_rfl, rfl, rfl, rfl, rfl⟩
  · exact ⟨prefix_append _ _, rfl, rfl, rfl, rfl⟩

theorem find_slot_grown (run : findSlotForContent link atom state = .ok (slot, after) ∨
    findSlotForReferences link atom state = .ok (slot, after)) : Grown state after := by
  unfold findSlotForContent findSlotForReferences at run
  rcases run with run | run
  all_goals
    split at run
    · cases run
    split at run
    · cases run
      exact ⟨prefix_rfl, rfl, rfl, rfl, rfl⟩
    · cases run
      exact ⟨prefix_append _ _, rfl, rfl, rfl, rfl⟩

variable [DecidableEq Ref]

theorem Rebound.ofRebind {before middle : State Ref}
    (found : (before.fixups atom)[index]? = some fixup)
    (unbound : ∀ table : List (Option Ref), targetIn table fixup = none)
    (grown : Grown before middle) :
    Rebound atom index (.indirectlyBound slot) before (rebind atom index slot middle) where
  table := grown.table
  atoms := grown.atoms
  rooted := grown.rooted
  live := grown.live
  others other differs := by
    simp only [rebind]
    rw [update_of_ne differs, grown.fixups]
  own := by
    simp only [rebind, update_self]
    rw [grown.fixups]
  follows other next link := by
    obtain ⟨bound, isIn, kind, target⟩ := link
    refine ⟨bound, ?_, kind, target_of_grown grown.table target⟩
    by_cases same : other = atom
    · subst same
      simp only [rebind, update_self, grown.fixups]
      obtain ⟨i, found'⟩ := mem_iff_getElem?.mp isIn
      apply mem_iff_getElem?.mpr
      refine ⟨i, ?_⟩
      have differs : index ≠ i := by
        intro same
        subst same
        rw [found] at found'
        cases found'
        rw [State.target, unbound] at target
        cases target
      rw [getElem?_modify_ne _ _ differs]
      exact found'
    · simp only [rebind]
      rw [update_of_ne same, grown.fixups]
      exact isIn

/-- Everything the body of the loop can do: it skips the fixup, or binds it and visits. -/
theorem visitFixup_ok (run : visitFixup link visit atom state index = .ok after) :
    after = state ∧ (∀ fixup, (state.fixups atom)[index]? = some fixup →
      followed fixup.kind = false) ∨
    ∃ fixup binding bound, (state.fixups atom)[index]? = some fixup ∧
      followed fixup.kind = true ∧ Rebound atom index binding state bound ∧
      Visited visit bound binding after := by
  unfold visitFixup at run
  split at run
  next found =>
    cases run
    exact .inl ⟨rfl, by simp [found]⟩
  next fixup found =>
  split at run
  next kind =>
    cases run
    exact .inl ⟨rfl, by simpa [found] using kind⟩
  next kind =>
  right
  obtain ⟨fixupKind, binding⟩ := fixup
  refine ⟨⟨fixupKind, binding⟩, ?_⟩
  suffices ∃ binding bound, Rebound atom index binding state bound ∧
      Visited visit bound binding after by
    obtain ⟨binding, bound, rebound, visited⟩ := this
    exact ⟨binding, bound, found, by simpa using kind, rebound, visited⟩
  cases binding with
  | none => cases run
  | directlyBound target => exact ⟨_, state, Rebound.refl found, .direct run⟩
  | indirectlyBound slot => exact ⟨_, state, Rebound.refl found, visited_of_visitSlot run⟩
  | byNameUnbound name =>
    exact ⟨_, _, Rebound.ofRebind found (fun _ => rfl) (findSlotForName_grown name state),
      visited_of_visitSlot run⟩
  | byContentBound target =>
    simp only at run
    split at run
    · cases run
    · cases run
    · split at run
      · cases run
      rename_i slot grown slotFound
      exact ⟨_, _, Rebound.ofRebind found (fun _ => rfl) (find_slot_grown (.inl slotFound)),
        visited_of_visitSlot run⟩
    · split at run
      · cases run
      rename_i slot grown slotFound
      exact ⟨_, _, Rebound.ofRebind found (fun _ => rfl) (find_slot_grown (.inr slotFound)),
        visited_of_visitSlot run⟩

end OneFixup

section Loop

variable {link : Link Ref} {visit : Ref → State Ref → Except Stop (State Ref)} {atom : Ref}
  {done : Nat} {before current bound after : State Ref}

/-- The loop over the fixups of an atom that was not live `before`, when `done` of them have
been looked at. -/
structure InLoop (atom : Ref) (done : Nat) (before current : State Ref) : Prop where
  frame : Frame before current
  self : current.live atom = true
  length : (current.fixups atom).length = (before.fixups atom).length
  progress : Progress (fun other => before.live other = true) (fun other => other = atom)
    (fun _ => False) (fun other => other = atom) current
  own : ∀ i < done, ∀ fixup, (current.fixups atom)[i]? = some fixup →
    followed fixup.kind = true →
      Settled (fun next => current.live next = true) current.indirectBindingTable fixup

theorem InLoop.rebound {binding : Binding Ref} (loop : InLoop atom done before current)
    (fresh : before.live atom = false) (rebound : Rebound atom done binding current bound) :
    InLoop atom done before bound where
  frame :=
    { table := loop.frame.table.trans rebound.table
      atoms := rebound.atoms.trans loop.frame.atoms
      rooted := rebound.rooted.trans loop.frame.rooted
      live := fun other isLive => by
        rw [rebound.live]
        exact loop.frame.live other isLive
      old := by
        intro other isLive
        have differs : other ≠ atom := by
          intro same
          rw [same, fresh] at isLive
          cases isLive
        rw [rebound.others other differs, loop.frame.old other isLive]
      follows := fun other next link =>
        rebound.follows other next (loop.frame.follows other next link) }
  self := by
    rw [rebound.live]
    exact loop.self
  length := by
    rw [rebound.own, length_modify]
    exact loop.length
  progress :=
    { settled := by
        intro other isLive notBefore differs fixup isIn kind
        rw [rebound.others other differs] at isIn
        rw [rebound.live] at isLive ⊢
        exact (loop.progress.settled other isLive notBefore differs fixup isIn kind).grow
          rebound.table
      reached := by
        intro other isLive notBefore
        rw [rebound.live] at isLive
        exact (loop.progress.reached other isLive notBefore).imp
          fun a b _ _ link => rebound.follows a b link }
  own := by
    intro i small fixup found kind
    rw [rebound.own, getElem?_modify_ne _ _ (Nat.ne_of_gt small)] at found
    rw [rebound.live]
    exact (loop.own i small fixup found kind).grow rebound.table

theorem InLoop.visited {target : Ref} (loop : InLoop atom done before bound)
    (fresh : before.live atom = false) (refers : Follows bound atom target)
    (marks : Marks (fun other => other = target) bound after) : InLoop atom done before after where
  frame := loop.frame.trans marks.frame
  self := marks.frame.live atom loop.self
  length := by
    rw [marks.frame.old atom loop.self]
    exact loop.length
  progress := by
    apply loop.progress.further marks loop.frame.live
    · intro other same
      subst same
      have notBefore : ¬ before.live atom = true := by simp [fresh]
      exact .step (.root rfl) notBefore (marks.frame.follows atom other refers)
    · intro other no
      exact no.elim
  own := by
    intro i small fixup found kind
    rw [marks.frame.old atom loop.self] at found
    exact ((loop.own i small fixup found kind).grow marks.frame.table).mono
      fun next isLive => marks.frame.live next isLive

theorem InLoop.next (loop : InLoop atom done before current)
    (settled : ∀ fixup, (current.fixups atom)[done]? = some fixup → followed fixup.kind = true →
      Settled (fun next => current.live next = true) current.indirectBindingTable fixup) :
    InLoop atom (done + 1) before current where
  frame := loop.frame
  self := loop.self
  length := loop.length
  progress := loop.progress
  own := by
    intro i small fixup found kind
    cases Nat.lt_succ_iff_lt_or_eq.mp small with
    | inl earlier => exact loop.own i earlier fixup found kind
    | inr last =>
      subst last
      exact settled fixup found kind

variable [DecidableEq Ref]

theorem InLoop.begin : InLoop atom 0 before (setLive atom before) where
  frame :=
    { table := prefix_rfl
      atoms := rfl
      rooted := rfl
      live := by
        intro other isLive
        simp only [setLive, update_apply]
        split
        · rfl
        · exact isLive
      old := fun _ _ => rfl
      follows := fun _ _ link => link }
  self := by simp [setLive]
  length := rfl
  progress :=
    { settled := by
        intro other isLive notBefore differs
        simp only [setLive, update_of_ne differs] at isLive
        exact absurd isLive notBefore
      reached := by
        intro other isLive notBefore
        by_cases same : other = atom
        · exact .root same
        · simp only [setLive, update_of_ne same] at isLive
          exact absurd isLive notBefore }
  own := fun i small => absurd small (Nat.not_lt_zero i)

theorem InLoop.step
    (spec : ∀ target state state', visit target state = .ok state' →
      Marks (fun other => other = target) state state' ∧ state'.live target = true)
    (fresh : before.live atom = false) (loop : InLoop atom done before current)
    (run : visitFixup link visit atom current done = .ok after) :
    InLoop atom (done + 1) before after := by
  rcases visitFixup_ok run with ⟨rfl, skipped⟩ | ⟨fixup, binding, bound, found, kind, rebound,
    visited⟩
  · apply loop.next
    intro fixup found kind
    exact absurd (skipped fixup found) (by simp [kind])
  have middle := loop.rebound fresh rebound
  have ownFound : (bound.fixups atom)[done]? = some { fixup with binding := binding } := by
    rw [rebound.own, getElem?_modify_eq, found]
    rfl
  have isIn := mem_of_getElem? ownFound
  cases visited with
  | @direct target _ call =>
    obtain ⟨marks, isLive⟩ := spec _ _ _ call
    apply (middle.visited fresh ⟨_, isIn, kind, rfl⟩ marks).next
    intro fixup' found' _
    rw [marks.frame.old atom middle.self, ownFound] at found'
    cases found'
    exact isLive
  | empty entry =>
    apply middle.next
    intro fixup' found' _
    rw [ownFound] at found'
    cases found'
    refine ⟨none, entry, ?_⟩
    intro target none
    cases none
  | @slot slot target _ entry call =>
    obtain ⟨marks, isLive⟩ := spec _ _ _ call
    have refers : Follows bound atom target := by
      refine ⟨_, isIn, kind, ?_⟩
      simp only [State.target, targetIn, entry, join_some]
    apply (middle.visited fresh refers marks).next
    intro fixup' found' _
    rw [marks.frame.old atom middle.self, ownFound] at found'
    cases found'
    refine ⟨some target, getElem?_of_grown marks.frame.table entry, ?_⟩
    intro next same
    cases same
    exact isLive

end Loop

section Recursion

variable {link : Link Ref} {visit : Ref → State Ref → Except Stop (State Ref)}

theorem visitSlot_ne_depth (calls : ∀ target, visit target state ≠ .error .depth) :
    visitSlot visit slot state ≠ .error .depth := by
  unfold visitSlot
  split
  · simp
  · simp
  · exact calls _

variable [DecidableEq Ref]

theorem markLive_marks : ∀ {depth : Nat} {atom : Ref} {state after : State Ref},
    markLive link depth atom state = .ok after →
      Marks (fun other => other = atom) state after ∧ after.live atom = true := by
  intro depth
  induction depth with
  | zero =>
    intro atom state after run
    cases run
  | succ depth ih =>
    intro atom state after run
    rw [markLive] at run
    split at run
    next isLive =>
      cases run
      exact ⟨Marks.refl state, isLive⟩
    rename_i isDead
    have fresh : state.live atom = false := by simpa using isDead
    have loop : InLoop atom (state.fixups atom).length state after := by
      apply foldlM_range_keeps (fun i current => InLoop atom i state current) _ InLoop.begin run
      intro i current next _ loop step
      exact loop.step (fun _ _ _ call => ih call) fresh step
    refine ⟨⟨loop.frame, ?_, loop.progress.reached⟩, loop.self⟩
    intro other isLive notBefore _ fixup isIn kind
    by_cases same : other = atom
    · subst same
      obtain ⟨i, found⟩ := mem_iff_getElem?.mp isIn
      have inRange : i < (state.fixups other).length := by
        rw [← loop.length]
        exact (List.getElem?_eq_some_iff.mp found).1
      exact (loop.own i inRange fixup found kind).mono fun next isLive => .inl isLive
    · exact loop.progress.settled other isLive notBefore same fixup isIn kind

theorem visitFixup_live {depth : Nat}
    (run : visitFixup link (markLive link depth) atom state index = .ok after) :
    ∀ other, state.live other = true → after.live other = true := by
  intro other isLive
  rcases visitFixup_ok run with ⟨rfl, _⟩ | ⟨_, _, bound, _, _, rebound, visited⟩
  · exact isLive
  rw [← rebound.live] at isLive
  cases visited with
  | direct call => exact (markLive_marks call).1.frame.live other isLive
  | empty entry => exact isLive
  | slot entry call => exact (markLive_marks call).1.frame.live other isLive

theorem visitFixup_ne_depth
    (calls : ∀ target bound, bound.live = state.live → visit target bound ≠ .error .depth) :
    visitFixup link visit atom state index ≠ .error .depth := by
  unfold visitFixup
  split
  · simp
  split
  · simp
  split
  · simp
  · exact calls _ _ rfl
  · exact visitSlot_ne_depth fun target => calls target _ rfl
  next name _ =>
    exact visitSlot_ne_depth fun target =>
      calls target _ (findSlotForName_grown name state).live
  split
  · simp
  · simp
  · split
    next stop failed =>
      unfold findSlotForContent at failed
      split at failed
      · cases failed
        simp
      · split at failed <;> cases failed
    next slot grown found =>
      exact visitSlot_ne_depth fun target =>
        calls target _ (find_slot_grown (.inl found)).live
  · split
    next stop failed =>
      unfold findSlotForReferences at failed
      split at failed
      · cases failed
        simp
      · split at failed <;> cases failed
    next slot grown found =>
      exact visitSlot_ne_depth fun target =>
        calls target _ (find_slot_grown (.inr found)).live

/-- The recursion ends: every call that goes on marks an atom more. -/
theorem markLive_ne_depth [Fintype Ref] : ∀ {depth : Nat} {atom : Ref} {state : State Ref},
    unmarked state.live < depth → markLive link depth atom state ≠ .error .depth := by
  intro depth
  induction depth with
  | zero =>
    intro atom state small
    exact absurd small (Nat.not_lt_zero _)
  | succ depth ih =>
    intro atom state small
    rw [markLive]
    split
    · simp
    rename_i isDead
    have fresh : state.live atom = false := by simpa using isDead
    have fewer : unmarked (setLive atom state).live < depth := by
      have begun : InLoop atom 0 state (setLive atom state) := InLoop.begin
      have less := unmarked_lt begun.frame.live fresh begun.self
      omega
    apply foldlM_ne_error (fun current => unmarked current.live < depth) _ _ fewer
    · intro current index after bound run
      exact Nat.lt_of_le_of_lt (unmarked_le (visitFixup_live run)) bound
    intro current index bound
    apply visitFixup_ne_depth
    intro target rebound same
    rw [← same] at bound
    exact ih bound

end Recursion

end DeveloperTools.Ld64.DeadStrip
