import DeveloperTools.Ld64.DeadStripSound

/-!
The atoms that are to be live when they refer to a live one. They are tried once, in the order
of `_atoms`, after the roots have been marked, and one that is marked can make the target of an
earlier one live.
-/

namespace DeveloperTools.Ld64.DeadStrip

open Marking FailingFold
open List Nat

variable {Ref : Type}

def Refers (state : State Ref) (atom next : Ref) : Prop :=
  ∃ fixup ∈ state.fixups atom, state.target fixup = some next

def SlotsInTable (state : State Ref) : Prop :=
  ∀ atom, ∀ fixup ∈ state.fixups atom, ∀ slot, fixup.binding = .indirectlyBound slot →
    slot < state.indirectBindingTable.length

/-- What no part of the walk touches: the fixups of the atoms it does not mark. -/
structure Leaves (before after : State Ref) : Prop where
  slots : before.indirectBindingTable.length ≤ after.indirectBindingTable.length
  live : ∀ atom, before.live atom = true → after.live atom = true
  fixups : ∀ atom, after.live atom = false → after.fixups atom = before.fixups atom

variable {atom : Ref} {index : Nat}

section Leaving

variable {link : Link Ref} {before middle after : State Ref}

theorem Leaves.refl (state : State Ref) : Leaves state state :=
  ⟨le_refl _, fun _ isLive => isLive, fun _ _ => rfl⟩

theorem Leaves.dead (leaves : Leaves before after) (isDead : after.live atom = false) :
    before.live atom = false := by
  cases was : before.live atom with
  | false => rfl
  | true =>
    rw [leaves.live atom was] at isDead
    cases isDead

theorem Leaves.trans (first : Leaves before middle) (second : Leaves middle after) :
    Leaves before after where
  slots := first.slots.trans second.slots
  live atom isLive := second.live atom (first.live atom isLive)
  fixups atom isDead := by
    rw [second.fixups atom isDead]
    exact first.fixups atom (second.dead isDead)

theorem Rebound.leaves {binding : Binding Ref} (rebound : Rebound atom index binding before after)
    (isLive : before.live atom = true) :
    Leaves before after where
  slots := rebound.table.length_le
  live other wasLive := by
    rw [rebound.live]
    exact wasLive
  fixups other isDead := by
    apply rebound.others
    intro same
    rw [same, rebound.live, isLive] at isDead
    cases isDead

theorem searchedAtom_leaves {name : String} {found : Option Ref}
    (run : searchedAtom link name before = .ok (found, after)) : Leaves before after := by
  obtain ⟨table, _, _, live, fixups⟩ := findSlotForName_grown name before
  have grown : Leaves before (findSlotForName name before).2 :=
    { slots := table.length_le
      live := fun atom isLive => by
        rw [live]
        exact isLive
      fixups := fun atom _ => by rw [fixups] }
  unfold searchedAtom at run
  simp only at run
  split at run
  · cases run
  · cases run
    exact grown
  split at run
  · cases run
    exact grown
  cases run
  refine ⟨?_, grown.live, grown.fixups⟩
  rw [length_set]
  exact grown.slots

variable [DecidableEq Ref]

theorem visitFixup_leaves {visit : Ref → State Ref → Except Stop (State Ref)}
    (spec : ∀ target state state', visit target state = .ok state' →
      Leaves state state') (isLive : before.live atom = true)
    (run : visitFixup link visit atom before index = .ok after) : Leaves before after := by
  rcases visitFixup_ok run with ⟨rfl, _⟩ | ⟨_, _, bound, _, _, rebound, visited⟩
  · exact Leaves.refl _
  apply (rebound.leaves isLive).trans
  cases visited with
  | direct call => exact spec _ _ _ call
  | empty entry => exact Leaves.refl _
  | slot entry call => exact spec _ _ _ call

theorem markLive_leaves : ∀ {depth : Nat} {atom : Ref} {before after : State Ref},
    markLive link depth atom before = .ok after → Leaves before after := by
  intro depth
  induction depth with
  | zero =>
    intro atom before after run
    cases run
  | succ depth ih =>
    intro atom before after run
    rw [markLive] at run
    split at run
    · cases run
      exact Leaves.refl _
    have begun : InLoop atom 0 before (setLive atom before) := InLoop.begin
    have initial : Leaves before (setLive atom before) :=
      ⟨le_refl _, begun.frame.live, fun _ _ => rfl⟩
    have kept := foldlM_keeps
      (fun current => Leaves before current ∧ current.live atom = true)
      (fun state index after _ holds step =>
        have next := visitFixup_leaves (fun _ _ _ call => ih call) holds.2 step
        ⟨holds.1.trans next, next.live atom holds.2⟩)
      ⟨initial, begun.self⟩ run
    exact kept.1

variable [Fintype Ref]

theorem markRoot_leaves (run : markRoot link before atom = .ok after) :
    Leaves before after :=
  have leaves := markLive_leaves run
  ⟨leaves.slots, leaves.live, leaves.fixups⟩

theorem leaves_kept : Kept link fun _ => Leaves before where
  weaken leaves _ := leaves
  searched leaves run := leaves.trans (searchedAtom_leaves run)
  marked leaves _ run := leaves.trans (markRoot_leaves run)

end Leaving

section Referring

variable {table table' : List (Option Ref)} {fixup : Fixup Ref} {rooted state : State Ref}
  {atom next : Ref}

theorem target_back_of_in_table
    (inTable : ∀ slot, fixup.binding = .indirectlyBound slot → slot < table.length)
    (grown : table <+: table') (bound : targetIn table' fixup = some next) :
    targetIn table fixup = some next := by
  obtain ⟨kind, binding⟩ := fixup
  cases binding with
  | directlyBound target => exact bound
  | indirectlyBound slot =>
    have found := getElem?_eq_getElem (inTable slot rfl)
    simp only [targetIn, getElem?_of_grown grown found, found] at bound ⊢
    exact bound
  | none => exact bound
  | byNameUnbound name => exact bound
  | byContentBound target => exact bound

theorem has_live_ref_iff :
    atomHasLiveRef state atom = true ↔ ∃ next, Refers state atom next ∧ state.live next = true := by
  unfold atomHasLiveRef
  rw [any_eq_true]
  constructor
  · rintro ⟨fixup, isIn, holds⟩
    split at holds
    next target found =>
      exact ⟨target, ⟨fixup, isIn, found⟩, holds⟩
    · cases holds
  · rintro ⟨next, ⟨fixup, isIn, found⟩, isLive⟩
    refine ⟨fixup, isIn, ?_⟩
    rw [found]
    exact isLive

theorem refers_iff_of_dead (inTable : ∀ fixup ∈ rooted.fixups atom, ∀ slot,
      fixup.binding = .indirectlyBound slot → slot < rooted.indirectBindingTable.length)
    (grown : rooted.indirectBindingTable <+: state.indirectBindingTable)
    (same : state.fixups atom = rooted.fixups atom) :
    Refers state atom next ↔ Refers rooted atom next := by
  unfold Refers
  rw [same]
  constructor
  · rintro ⟨fixup, isIn, bound⟩
    exact ⟨fixup, isIn, target_back_of_in_table (inTable fixup isIn) grown bound⟩
  · rintro ⟨fixup, isIn, bound⟩
    exact ⟨fixup, isIn, target_of_grown grown bound⟩

end Referring

structure Tried (rooted : State Ref) (late : List Ref) (count : Nat) (state : State Ref) :
    Prop where
  walked : Walked (fun atom => rooted.live atom = true) (fun _ => False) state
  grown : rooted.indirectBindingTable <+: state.indirectBindingTable
  leaves : Leaves rooted state
  held : ∀ atom, state.live atom = true ↔ TriedInOrder (Follows state) (Refers rooted)
    (fun atom => rooted.live atom = true) late count atom

section Trying

variable {link : Link Ref} {rooted state after : State Ref} {late : List Ref} {count : Nat}
  {atom : Ref} {roots : List Ref} {root : Ref → Prop}

variable [DecidableEq Ref] [Fintype Ref]

theorem markIfRefLive_ok (run : markIfRefLive link state atom = .ok after) :
    (after = state ∧ (state.live atom = true ∨ atomHasLiveRef state atom = false)) ∨
      (state.live atom = false ∧ atomHasLiveRef state atom = true ∧
        markRoot link state atom = .ok after) := by
  unfold markIfRefLive at run
  split at run
  next isLive =>
    cases run
    exact .inl ⟨rfl, .inl isLive⟩
  rename_i isDead
  split at run
  next refers =>
    exact .inr ⟨by simpa using isDead, refers, run⟩
  next refers =>
    cases run
    exact .inl ⟨rfl, .inr (by simpa using refers)⟩

section

variable (tried : Tried rooted late count state)
include tried

section

variable (marks : Marks root { state with rooted := roots } after)
include marks

omit [DecidableEq Ref] [Fintype Ref] in
theorem Tried.held_before (small : index ≤ count)
    (held : TriedInOrder (Follows after) (Refers rooted)
      (fun atom => rooted.live atom = true) late index atom) : state.live atom = true := by
  -- what a walk adds to the links of the atoms held before is not new to them
  refine (tried.held atom).mpr ((held.imp small fun a b isHeld fresh link => ?_).more small)
  obtain ⟨fixup, isIn, kind, target⟩ := link
  have isLive := (tried.held a).mpr isHeld
  rw [marks.frame.old a isLive] at isIn
  have settled := tried.walked.progress.settled a isLive fresh (fun no => no) fixup isIn kind
  refine ⟨fixup, isIn, kind, target_back_of_in_table (fun slot bound => ?_)
    marks.frame.table target⟩
  rw [Settled, bound] at settled
  obtain ⟨entry, found, _⟩ := settled
  exact (List.getElem?_eq_some_iff.mp found).1

omit [DecidableEq Ref] [Fintype Ref] in
theorem Tried.held_after (isLive : state.live atom = true) :
    TriedInOrder (Follows after) (Refers rooted) (fun atom => rooted.live atom = true) late count
      atom :=
  ((tried.held atom).mp isLive).imp (le_refl _) fun a b _ _ link => marks.frame.follows a b link

omit [DecidableEq Ref] [Fintype Ref] in
theorem Tried.advance (walked : Walked (fun atom => rooted.live atom = true) (fun _ => False) after)
    (leaves : Leaves state after) (isAtom : late[count]? = some atom)
    (called : ∀ other, root other →
      other = atom ∧ ∃ next, Refers rooted atom next ∧ state.live next = true)
    (marked : ∀ next, Refers rooted atom next → state.live next = true → after.live atom = true) :
    Tried rooted late (count + 1) after where
  walked := walked
  grown := tried.grown.trans marks.frame.table
  leaves := tried.leaves.trans leaves
  held other := by
    constructor
    · intro isLive
      by_cases was : state.live other = true
      · exact (tried.held_after marks was).more (le_succ count)
      apply (marks.progress.reached other isLive was).least
      · intro a isRoot
        obtain ⟨rfl, next, refers, nextLive⟩ := called a isRoot
        exact .tried (lt_succ_self count) isAtom refers (tried.held_after marks nextLive)
      · intro a b held fresh link
        exact .step held (fun old => fresh (tried.leaves.live a old)) link
    · intro held
      generalize isNext : count + 1 = limit at held
      induction held with
      | old isOld => exact leaves.live _ (tried.leaves.live _ isOld)
      | step _ fresh link ih => exact walked.follows_live (ih isNext) fresh link
      | @tried limit index node next earlier isNode refers holds _ =>
        rcases lt_or_ge index count with small | large
        · exact leaves.live _ (tried.held_before marks small (.tried (lt_succ_self _) isNode
            refers holds))
        have last : index = count := by omega
        subst last
        rw [isAtom] at isNode
        cases isNode
        exact marked next refers (tried.held_before marks (le_refl _) holds)

end

theorem Tried.step
    (inTable : ∀ atom, rooted.live atom = false → ∀ fixup ∈ rooted.fixups atom, ∀ slot,
      fixup.binding = .indirectlyBound slot → slot < rooted.indirectBindingTable.length)
    (isAtom : late[count]? = some atom) (run : markIfRefLive link state atom = .ok after) :
    Tried rooted late (count + 1) after := by
  have referring (isDead : state.live atom = false) (next : Ref) :
      Refers state atom next ↔ Refers rooted atom next :=
    refers_iff_of_dead (inTable atom (tried.leaves.dead isDead)) tried.grown
      (tried.leaves.fixups atom isDead)
  have walked := markIfRefLive_walked tried.walked run
  rcases markIfRefLive_ok run with ⟨rfl, either⟩ | ⟨isDead, refers, marking⟩
  · have marks : Marks (fun _ : Ref => False) { after with rooted := after.rooted } after :=
      Marks.refl after
    apply tried.advance marks walked (Leaves.refl after) isAtom (fun _ no => no.elim)
    intro next refers isLive
    rcases either with already | without
    · exact already
    cases isDead : after.live atom with
    | true => rfl
    | false =>
      have has := has_live_ref_iff.mpr ⟨next, (referring isDead next).mpr refers, isLive⟩
      rw [without] at has
      cases has
  · obtain ⟨marks, nowLive⟩ := markLive_marks marking
    apply tried.advance marks walked (markRoot_leaves marking) isAtom
    · intro other same
      obtain ⟨next, refersTo, isLive⟩ := has_live_ref_iff.mp refers
      exact ⟨same, next, (referring isDead next).mp refersTo, isLive⟩
    · intro _ _ _
      exact nowLive

end

end Trying

section Support

variable [DecidableEq Ref] [Fintype Ref]

def begin (force : Bool) (state : State Ref) : State Ref :=
  { state with live := startLive force state, rooted := [] }

variable {link : Link Ref} {force : Bool} {before rooted out : State Ref}

section

variable (stripping : link.deadCodeStrip = true) (inTable : SlotsInTable before)
    (roots : forEachDeadStripRoot link force (begin force before) = .ok rooted)
    (run : deadStripOptimize link force before = .ok out)

include stripping inTable roots run

theorem deadStripOptimize_tried :
    ∃ state, (liveIfRefLiveAtoms link force rooted).foldlM (markIfRefLive link) rooted = .ok state ∧
      Tried rooted (liveIfRefLiveAtoms link force rooted)
        (liveIfRefLiveAtoms link force rooted).length state ∧
      out = removeNotLive link force state := by
  simp only [deadStripOptimize, stripping, Bool.not_true, Bool.false_eq_true, if_false] at run
  obtain ⟨rooted', roots', run⟩ := bind_ok run
  obtain ⟨state, late, run⟩ := bind_ok run
  cases run
  have same : rooted' = rooted := Except.ok.inj (roots'.symm.trans roots)
  subst same
  refine ⟨state, late, ?_, rfl⟩
  have leaves := leaves_kept.roots (Leaves.refl _) roots
  have begun : Walked (fun atom => startLive force before atom = true) (fun _ => False)
      (begin force before) :=
    Walked.initial (begin force before) fun _ isIn => absurd isIn not_mem_nil
  have walked := walked_kept.roots begun roots
  have initial : Tried rooted' (liveIfRefLiveAtoms link force rooted') 0 rooted' :=
    { walked := Walked.initial rooted' walked.roots
      grown := prefix_rfl
      leaves := Leaves.refl rooted'
      held := fun _ => ⟨fun isLive => .old isLive, TriedInOrder.none_tried⟩ }
  apply foldlM_index_keeps (fun count state =>
    Tried rooted' (liveIfRefLiveAtoms link force rooted') count state) _ initial late
  intro index atom current after isAtom tried step
  apply tried.step _ isAtom step
  intro other isDead fixup isIn slot bound
  rw [leaves.fixups other isDead] at isIn
  exact lt_of_lt_of_le (inTable other fixup isIn slot bound) leaves.slots

end

end Support

end DeveloperTools.Ld64.DeadStrip
