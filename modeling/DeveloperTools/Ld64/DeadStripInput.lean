import DeveloperTools.Ld64.DeadStripSupport

/-!
What dead stripping keeps, in terms of the link before it. By then every fixup is bound directly
or to a slot, so that the walks change nothing but the live flags, and all that happens to the
slots is that the archives fill the empty ones of the names that are searched for.
-/

namespace DeveloperTools.Ld64.DeadStrip

open Marking FailingFold
open List

variable {Ref : Type}

/-- As `convertReferencesToIndirect` leaves the fixups, with all slots in the table. -/
structure WellBound (before : State Ref) : Prop where
  byName : ∀ atom, ∀ fixup ∈ before.fixups atom, ∀ name, fixup.binding ≠ .byNameUnbound name
  byContent : ∀ atom, ∀ fixup ∈ before.fixups atom, ∀ target,
    fixup.binding ≠ .byContentBound target
  slots : SlotsInTable before
  names : ∀ name slot, before.byNameTable.lookup name = some slot →
    slot < before.indirectBindingTable.length

section Input

variable (link : Link Ref) (before : State Ref)

/-- The names for which the archives are searched, in order. -/
def searchedNames : List String := (entrySymbol link).toList ++ link.initialUndefines

/-- What is in a slot once these names have been searched for. -/
def filledBy (names : List String) (slot : Nat) : Option Ref :=
  (before.indirectBindingTable[slot]?).join.or
    (names.findSome? fun name =>
      if before.byNameTable.lookup name = some slot then link.archived name else none)

/-- The atom of a name once these names have been searched for. -/
def rootBy (names : List String) (name : String) : Option Ref :=
  match before.byNameTable.lookup name with
  | some slot => filledBy link before names slot
  | none => link.archived name

/-- An atom that is loaded from an archive in the search for these names. -/
def LoadedBy (names : List String) (atom : Ref) : Prop :=
  (∃ name ∈ names, before.byNameTable.lookup name = none ∧ link.archived name = some atom) ∨
    ∃ slot, before.indirectBindingTable[slot]? = some none ∧
      filledBy link before names slot = some atom

def inputTarget (fixup : Fixup Ref) : Option Ref :=
  match fixup.binding with
  | .directlyBound target => some target
  | .indirectlyBound slot => filledBy link before (searchedNames link) slot
  | _ => none

/-- A fixup of a kind that `markLive` lists leads from one atom to the other. -/
def LinksTo (atom next : Ref) : Prop :=
  ∃ fixup ∈ before.fixups atom, followed fixup.kind = true ∧
    inputTarget link before fixup = some next

def RefersTo (atom next : Ref) : Prop :=
  ∃ fixup ∈ before.fixups atom, inputTarget link before fixup = some next

def helpers : List (Option Ref) :=
  [link.classicBindingHelper, link.compressedFastBinderProxy, link.lazyBindingHelper,
    link.objcMsgSendProxy]

/-- The entry point, the initial undefines, the helpers, and the atoms that are roots. -/
def IsRoot (force : Bool) (atom : Ref) : Prop :=
  (∃ name ∈ searchedNames link,
      rootBy link before (searchedNames link) name = some atom) ∨
    some atom ∈ helpers link ∨
    atom ∈ before.atoms ∧
      (!(link.atom atom).coalescedAway && atomIsDeadStripRoot link force atom) = true

end Input

section Still

variable [DecidableEq Ref] {link : Link Ref} {state after : State Ref}

def Unbound (fixup : Fixup Ref) : Prop :=
  (∃ name, fixup.binding = .byNameUnbound name) ∨ ∃ target, fixup.binding = .byContentBound target

theorem visitFixup_still {visit : Ref → State Ref → Except Stop (State Ref)} {atom : Ref}
    {index : Nat} (bound : ∀ fixup ∈ state.fixups atom, ¬ Unbound fixup)
    (still : ∀ target after, visit target state = .ok after →
      after = { state with live := after.live })
    (run : visitFixup link visit atom state index = .ok after) :
    after = { state with live := after.live } := by
  unfold visitFixup at run
  split at run
  · cases run
    rfl
  next fixup isFixup =>
    have isBound := bound fixup (mem_of_getElem? isFixup)
    split at run
    · cases run
      rfl
    split at run
    · cases run
    · exact still _ _ run
    · unfold visitSlot at run
      split at run
      · cases run
      · cases run
        rfl
      · exact still _ _ run
    next name isName => exact absurd (.inl ⟨name, isName⟩) isBound
    next target isContent => exact absurd (.inr ⟨target, isContent⟩) isBound

/-- Where every fixup is bound, `markLive` changes the live flags only. -/
theorem markLive_still : ∀ {depth : Nat} {atom : Ref} {state after : State Ref},
    (∀ atom, ∀ fixup ∈ state.fixups atom, ¬ Unbound fixup) →
    markLive link depth atom state = .ok after → after = { state with live := after.live } := by
  intro depth
  induction depth with
  | zero =>
    intro atom state after _ run
    cases run
  | succ depth ih =>
    intro atom state after bound run
    rw [markLive] at run
    split at run
    · cases run
      rfl
    refine foldlM_keeps (fun current => current = { state with live := current.live }) ?_ rfl run
    intro current index next _ same step
    rw [same] at step
    exact @visitFixup_still _ _ link { state with live := current.live } next _ atom index
      (bound atom) (fun target after call => ih bound call) step

variable [Fintype Ref]

theorem markOptional_still {root : Option Ref}
    (bound : ∀ atom, ∀ fixup ∈ state.fixups atom, ¬ Unbound fixup)
    (run : markOptional link state root = .ok after) :
    after = { state with live := after.live, rooted := root.toList ++ state.rooted } := by
  cases root with
  | none =>
    cases run
    rfl
  | some atom =>
    exact @markLive_still _ _ link _ atom { state with rooted := atom :: state.rooted } after bound
      run

theorem markAll_still {items : List (Option Ref)}
    (bound : ∀ atom, ∀ fixup ∈ state.fixups atom, ¬ Unbound fixup)
    (run : items.foldlM (markOptional link) state = .ok after) :
    ∃ roots, after = { state with live := after.live, rooted := roots ++ state.rooted } ∧
      ∀ atom, atom ∈ roots ↔ some atom ∈ items := by
  induction items generalizing state with
  | nil =>
    cases run
    exact ⟨[], rfl, by simp⟩
  | cons root items ih =>
    obtain ⟨middle, first, rest⟩ := bind_ok run
    have here := markOptional_still bound first
    obtain ⟨roots, same, members⟩ := ih (by rw [here]; exact bound) rest
    refine ⟨roots ++ root.toList, ?_, ?_⟩
    · rw [same, here, append_assoc]
    · intro atom
      rw [mem_append, members, mem_cons, Option.mem_toList, or_comm, eq_comm]

end Still

section Searching

variable {link : Link Ref} {before state after : State Ref} {names : List String} {name : String}
  {roots : Ref → Prop}

theorem filledBy_append (slot : Nat) :
    filledBy link before (names ++ [name]) slot = (filledBy link before names slot).or
      (if before.byNameTable.lookup name = some slot then link.archived name else none) := by
  rw [filledBy, filledBy, findSome?_append, Option.or_assoc, findSome?_singleton]

theorem rootBy_append {other : String} {atom : Ref} :
    rootBy link before (names ++ [name]) other = some atom ↔
      rootBy link before names other = some atom ∨
        rootBy link before names other = none ∧
          rootBy link before (names ++ [name]) name = some atom ∧
          before.byNameTable.lookup other = before.byNameTable.lookup name ∧
          before.byNameTable.lookup other ≠ none := by
  unfold rootBy
  cases isOther : before.byNameTable.lookup other with
  | none => simp
  | some slot =>
    simp only [filledBy_append]
    cases held : filledBy link before names slot with
    | some held => simp
    | none =>
      by_cases same : before.byNameTable.lookup name = some slot
      · simp [same, held]
      · simp [same, eq_comm]

/-- The search for these names has come to this state, and has found these roots. -/
structure Resolved (link : Link Ref) (before : State Ref) (names : List String)
    (roots : Ref → Prop) (state : State Ref) : Prop where
  fixups : state.fixups = before.fixups
  length : before.indirectBindingTable.length ≤ state.indirectBindingTable.length
  slots : ∀ slot < before.indirectBindingTable.length,
    state.indirectBindingTable[slot]? = some (filledBy link before names slot)
  known : ∀ name slot, before.byNameTable.lookup name = some slot →
    state.byNameTable.lookup name = some slot
  fresh : ∀ name, before.byNameTable.lookup name = none → name ∉ names →
    state.byNameTable.lookup name = none
  added : ∀ name ∈ names, before.byNameTable.lookup name = none →
    ∃ slot, before.indirectBindingTable.length ≤ slot ∧
      state.byNameTable.lookup name = some slot ∧
      state.indirectBindingTable[slot]? = some (link.archived name)
  named : ∀ slot < before.indirectBindingTable.length,
    slot ∈ state.byNameTable.map Prod.snd ↔ slot ∈ before.byNameTable.map Prod.snd
  atoms : ∃ more, state.atoms = before.atoms ++ more ∧
    ∀ atom, atom ∈ more ↔ LoadedBy link before names atom
  rooted : ∀ atom, roots atom ↔ ∃ name ∈ names, rootBy link before names name = some atom

theorem Resolved.rooted_append (resolved : Resolved link before names roots state)
    {found : Option Ref}
    (isFound : found = rootBy link before (names ++ [name]) name) (atom : Ref) :
    (roots atom ∨ found = some atom) ↔
      ∃ other ∈ names ++ [name], rootBy link before (names ++ [name]) other = some atom := by
  rw [resolved.rooted, isFound]
  constructor
  · rintro (⟨other, isIn, isRoot⟩ | isRoot)
    · exact ⟨other, mem_append_left _ isIn, rootBy_append.mpr (.inl isRoot)⟩
    · exact ⟨name, mem_append_right _ mem_cons_self, isRoot⟩
  · rintro ⟨other, isIn, isRoot⟩
    rcases mem_append.mp isIn with earlier | last
    · rcases rootBy_append.mp isRoot with old | new
      · exact .inl ⟨other, earlier, old⟩
      · exact .inr new.2.1
    · rw [mem_singleton.mp last] at isRoot
      exact .inr isRoot

theorem filledBy_other {slot : Nat} (other : before.byNameTable.lookup name ≠ some slot) :
    filledBy link before (names ++ [name]) slot = filledBy link before names slot := by
  rw [filledBy_append, if_neg other, Option.or_none]

theorem loadedBy_rooted {atom : Ref} (loaded : LoadedBy link before names atom) :
    ∃ name ∈ names, rootBy link before names name = some atom := by
  rcases loaded with ⟨name, isIn, isNew, isArchived⟩ | ⟨slot, isEmpty, isFilled⟩
  · exact ⟨name, isIn, by rw [rootBy, isNew]; exact isArchived⟩
  · have archived := isFilled
    rw [filledBy, isEmpty, Option.join_some, Option.none_or] at archived
    obtain ⟨name, isIn, isName⟩ := exists_of_findSome?_eq_some archived
    split at isName
    next known => exact ⟨name, isIn, by rw [rootBy, known]; exact isFilled⟩
    · cases isName

theorem loadedBy_append {atom : Ref} : LoadedBy link before (names ++ [name]) atom ↔
    LoadedBy link before names atom ∨ link.archived name = some atom ∧
      (before.byNameTable.lookup name = none ∨
        ∃ slot, before.byNameTable.lookup name = some slot ∧
          before.indirectBindingTable[slot]? = some none ∧
          filledBy link before names slot = none) := by
  constructor
  · rintro (⟨other, isIn, isNew, isArchived⟩ | ⟨slot, isEmpty, isFilled⟩)
    · rcases mem_append.mp isIn with earlier | last
      · exact .inl (.inl ⟨other, earlier, isNew, isArchived⟩)
      · rw [mem_singleton.mp last] at isNew isArchived
        exact .inr ⟨isArchived, .inl isNew⟩
    · rw [filledBy_append, Option.or_eq_some_iff] at isFilled
      rcases isFilled with earlier | ⟨notYet, now⟩
      · exact .inl (.inr ⟨slot, isEmpty, earlier⟩)
      · split at now
        next known => exact .inr ⟨now, .inr ⟨slot, known, isEmpty, notYet⟩⟩
        · cases now
  · rintro ((⟨other, isIn, isNew⟩ | ⟨slot, isEmpty, isFilled⟩) |
      ⟨isArchived, isNew | ⟨slot, known, isEmpty, notYet⟩⟩)
    · exact .inl ⟨other, mem_append_left _ isIn, isNew⟩
    · exact .inr ⟨slot, isEmpty, by rw [filledBy_append, isFilled, Option.some_or]⟩
    · exact .inl ⟨name, mem_append_right _ mem_cons_self, isNew, isArchived⟩
    · exact .inr ⟨slot, isEmpty, by
        rw [filledBy_append, notYet, if_pos known, Option.none_or, isArchived]⟩

theorem searchedAtom_known {slot : Nat} {found : Option Ref}
    (isKnown : state.byNameTable.lookup name = some slot)
    (run : searchedAtom link name state = .ok (found, after)) :
    ∃ entry, state.indirectBindingTable[slot]? = some entry ∧
      found = entry.or (link.archived name) ∧
      (after = state ∧ found = entry ∨ entry = none ∧ ∃ atom, link.archived name = some atom ∧
        after = { state with
          atoms := state.atoms ++ [atom]
          indirectBindingTable := state.indirectBindingTable.set slot (some atom) }) := by
  simp only [searchedAtom, findSlotForName, isKnown] at run
  split at run
  · cases run
  next atom entry =>
    cases run
    exact ⟨_, entry, rfl, .inl ⟨rfl, rfl⟩⟩
  next entry =>
    split at run
    next missing =>
      cases run
      exact ⟨_, entry, missing.symm, .inl ⟨rfl, rfl⟩⟩
    next atom archived =>
      cases run
      exact ⟨_, entry, archived.symm, .inr ⟨rfl, atom, archived, rfl⟩⟩

theorem searchedAtom_new {found : Option Ref} (isNew : state.byNameTable.lookup name = none)
    (run : searchedAtom link name state = .ok (found, after)) :
    found = link.archived name ∧ after = { state with
      atoms := state.atoms ++ (link.archived name).toList
      indirectBindingTable := state.indirectBindingTable ++ [link.archived name]
      byNameTable := (name, state.indirectBindingTable.length) :: state.byNameTable } := by
  simp only [searchedAtom, findSlotForName, isNew, getElem?_concat_length] at run
  split at run
  next missing =>
    cases run
    simp [missing]
  next atom archived =>
    cases run
    simp [archived]

/-- A search that changes nothing. -/
theorem Resolved.unchanged (resolved : Resolved link before names roots state) {found : Option Ref}
    (same : ∀ slot < before.indirectBindingTable.length,
      filledBy link before (names ++ [name]) slot = filledBy link before names slot)
    (isFound : found = rootBy link before (names ++ [name]) name)
    (noMore : ∀ atom, LoadedBy link before (names ++ [name]) atom →
      LoadedBy link before names atom)
    (isAdded : before.byNameTable.lookup name = none →
      ∃ slot, before.indirectBindingTable.length ≤ slot ∧
        state.byNameTable.lookup name = some slot ∧
        state.indirectBindingTable[slot]? = some (link.archived name)) :
    Resolved link before (names ++ [name]) (fun atom => roots atom ∨ found = some atom) state where
  fixups := resolved.fixups
  length := resolved.length
  slots slot small := by rw [same slot small, resolved.slots slot small]
  known := resolved.known
  fresh other isNew isOut := resolved.fresh other isNew fun isIn => isOut (mem_append_left _ isIn)
  added other isIn isNew := by
    rcases mem_append.mp isIn with earlier | last
    · exact resolved.added other earlier isNew
    · rw [mem_singleton.mp last] at isNew ⊢
      exact isAdded isNew
  named := resolved.named
  atoms := by
    obtain ⟨more, isAtoms, loaded⟩ := resolved.atoms
    refine ⟨more, isAtoms, fun atom => (loaded atom).trans ⟨fun old => ?_, noMore atom⟩⟩
    exact loadedBy_append.mpr (.inl old)
  rooted := resolved.rooted_append isFound

theorem Resolved.search_known (wellBound : WellBound before)
    (resolved : Resolved link before names roots state) {slot : Nat} {found : Option Ref}
    (isKnown : before.byNameTable.lookup name = some slot)
    (run : searchedAtom link name state = .ok (found, after)) :
    Resolved link before (names ++ [name]) (fun atom => roots atom ∨ found = some atom) after := by
  have inTable := wellBound.names name slot isKnown
  have notNew : before.byNameTable.lookup name ≠ none := by simp [isKnown]
  have otherSlots (other : Nat) (differs : slot ≠ other) :
      filledBy link before (names ++ [name]) other = filledBy link before names other :=
    filledBy_other (by simpa [isKnown] using differs)
  obtain ⟨entry, isEntry, isFound, outcome⟩ :=
    searchedAtom_known (resolved.known name slot isKnown) run
  cases Option.some.inj ((resolved.slots slot inTable).symm.trans isEntry)
  have isRoot : found = rootBy link before (names ++ [name]) name := by
    simp only [rootBy, isKnown, filledBy_append, if_true]
    exact isFound
  rcases outcome with ⟨rfl, isSame⟩ | ⟨isEmpty, atom, archived, rfl⟩
  · refine resolved.unchanged (fun other _ => ?_) isRoot (fun atom loads => ?_)
      fun isNew => absurd isNew notNew
    · by_cases same : slot = other
      · subst same
        rw [filledBy_append, if_pos isKnown, ← isFound, isSame]
      · exact otherSlots other same
    · rcases loadedBy_append.mp loads with old | ⟨isArchived, isNew | ⟨other, known, _, isEmpty⟩⟩
      · exact old
      · exact absurd isNew notNew
      · cases isKnown.symm.trans known
        rw [isSame, isEmpty, isArchived] at isFound
        cases isFound
  · have filled : found = some atom := by rw [isFound, isEmpty, archived, Option.none_or]
    have emptyBefore : before.indirectBindingTable[slot]? = some none := by
      rw [filledBy, Option.or_eq_none_iff, getElem?_eq_getElem inTable, Option.join_some] at isEmpty
      rw [getElem?_eq_getElem inTable, isEmpty.1]
    constructor
    case fixups => exact resolved.fixups
    case length => simpa using resolved.length
    case slots =>
      intro other small
      by_cases same : slot = other
      · subst same
        rw [filledBy_append, if_pos isKnown, ← isFound, filled]
        exact getElem?_set_self (small.trans_le resolved.length)
      · rw [otherSlots other same, ← resolved.slots other small]
        exact getElem?_set_ne same
    case known => exact resolved.known
    case fresh =>
      exact fun other isNew isOut => resolved.fresh other isNew fun isIn =>
        isOut (mem_append_left _ isIn)
    case added =>
      intro other isIn isNew
      rcases mem_append.mp isIn with earlier | last
      · obtain ⟨index, high, isIndex, isHeld⟩ := resolved.added other earlier isNew
        refine ⟨index, high, isIndex, ?_⟩
        rw [← isHeld]
        exact getElem?_set_ne (by omega)
      · rw [mem_singleton.mp last] at isNew
        exact absurd isNew notNew
    case named => exact resolved.named
    case atoms =>
      obtain ⟨more, isAtoms, loaded⟩ := resolved.atoms
      refine ⟨more ++ [atom], by rw [isAtoms, append_assoc], fun other => ?_⟩
      rw [mem_append, mem_singleton, loaded, loadedBy_append]
      refine or_congr_right ⟨?_, fun new => ?_⟩
      · rintro rfl
        exact ⟨archived, .inr ⟨slot, isKnown, emptyBefore, isEmpty⟩⟩
      · exact (Option.some.inj (archived.symm.trans new.1)).symm
    case rooted => exact resolved.rooted_append isRoot

theorem Resolved.search_new (resolved : Resolved link before names roots state)
    {found : Option Ref} (isNew : before.byNameTable.lookup name = none)
    (run : searchedAtom link name state = .ok (found, after)) :
    Resolved link before (names ++ [name]) (fun atom => roots atom ∨ found = some atom) after := by
  have slotsSame (other : Nat) :
      filledBy link before (names ++ [name]) other = filledBy link before names other :=
    filledBy_other (by simp [isNew])
  have isRoot : rootBy link before (names ++ [name]) name = link.archived name := by
    rw [rootBy, isNew]
  by_cases before' : name ∈ names
  · obtain ⟨slot, high, isSlot, isHeld⟩ := resolved.added name before' isNew
    obtain ⟨entry, isEntry, isFound, outcome⟩ := searchedAtom_known isSlot run
    cases Option.some.inj (isHeld.symm.trans isEntry)
    have isSame : found = link.archived name := by rw [isFound, Option.or_self]
    rcases outcome with ⟨rfl, _⟩ | ⟨isEmpty, atom, archived, _⟩
    · refine resolved.unchanged (fun other _ => slotsSame other) (isSame.trans isRoot.symm)
        (fun atom loads => ?_) fun _ => ⟨slot, high, isSlot, isHeld⟩
      exact (loadedBy_append.mp loads).elim id fun new => .inl ⟨name, before', isNew, new.1⟩
    · rw [isEmpty] at archived
      cases archived
  · obtain ⟨isFound, rfl⟩ := searchedAtom_new (resolved.fresh name isNew before') run
    constructor
    case fixups => exact resolved.fixups
    case length => simpa using resolved.length.trans (Nat.le_succ _)
    case slots =>
      intro slot small
      rw [slotsSame, ← resolved.slots slot small]
      exact getElem?_append_left (small.trans_le resolved.length)
    case known =>
      intro other slot isKnown
      have differs : other ≠ name := by
        rintro rfl
        rw [isNew] at isKnown
        cases isKnown
      rw [lookup_cons, beq_false_of_ne differs]
      exact resolved.known other slot isKnown
    case fresh =>
      intro other isFresh isOut
      rw [mem_append, mem_singleton, not_or] at isOut
      rw [lookup_cons, beq_false_of_ne isOut.2]
      exact resolved.fresh other isFresh isOut.1
    case added =>
      intro other isIn isFresh
      by_cases same : other = name
      · subst same
        exact ⟨_, resolved.length, lookup_cons_self, getElem?_concat_length⟩
      · have earlier : other ∈ names := by simpa [same] using isIn
        obtain ⟨slot, high, isSlot, isHeld⟩ := resolved.added other earlier isFresh
        refine ⟨slot, high, ?_, ?_⟩
        · rw [lookup_cons, beq_false_of_ne same]
          exact isSlot
        · rw [← isHeld]
          exact getElem?_append_left (List.getElem?_eq_some_iff.mp isHeld).1
    case named =>
      intro slot small
      rw [map_cons, mem_cons, ← resolved.named slot small]
      have := resolved.length
      exact or_iff_right (by dsimp only; omega)
    case atoms =>
      obtain ⟨more, isAtoms, loaded⟩ := resolved.atoms
      refine ⟨more ++ (link.archived name).toList, by rw [isAtoms, append_assoc], fun other => ?_⟩
      rw [mem_append, loaded, loadedBy_append, Option.mem_toList, and_iff_left (.inl isNew)]
    case rooted => exact resolved.rooted_append (isFound.trans isRoot.symm)

theorem searchedAtom_frame {found : Option Ref}
    (run : searchedAtom link name state = .ok (found, after)) :
    after.live = state.live ∧ after.rooted = state.rooted := by
  cases isKnown : state.byNameTable.lookup name with
  | some slot =>
    obtain ⟨_, _, _, ⟨rfl, _⟩ | ⟨_, _, _, rfl⟩⟩ := searchedAtom_known isKnown run
    · exact ⟨rfl, rfl⟩
    · exact ⟨rfl, rfl⟩
  | none =>
    obtain ⟨_, rfl⟩ := searchedAtom_new isKnown run
    exact ⟨rfl, rfl⟩

end Searching

section Roots

variable [DecidableEq Ref] [Fintype Ref] {link : Link Ref} {force : Bool}
  {before state after rooted : State Ref} {names : List String} {name : String}
  {roots roots' : Ref → Prop}

omit [DecidableEq Ref] [Fintype Ref] in
theorem WellBound.bound (wellBound : WellBound before) (same : state.fixups = before.fixups)
    (atom : Ref) : ∀ fixup ∈ state.fixups atom, ¬ Unbound fixup := by
  rw [same]
  rintro fixup isIn (⟨name, isName⟩ | ⟨target, isContent⟩)
  · exact wellBound.byName atom fixup isIn name isName
  · exact wellBound.byContent atom fixup isIn target isContent

omit [DecidableEq Ref] [Fintype Ref] in
theorem Resolved.marked (resolved : Resolved link before names roots state)
    (same : after = { state with live := after.live, rooted := after.rooted })
    (iff : ∀ atom, roots atom ↔ roots' atom) : Resolved link before names roots' after := by
  obtain rfl : roots = roots' := funext fun atom => propext (iff atom)
  rw [same]
  exact ⟨resolved.fixups, resolved.length, resolved.slots, resolved.known, resolved.fresh,
    resolved.added, resolved.named, resolved.atoms, resolved.rooted⟩

section

variable (wellBound : WellBound before)
include wellBound

omit [DecidableEq Ref] [Fintype Ref] in
theorem Resolved.search (resolved : Resolved link before names roots state) {found : Option Ref}
    (run : searchedAtom link name state = .ok (found, after)) :
    Resolved link before (names ++ [name]) (fun atom => roots atom ∨ found = some atom) after := by
  cases isKnown : before.byNameTable.lookup name with
  | some slot => exact resolved.search_known wellBound isKnown run
  | none => exact resolved.search_new isKnown run

theorem Resolved.search_marked
    (resolved : Resolved link before names (· ∈ state.rooted) state) {found : Option Ref}
    {searched : State Ref} (run : searchedAtom link name state = .ok (found, searched))
    (marks : markOptional link searched found = .ok after) :
    Resolved link before (names ++ [name]) (· ∈ after.rooted) after := by
  have next := resolved.search wellBound run
  have still := markOptional_still (wellBound.bound next.fixups) marks
  have isRooted : after.rooted = found.toList ++ state.rooted := by
    rw [still, (searchedAtom_frame run).2]
  refine next.marked (by rw [still]) fun atom => ?_
  rw [isRooted, mem_append, Option.mem_toList, or_comm]

theorem entry_resolved (run : markEntry link (begin force before) = .ok after) :
    Resolved link before (entrySymbol link).toList (· ∈ after.rooted) after := by
  have initial : Resolved link before [] (· ∈ (begin force before).rooted)
      (begin force before) := by
    constructor
    case slots =>
      intro slot small
      rw [filledBy, findSome?_nil, Option.or_none, getElem?_eq_getElem small]
      exact getElem?_eq_getElem small
    case atoms =>
      refine ⟨[], (append_nil _).symm, fun atom => ⟨fun isIn => absurd isIn not_mem_nil, ?_⟩⟩
      rintro (⟨_, isIn, _⟩ | ⟨slot, isEmpty, isFilled⟩)
      · cases isIn
      · rw [filledBy, isEmpty] at isFilled
        cases isFilled
    case rooted => simp [begin]
    case fixups => rfl
    case length => exact le_refl _
    case known => exact fun _ _ isKnown => isKnown
    case fresh => exact fun _ isNew _ => isNew
    case added => exact fun _ isIn => absurd isIn not_mem_nil
    case named => exact fun _ _ => Iff.rfl
  unfold markEntry at run
  split at run
  · cases run
  next found searched entry =>
    unfold entryPoint at entry
    split at entry
    next isNone =>
      cases entry
      cases run
      rw [isNone]
      exact initial
    next name isName =>
      rw [isName]
      split at entry
      · cases entry
      · cases entry
      next atom middle search =>
        split at entry
        · cases entry
        · cases entry
          exact initial.search_marked wellBound search run

theorem names_resolved {first : State Ref}
    (resolved : Resolved link before (entrySymbol link).toList (· ∈ first.rooted) first)
    (run : link.initialUndefines.foldlM (markUndefined link) first = .ok after) :
    Resolved link before (searchedNames link) (· ∈ after.rooted) after := by
  have kept := foldlM_index_keeps (fun index state => Resolved link before
    ((entrySymbol link).toList ++ link.initialUndefines.take index) (· ∈ state.rooted) state)
    (fun index name state after isName resolved step => ?_) (by simpa using resolved) run
  · rwa [take_length] at kept
  · unfold markUndefined at step
    split at step
    · cases step
    next found searched search =>
      rw [take_add_one, isName, ← append_assoc]
      exact resolved.search_marked wellBound search step

/-- After the roots have been marked, the slots are as the searches fill them and the roots are
those of the link. -/
theorem roots_resolved (run : forEachDeadStripRoot link force (begin force before) = .ok rooted) :
    (∃ named, Resolved link before (searchedNames link) named rooted) ∧
      ∀ atom, atom ∈ rooted.rooted ↔ IsRoot link before force atom := by
  obtain ⟨first, entry, run⟩ := bind_ok run
  obtain ⟨second, undefines, run⟩ := bind_ok run
  obtain ⟨third, helping, run⟩ := bind_ok run
  have resolved := names_resolved wellBound (entry_resolved wellBound entry) undefines
  obtain ⟨more, isAtoms, loaded⟩ := resolved.atoms
  obtain ⟨helped, isThird, areHelped⟩ :=
    markAll_still (wellBound.bound resolved.fixups) helping
  have thirdResolved : Resolved link before (searchedNames link) (· ∈ second.rooted) third :=
    resolved.marked (by rw [isThird]) fun _ => Iff.rfl
  have asOptions : ((third.atoms.filter fun atom => !(link.atom atom).coalescedAway &&
      atomIsDeadStripRoot link force atom).map some).foldlM (markOptional link) third =
        .ok rooted := by
    rw [foldlM_map]
    exact run
  obtain ⟨own, isRooted, areOwn⟩ :=
    markAll_still (wellBound.bound thirdResolved.fixups) asOptions
  have rootedIs : rooted.rooted = own ++ (helped ++ second.rooted) := by
    rw [isRooted, isThird]
  have thirdAtoms : third.atoms = before.atoms ++ more := by
    rw [isThird]
    exact isAtoms
  refine ⟨⟨_, thirdResolved.marked (by rw [isRooted]) fun _ => Iff.rfl⟩, fun atom => ?_⟩
  rw [rootedIs, mem_append, mem_append, areOwn, areHelped, resolved.rooted, IsRoot]
  simp only [mem_map, mem_filter, Option.some.injEq, exists_eq_right, thirdAtoms, mem_append]
  constructor
  · rintro (⟨isIn | isMore, isOwn⟩ | isHelper | isNamed)
    · exact .inr (.inr ⟨isIn, isOwn⟩)
    · exact .inl (loadedBy_rooted ((loaded atom).mp isMore))
    · exact .inr (.inl isHelper)
    · exact .inl isNamed
  · rintro (isNamed | isHelper | ⟨isIn, isOwn⟩)
    · exact .inr (.inr isNamed)
    · exact .inr (.inl isHelper)
    · exact .inl ⟨.inl isIn, isOwn⟩

end

end Roots

section Result

variable [DecidableEq Ref] (link : Link Ref) (before : State Ref) (force : Bool)

/-- Live before this run, or met from its roots through fixups of the listed kinds. -/
def MetFromRoots (atom : Ref) : Prop :=
  startLive force before atom = true ∨
    Reach (LinksTo link before) (fun atom => startLive force before atom = true)
      (IsRoot link before force) atom

/-- Met from the roots, or from an atom that is to be live when it refers to a live one, on a path
along which such atoms come in the order of `_atoms`. -/
def Met : Ref → Prop :=
  TriedInOrder (LinksTo link before) (RefersTo link before) (MetFromRoots link before force)
    (liveIfRefLiveAtoms link force before) (liveIfRefLiveAtoms link force before).length

/-- Met from the roots on a path along which such atoms come in any order. -/
def Needed : Ref → Prop :=
  Supported (LinksTo link before)
    (fun atom next => atom ∈ before.atoms ∧
      (link.atom atom).dontDeadStripIfReferencesLive = true ∧ RefersTo link before atom next)
    (MetFromRoots link before force)

variable [Fintype Ref] {link before force} {state rooted out : State Ref}
  {named : Ref → Prop}

omit [DecidableEq Ref] [Fintype Ref] in
theorem Resolved.target_iff (wellBound : WellBound before)
    (resolved : Resolved link before (searchedNames link) named state) {atom : Ref}
    {fixup : Fixup Ref} (isIn : fixup ∈ before.fixups atom) :
    state.target fixup = inputTarget link before fixup := by
  obtain ⟨kind, binding⟩ := fixup
  cases binding with
  | indirectlyBound slot =>
    have inTable := wellBound.slots atom _ isIn slot rfl
    simp only [State.target, targetIn, inputTarget, resolved.slots slot inTable, Option.join_some]
  | none | byNameUnbound name | directlyBound target | byContentBound target => rfl

omit [DecidableEq Ref] [Fintype Ref] in
theorem Resolved.follows_eq (wellBound : WellBound before)
    (resolved : Resolved link before (searchedNames link) named state) :
    Follows state = LinksTo link before := by
  funext atom next
  rw [Follows, LinksTo, resolved.fixups]
  refine propext (exists_congr fun fixup => and_congr_right fun isIn => and_congr_right fun _ => ?_)
  rw [resolved.target_iff wellBound isIn]

omit [DecidableEq Ref] [Fintype Ref] in
theorem Resolved.refers_eq (wellBound : WellBound before)
    (resolved : Resolved link before (searchedNames link) named state) :
    Refers state = RefersTo link before := by
  funext atom next
  rw [Refers, RefersTo, resolved.fixups]
  refine propext (exists_congr fun fixup => and_congr_right fun isIn => ?_)
  rw [resolved.target_iff wellBound isIn]

section

variable (wellBound : WellBound before)
  (roots : forEachDeadStripRoot link force (begin force before) = .ok rooted)
include wellBound roots

theorem rooted_live_iff (atom : Ref) :
    rooted.live atom = true ↔ MetFromRoots link before force atom := by
  have begun : Walked (fun atom => startLive force before atom = true) (fun _ => False)
      (begin force before) :=
    Walked.initial (begin force before) fun _ isIn => absurd isIn not_mem_nil
  have walked := walked_kept.roots begun roots
  obtain ⟨⟨named, resolved⟩, areRoots⟩ := roots_resolved wellBound roots
  have same : (fun atom => atom ∈ rooted.rooted) = IsRoot link before force :=
    funext fun atom => propext (areRoots atom)
  have reached := walked.progress.reached atom
  have back : Reach (Follows rooted) _ (fun atom => atom ∈ rooted.rooted) atom → _ :=
    walked.reached_live
  rw [resolved.follows_eq wellBound, same] at reached back
  constructor
  · intro isLive
    by_cases old : startLive force before atom = true
    · exact .inl old
    · exact .inr (reached isLive old)
  · rintro (old | met)
    · exact walked.begun atom old
    · exact back met

end

theorem late_resolved (wellBound : WellBound before)
    (resolved : Resolved link before (searchedNames link) named rooted) {late : List Ref}
    (run : late.foldlM (markIfRefLive link) rooted = .ok state) :
    Resolved link before (searchedNames link) named state := by
  refine foldlM_keeps (Resolved link before (searchedNames link) named) ?_ resolved run
  intro current atom after _ holds step
  rcases markIfRefLive_ok step with ⟨rfl, _⟩ | ⟨_, _, marking⟩
  · exact holds
  · have still := @markOptional_still _ _ link _ after _ (some atom) (wellBound.bound holds.fixups)
      marking
    exact holds.marked (by rw [still]) fun _ => Iff.rfl

section

variable (stripping : link.deadCodeStrip = true) (wellBound : WellBound before)
  (run : deadStripOptimize link force before = .ok out)
include stripping wellBound run

/-- Live in the end is what is met in the link as it was before. -/
theorem deadStripOptimize_met : ∃ state named,
    Resolved link before (searchedNames link) named state ∧
      (∀ atom, state.live atom = true ↔ Met link before force atom) ∧
      out = removeNotLive link force state := by
  obtain ⟨rooted, roots⟩ : ∃ rooted,
      forEachDeadStripRoot link force (begin force before) = .ok rooted := by
    have opened := run
    simp only [deadStripOptimize, stripping, Bool.not_true, Bool.false_eq_true, if_false] at opened
    obtain ⟨rooted, roots, _⟩ := bind_ok opened
    exact ⟨rooted, roots⟩
  obtain ⟨state, late, tried, isOut⟩ :=
    deadStripOptimize_tried stripping wellBound.slots roots run
  obtain ⟨⟨named, resolved⟩, areRoots⟩ := roots_resolved wellBound roots
  have stateResolved := late_resolved wellBound resolved late
  obtain ⟨more, isAtoms, loaded⟩ := resolved.atoms
  have isLate : liveIfRefLiveAtoms link force rooted =
      liveIfRefLiveAtoms link force before ++ more.filter fun atom =>
        !(link.atom atom).coalescedAway && !atomIsDeadStripRoot link force atom &&
          (link.atom atom).dontDeadStripIfReferencesLive := by
    rw [liveIfRefLiveAtoms, isAtoms, filter_append]
    rfl
  have isBase : (fun atom => rooted.live atom = true) = MetFromRoots link before force :=
    funext fun atom => propext (rooted_live_iff wellBound roots atom)
  refine ⟨state, named, stateResolved, fun atom => ?_, isOut⟩
  rw [tried.held, stateResolved.follows_eq wellBound, resolved.refers_eq wellBound, isBase, isLate,
    TriedInOrder.append_iff, Met]
  intro other isIn
  have isRoot := loadedBy_rooted ((loaded other).mp (mem_of_mem_filter isIn))
  exact .inr (.root (.inl isRoot))

theorem live_iff_met (atom : Ref) : out.live atom = true ↔ Met link before force atom := by
  obtain ⟨state, named, _, live, rfl⟩ := deadStripOptimize_met stripping wellBound run
  rw [removeNotLive_live]
  exact live atom

theorem refers_out_iff {atom next : Ref} (isLive : out.live next = true) :
    Refers out atom next ↔ RefersTo link before atom next := by
  obtain ⟨state, named, resolved, _, rfl⟩ := deadStripOptimize_met stripping wellBound run
  rw [removeNotLive_live] at isLive
  rw [← resolved.refers_eq wellBound, Refers, Refers, removeNotLive_fixups]
  refine exists_congr fun fixup => and_congr_right fun _ => ?_
  exact ⟨target_before_removal, fun target => target_after_removal target isLive⟩

end

omit [Fintype Ref] in
theorem Met.follow {atom next : Ref} (met : Met link before force atom)
    (fresh : startLive force before atom = false) (links : LinksTo link before atom next) :
    Met link before force next := by
  by_cases base : MetFromRoots link before force atom
  · rcases base with old | reached
    · rw [fresh] at old
      cases old
    · exact .old (.inr (.step reached (by simp [fresh]) links))
  · exact .step met base links

/-- Every atom with the mark that refers to a live atom is live. -/
def SupportClosed (link : Link Ref) (before out : State Ref) : Prop :=
  ∀ atom ∈ before.atoms, (link.atom atom).dontDeadStripIfReferencesLive = true →
    ∀ next, Refers out atom next → out.live next = true → out.live atom = true

omit [Fintype Ref] in
theorem needed_of_met {atom : Ref} (met : Met link before force atom) :
    Needed link before force atom := by
  apply TriedInOrder.supported met
  intro a isIn b refers
  rw [liveIfRefLiveAtoms, mem_filter] at isIn
  simp only [Bool.and_eq_true] at isIn
  exact ⟨isIn.1, isIn.2.2, refers⟩

/-- No atom with the mark is left behind, if and only if whatever is met from the roots is met on
a path along which the atoms with the mark come in the order of `_atoms`. What is live is then
what is met on any path. -/
theorem support_closed_iff (stripping : link.deadCodeStrip = true) (wellBound : WellBound before)
    (run : deadStripOptimize link force before = .ok out) :
    (SupportClosed link before out ↔
        ∀ atom, Needed link before force atom → Met link before force atom) ∧
      (SupportClosed link before out →
        ∀ atom, out.live atom = true ↔ Needed link before force atom) := by
  have live := live_iff_met stripping wellBound run
  have met_of_needed (closed : SupportClosed link before out) (atom : Ref)
      (needed : Needed link before force atom) : Met link before force atom := by
    apply needed.least
    · exact fun a base => .old base
    · intro a b met base links
      exact .step met base links
    · rintro a b ⟨isIn, marked, refers⟩ met
      have isLive := (live b).mpr met
      exact (live a).mp (closed a isIn marked b
        ((refers_out_iff stripping wellBound run isLive).mpr refers) isLive)
  refine ⟨⟨met_of_needed, ?_⟩, fun closed atom => ?_⟩
  · intro inOrder atom isIn marked next refers isLive
    have refersTo := (refers_out_iff stripping wellBound run isLive).mp refers
    exact (live atom).mpr (inOrder atom
      (.support ⟨isIn, marked, refersTo⟩ (needed_of_met ((live next).mp isLive))))
  · rw [live]
    exact ⟨needed_of_met, met_of_needed closed atom⟩

end Result

section Removed

variable [DecidableEq Ref] (link : Link Ref) (before : State Ref) (force : Bool)

/-- An atom of the link that is not removed. -/
def Stays (atom : Ref) : Prop :=
  (atom ∈ before.atoms ∨ LoadedBy link before (searchedNames link) atom) ∧
    (Met link before force atom ∨ (link.atom atom).dontDeadStrip = true ∨
      (link.haveLLVMObjs && !force) = true ∧ ((link.atom atom).combine = .byNameAndContent ∨
        (link.atom atom).combine = .byNameAndReferences))

/-- The slot of a name whose atom goes, in the run before the one after LTO. -/
def Erased (fixup : Fixup Ref) (next : Ref) : Prop :=
  (link.haveLLVMObjs && !force) = true ∧ (link.atom next).dontDeadStrip = false ∧
    ∃ slot ∈ before.byNameTable.map Prod.snd, fixup.binding = .indirectlyBound slot

/-- What is passed over: a fixup of a kind that `markLive` does not list, or of an atom that stays
without being met in this run. -/
def PassedOver (atom : Ref) (fixup : Fixup Ref) : Prop :=
  followed fixup.kind = false ∨ startLive force before atom = true ∨ ¬ Met link before force atom

/-- Whatever is passed over leads to an atom that is met elsewhere. -/
def Covered : Prop :=
  ∀ atom, Stays link before force atom → ∀ fixup ∈ before.fixups atom,
    fixup.kind.takesAddress = true → PassedOver link before force atom fixup →
    ∀ next, inputTarget link before fixup = some next →
      Met link before force next ∨ Erased link before force fixup next

/-- Whatever an atom that is left takes the address of is live. -/
def ReferencesLive (out : State Ref) : Prop :=
  ∀ atom ∈ out.atoms, ∀ fixup ∈ out.fixups atom, fixup.kind.takesAddress = true →
    ∀ next, out.target fixup = some next → out.live next = true

variable [Fintype Ref] {link before force} {state out : State Ref} {named : Ref → Prop}

omit [Fintype Ref] in
theorem Resolved.stays_iff (resolved : Resolved link before (searchedNames link) named state)
    (live : ∀ atom, state.live atom = true ↔ Met link before force atom) (atom : Ref) :
    atom ∈ (removeNotLive link force state).atoms ↔ Stays link before force atom := by
  obtain ⟨more, isAtoms, loaded⟩ := resolved.atoms
  have members : atom ∈ state.atoms ↔
      atom ∈ before.atoms ∨ LoadedBy link before (searchedNames link) atom := by
    rw [isAtoms, mem_append, loaded]
  rw [Stays, ← members, ← live, removeNotLive]
  cases first : link.haveLLVMObjs && !force with
  | false => simp [mem_filter, notLive]
  | true =>
    rw [if_pos rfl]
    change atom ∈ state.atoms.filter _ ↔ _
    rw [mem_filter, notLiveLTO]
    refine and_congr_right fun _ => ?_
    cases state.live atom <;> cases (link.atom atom).dontDeadStrip <;>
      cases (link.atom atom).combine <;> simp

omit [Fintype Ref] in
theorem Resolved.target_out_iff (wellBound : WellBound before)
    (resolved : Resolved link before (searchedNames link) named state) {atom next : Ref}
    (isDead : state.live next = false) {fixup : Fixup Ref} (isIn : fixup ∈ before.fixups atom) :
    (removeNotLive link force state).target fixup = some next ↔
      inputTarget link before fixup = some next ∧ ¬ Erased link before force fixup next := by
  rw [← resolved.target_iff wellBound isIn, Erased, removeNotLive]
  cases first : link.haveLLVMObjs && !force with
  | false => simp [State.target]
  | true =>
    rw [if_pos rfl]
    obtain ⟨kind, binding⟩ := fixup
    cases binding with
    | indirectlyBound slot =>
      have inTable := wellBound.slots atom _ isIn slot rfl
      have isNamed := resolved.named slot inTable
      simp only [State.target, targetIn, removeDeadAtoms, getElem?_mapIdx, deadSlot,
        resolved.slots slot inTable, Option.map_some, Option.join_some]
      cases filledBy link before (searchedNames link) slot with
      | none => simp
      | some held =>
        by_cases same : held = next
        · subst same
          have contained : (state.byNameTable.map Prod.snd).contains slot =
              decide (slot ∈ before.byNameTable.map Prod.snd) := by
            rw [contains_eq_mem]
            exact decide_eq_decide.mpr isNamed
          simp only [contained, Binding.indirectlyBound.injEq, exists_eq_right', notLive, isDead,
            Bool.false_or]
          generalize before.byNameTable.map Prod.snd = names
          cases (link.atom held).dontDeadStrip <;> simp
        · simp [same]
    | none | byNameUnbound name | directlyBound target | byContentBound target =>
      simp [State.target, targetIn]

section

variable (stripping : link.deadCodeStrip = true) (wellBound : WellBound before)
  (run : deadStripOptimize link force before = .ok out)
include stripping wellBound run

/-- No reference that is left leads to a removed atom, if and only if those that the walk passes
over lead to atoms that it meets elsewhere. -/
theorem references_live_iff : ReferencesLive out ↔ Covered link before force := by
  obtain ⟨state, named, resolved, live, rfl⟩ := deadStripOptimize_met stripping wellBound run
  have stays := resolved.stays_iff live
  constructor
  · intro sound atom isLeft fixup isIn takes _ next target
    by_cases met : Met link before force next
    · exact .inl met
    right
    by_contra kept
    have isDead : state.live next = false := by
      rw [← Bool.not_eq_true, live]
      exact met
    have isLive := sound atom ((stays atom).mpr isLeft) fixup
      (by rw [removeNotLive_fixups, resolved.fixups]; exact isIn) takes next
      ((resolved.target_out_iff wellBound isDead isIn).mpr ⟨target, kept⟩)
    rw [removeNotLive_live, isDead] at isLive
    cases isLive
  · intro covered atom isLeft fixup isIn takes next target
    rw [removeNotLive_fixups, resolved.fixups] at isIn
    have before' := target_before_removal target
    rw [resolved.target_iff wellBound isIn] at before'
    rw [removeNotLive_live, live]
    by_contra missed
    have isDead : state.live next = false := by
      rw [← Bool.not_eq_true, live]
      exact missed
    have kept := ((resolved.target_out_iff wellBound isDead isIn).mp target).2
    by_cases passed : PassedOver link before force atom fixup
    · exact (covered atom ((stays atom).mp isLeft) fixup isIn takes passed next before').elim missed
        kept
    · rw [PassedOver, not_or, not_or, not_not] at passed
      obtain ⟨kind, fresh, met⟩ := passed
      exact missed (met.follow (by simpa using fresh) ⟨fixup, isIn, by simpa using kind, before'⟩)

/-- An atom of the link stays exactly when it is met or is kept for itself. -/
theorem stays_iff_met (plain : (link.haveLLVMObjs && !force) = false) {atom : Ref}
    (isIn : atom ∈ before.atoms) :
    atom ∈ out.atoms ↔ Met link before force atom ∨ (link.atom atom).dontDeadStrip = true := by
  obtain ⟨state, named, resolved, live, rfl⟩ := deadStripOptimize_met stripping wellBound run
  rw [resolved.stays_iff live, Stays, and_iff_right (.inl isIn)]
  simp [plain]

end

end Removed

def mainLink : Link (Fin 2) where
  atom index :=
    { name := if index = 0 then "_main" else "_data"
      safeFilePath := "main.o"
      scope := .global
      combine := .never
      definitionProxy := false
      typeLTOtemporary := false
      dontDeadStrip := false
      dontDeadStripIfReferencesLive := false
      coalescedAway := false
      coalescesByContent := false
      coalescesByReferences := false }
  sameContent := fun _ _ => false
  sameReferences := fun _ _ => false
  archived := fun _ => none
  outputKind := .dynamicExecutable
  entryName := some "_main"
  initFunctionName := none
  initialUndefines := []
  classicBindingHelper := none
  compressedFastBinderProxy := none
  lazyBindingHelper := none
  objcMsgSendProxy := none
  deadCodeStrip := true
  hasWildCardExportRestrictList := false
  allGlobalsAreDeadStripRoots := false
  shouldExport := fun _ => true
  haveLLVMObjs := false

def mainState (kinds : List Kind) : State (Fin 2) where
  atoms := [0, 1]
  live := fun _ => false
  fixups := fun index =>
    if index = 0 then kinds.map fun kind => { kind := kind, binding := .directlyBound 1 } else []
  indirectBindingTable := [some 0, some 1]
  byNameTable := [("_main", 0), ("_data", 1)]
  contentTable := []
  referencesTable := []
  rooted := []

theorem main_fixup_bound {kinds : List Kind} {atom : Fin 2} {fixup : Fixup (Fin 2)}
    (isIn : fixup ∈ (mainState kinds).fixups atom) : fixup.binding = .directlyBound 1 := by
  simp only [mainState] at isIn
  split at isIn
  · obtain ⟨kind, _, rfl⟩ := mem_map.mp isIn
    rfl
  · cases isIn

theorem main_well_bound (kinds : List Kind) : WellBound (mainState kinds) where
  byName _ _ isIn _ := by simp [main_fixup_bound isIn]
  byContent _ _ isIn _ := by simp [main_fixup_bound isIn]
  slots _ _ isIn _ bound := by simp [main_fixup_bound isIn] at bound
  names name slot found := by
    simp only [mainState, lookup_cons, lookup_nil] at found
    split at found
    · cases found
      exact Nat.zero_lt_two
    split at found <;> cases found
    exact Nat.one_lt_two

/-- With the page and the offset in the page taken in one function, both atoms stay. -/
theorem page_and_offset_kept : ∃ out, deadStripOptimize mainLink false
        (mainState [.storeTargetAddressARM64Page21, .storeTargetAddressARM64PageOff12]) = .ok out ∧
      out.atoms = [0, 1] ∧ ReferencesLive out := by
  obtain ⟨out, run, isOut, isLive⟩ : ∃ out, deadStripOptimize mainLink false
      (mainState [.storeTargetAddressARM64Page21, .storeTargetAddressARM64PageOff12]) = .ok out ∧
        out.atoms = [0, 1] ∧ out.live 1 = true := ⟨_, rfl, rfl, rfl⟩
  have isBound :=
    main_well_bound [.storeTargetAddressARM64Page21, .storeTargetAddressARM64PageOff12]
  refine ⟨out, run, isOut, (references_live_iff rfl isBound run).mpr ?_⟩
  intro atom _ fixup isIn _ _ next target
  rw [inputTarget, main_fixup_bound isIn] at target
  cases target
  exact .inl ((live_iff_met rfl isBound run 1).mp isLive)

/-- An offset in a page whose page is taken elsewhere does not keep its target. -/
theorem page_offset_target_removed :
    ∃ out, deadStripOptimize mainLink false (mainState [.storeTargetAddressARM64PageOff12]) =
        .ok out ∧
      out.atoms = [0] ∧ out.target ⟨.storeTargetAddressARM64PageOff12, .directlyBound 1⟩ = some 1 ∧
      ¬ ReferencesLive out := by
  refine ⟨_, rfl, rfl, rfl, ?_⟩
  intro sound
  have isLive := sound 0 mem_cons_self _ mem_cons_self rfl 1 rfl
  cases isLive

def supportLink : Link (Fin 4) where
  atom index :=
    { name := if index = 0 then "_main" else "_other"
      safeFilePath := "main.o"
      scope := .translationUnit
      combine := .never
      definitionProxy := false
      typeLTOtemporary := false
      dontDeadStrip := false
      dontDeadStripIfReferencesLive := index = 1 || index = 3
      coalescedAway := false
      coalescesByContent := false
      coalescesByReferences := false }
  sameContent := fun _ _ => false
  sameReferences := fun _ _ => false
  archived := fun _ => none
  outputKind := .dynamicExecutable
  entryName := some "_main"
  initFunctionName := none
  initialUndefines := []
  classicBindingHelper := none
  compressedFastBinderProxy := none
  lazyBindingHelper := none
  objcMsgSendProxy := none
  deadCodeStrip := true
  hasWildCardExportRestrictList := false
  allGlobalsAreDeadStripRoots := false
  shouldExport := fun _ => true
  haveLLVMObjs := false

def supportState (atoms : List (Fin 4)) : State (Fin 4) where
  atoms := atoms
  live := fun _ => false
  fixups := fun index =>
    if index = 1 then [⟨.setTargetAddress, .directlyBound 2⟩]
    else if index = 3 then
      [⟨.setTargetAddress, .directlyBound 0⟩, ⟨.setTargetAddress, .directlyBound 2⟩]
    else []
  indirectBindingTable := [some 0]
  byNameTable := [("_main", 0)]
  contentTable := []
  referencesTable := []
  rooted := []

theorem support_fixup_bound {atoms : List (Fin 4)} {atom : Fin 4} {fixup : Fixup (Fin 4)}
    (isIn : fixup ∈ (supportState atoms).fixups atom) :
    ∃ target, fixup.binding = .directlyBound target := by
  simp only [supportState] at isIn
  split at isIn
  · exact ⟨2, by rw [mem_singleton.mp isIn]⟩
  split at isIn
  · simp only [mem_cons, not_mem_nil, or_false] at isIn
    rcases isIn with rfl | rfl
    · exact ⟨0, rfl⟩
    · exact ⟨2, rfl⟩
  · cases isIn

theorem support_well_bound (atoms : List (Fin 4)) : WellBound (supportState atoms) where
  byName _ _ isIn _ := by
    obtain ⟨target, bound⟩ := support_fixup_bound isIn
    simp [bound]
  byContent _ _ isIn _ := by
    obtain ⟨target, bound⟩ := support_fixup_bound isIn
    simp [bound]
  slots _ _ isIn _ isSlot := by
    obtain ⟨target, bound⟩ := support_fixup_bound isIn
    simp [bound] at isSlot
  names name slot found := by
    simp only [supportState, lookup_cons, lookup_nil] at found
    split at found <;> cases found
    exact Nat.zero_lt_one

/-- Tried in this order, both atoms with the mark are kept. -/
theorem later_target_kept : ∃ out,
    deadStripOptimize supportLink false (supportState [0, 2, 3, 1]) = .ok out ∧
      SupportClosed supportLink (supportState [0, 2, 3, 1]) out ∧
      ∀ atom, out.live atom = true ↔ Needed supportLink (supportState [0, 2, 3, 1]) false atom := by
  obtain ⟨out, run, all⟩ : ∃ out,
      deadStripOptimize supportLink false (supportState [0, 2, 3, 1]) = .ok out ∧
        ∀ atom, out.live atom = true := ⟨_, rfl, by decide⟩
  have isBound := support_well_bound [0, 2, 3, 1]
  have closed := support_closed_iff rfl isBound run
  have isClosed := closed.1.mpr fun atom _ => (live_iff_met rfl isBound run atom).mp (all atom)
  exact ⟨out, run, isClosed, closed.2 isClosed⟩

/-- In another order of the same atoms one of them is lost. -/
theorem earlier_support_lost :
    (∃ out, deadStripOptimize supportLink false (supportState [0, 1, 2, 3]) = .ok out ∧
      out.atoms = [0, 2, 3] ∧ ¬ SupportClosed supportLink (supportState [0, 1, 2, 3]) out) ∧
    ∃ out, deadStripOptimize supportLink false (supportState [0, 2, 3, 1]) = .ok out ∧
      out.atoms = [0, 2, 3, 1] := by
  refine ⟨⟨_, rfl, rfl, ?_⟩, _, rfl, rfl⟩
  intro closed
  have isLive := closed 1 (.tail _ mem_cons_self) rfl 2 ⟨_, mem_cons_self, rfl⟩ rfl
  cases isLive

/-- In that order the last atom is kept for `_main` and the one before it is met from there, while
nothing is left that leads to the second. -/
theorem third_met_second_removed : ∃ out,
    deadStripOptimize supportLink false (supportState [0, 1, 2, 3]) = .ok out ∧
      (2 ∈ out.atoms ∧ Met supportLink (supportState [0, 1, 2, 3]) false 2) ∧
      1 ∉ out.atoms ∧ ¬ Met supportLink (supportState [0, 1, 2, 3]) false 1 := by
  obtain ⟨out, run, isOut⟩ : ∃ out,
      deadStripOptimize supportLink false (supportState [0, 1, 2, 3]) = .ok out ∧
        out.atoms = [0, 2, 3] := ⟨_, rfl, rfl⟩
  have stays (atom : Fin 4) (isIn : atom ∈ [0, 1, 2, 3]) :=
    stays_iff_met rfl (support_well_bound [0, 1, 2, 3]) run rfl isIn
  have third := (stays 2 (by decide)).mp (by rw [isOut]; decide)
  have second := mt (stays 1 (by decide)).mpr (by rw [isOut]; decide)
  refine ⟨out, run, ⟨by rw [isOut]; decide, ?_⟩, by rw [isOut]; decide, ?_⟩
  · simpa [supportLink] using third
  · simpa [supportLink] using second

end DeveloperTools.Ld64.DeadStrip
