import DeveloperTools.Ld64.ChainedFixups

/-!
A bound pointer keeps an ordinal and, where it fits, the addend. The import of
the ordinal has the rest. The formats of the imports table are chosen by flags
of the list of targets: an addend that is in the list but raises no flag is
lost.
-/

namespace DeveloperTools.Ld64.ChainedFixups

open List Option Nat

def ChainedPointer.bind? : ChainedPointer → Option (Nat × BitVec 64)
  | .bind64 ordinal addend => some (ordinal.toNat, addend.setWidth 64)
  | .bindArm64e ordinal addend => some (ordinal.toNat, addend.signExtend 64)
  | .bindArm64e24 ordinal addend => some (ordinal.toNat, addend.signExtend 64)
  | .authBind ordinal _ => some (ordinal.toNat, 0)
  | .authBind24 ordinal _ => some (ordinal.toNat, 0)
  | .bind32 ordinal addend => some (ordinal.toNat, addend.setWidth 64)
  | _ => none

section Statement

variable {Atom : Type} (writer : Writer Atom)

def importedAtom (target : Atom) : Atom := aliasBase writer (aliasBase writer target)

def PointerFixup.Bound (fixup : PointerFixup Atom) : Prop :=
  reference writer (writer.atoms (aliasBase writer fixup.target)) ≠ .rebase

instance (fixup : PointerFixup Atom) : Decidable (fixup.Bound writer) :=
  inferInstanceAs (Decidable (¬ _))

/-- The pointer stands for the target plus addend of the fixup. -/
def Recovers (info : ChainedInfo) (fixup : PointerFixup Atom) (pointer : ChainedPointer) : Prop :=
  ∃ ordinal inlineAddend view, pointer.bind? = some (ordinal, inlineAddend) ∧
    info.readImport ordinal = some view ∧
    view.name = (writer.atoms (importedAtom writer fixup.target)).name.chars ∧
    libOrdinal writer (writer.atoms (importedAtom writer fixup.target)) = some view.libOrdinal ∧
    view.weakImport = weakImport (writer.atoms (importedAtom writer fixup.target)) ∧
    view.addend + inlineAddend = fixup.addend

/-- What the linker keeps of its atoms: proxies have no address, a thumb function
is at an even one, an import alias has an import as its base and is nested in at
most one other, and ordinals are those of the dylibs. -/
structure Writer.WellFormed : Prop where
  proxy : ∀ atom, (writer.atoms atom).definition = .proxy →
    (writer.atoms atom).finalAddress = 0 ∧ (writer.atoms atom).isThumb = false
  aliased : ∀ atom, (writer.atoms atom).definition = .proxy →
    (writer.atoms (aliasBase writer atom)).definition = .proxy
  nested : ∀ atom, aliasBase writer (importedAtom writer atom) = importedAtom writer atom
  thumb : ∀ atom, (writer.atoms atom).isThumb = true →
    (writer.atoms atom).finalAddress.toNat % 2 = 0
  ordinals : ∀ atom file ordinal, (writer.atoms atom).file = some file →
    file.ordinal = some ordinal → -1 ≤ ordinal ∧ ordinal ≤ writer.maxLibOrdinal

def poolSize (targets : List (Atom × BitVec 64)) : Nat :=
  1 + (targets.map fun entry =>
    (writer.atoms (aliasBase writer entry.1)).name.chars.length + 1).sum

end Statement

variable {addend : BitVec 64} {format : PointerFormat}

section Pointers

variable {Atom : Type} {writer : Writer Atom}

theorem clear_low_bit (value : BitVec 64) : (value &&& ~~~1#64).toNat = value.toNat / 2 * 2 := by
  have shifted : value &&& ~~~1#64 = (value >>> 1) <<< 1 := by
    apply BitVec.eq_of_getLsbD_eq
    intro i small
    simp only [BitVec.getLsbD_and, BitVec.getLsbD_not, BitVec.getLsbD_one,
      BitVec.getLsbD_shiftLeft, BitVec.getLsbD_ushiftRight, small]
    cases i with
    | zero => simp
    | succ i => simp [add_comm]
  rw [shifted, BitVec.toNat_shiftLeft, BitVec.toNat_ushiftRight, shiftRight_eq_div_pow,
    shiftLeft_eq]
  omega

variable {value : BitVec 64}

theorem set_low_bit (even : value.toNat % 2 = 0) : value ||| 1#64 = value + 1#64 := by
  have clear : value &&& 1#64 = 0#64 := by
    apply BitVec.eq_of_toNat_eq
    exact (and_one_is_mod _).trans even
  exact (BitVec.add_eq_or_of_and_eq_zero value 1#64 clear).symm

/-- The thumb bit of a local function, which is not part of the addend, takes
the lowest bit of the addend with it. -/
theorem bind_addend_eq (wellFormed : writer.WellFormed) {fixup : PointerFixup Atom}
    (bound : fixup.Bound writer) :
    (bindAddend writer (writer.atoms (aliasBase writer fixup.target))
        (fixup.accumulator writer)).toNat =
      if (writer.atoms fixup.target).isThumb then (1#64 + fixup.addend).toNat / 2 * 2
      else fixup.addend.toNat := by
  by_cases imported : (writer.atoms fixup.target).definition = .proxy
  · have base := wellFormed.aliased fixup.target imported
    obtain ⟨address, mode⟩ := wellFormed.proxy fixup.target imported
    obtain ⟨baseAddress, baseMode⟩ := wellFormed.proxy _ base
    have accumulated : fixup.accumulator writer = fixup.addend := by
      simp [PointerFixup.accumulator, address, mode]
    rw [accumulated, mode, bindAddend]
    split
    next rebased =>
      exact absurd rebased bound
    · simp [base]
    · simp [clearThumb, baseAddress, baseMode]
  · have same : aliasBase writer fixup.target = fixup.target := by simp [aliasBase, imported]
    rw [PointerFixup.Bound, same] at bound
    rw [same, bindAddend]
    cases mode : (writer.atoms fixup.target).isThumb with
    | false =>
      have accumulated : fixup.accumulator writer =
          (writer.atoms fixup.target).finalAddress + fixup.addend := by
        simp [PointerFixup.accumulator, mode]
      have left : fixup.accumulator writer - (writer.atoms fixup.target).finalAddress =
          fixup.addend := by
        rw [accumulated, BitVec.add_comm, BitVec.add_sub_cancel]
      split
      next rebased =>
        exact absurd rebased bound
      · simp [imported, clearThumb, mode, left]
      · simp [clearThumb, mode, left]
    | true =>
      have even := wellFormed.thumb fixup.target mode
      have accumulated : fixup.accumulator writer =
          (writer.atoms fixup.target).finalAddress + (1#64 + fixup.addend) := by
        simp only [PointerFixup.accumulator, mode, if_true]
        rw [set_low_bit even, BitVec.add_assoc]
      rw [accumulated]
      generalize 1#64 + fixup.addend = rest
      split
      next rebased =>
        exact absurd rebased bound
      · simp only [imported, if_false, clearThumb, mode, if_true]
        rw [BitVec.toNat_sub, clear_low_bit, BitVec.toNat_add]
        omega
      · simp only [clearThumb, mode, if_true]
        rw [BitVec.add_comm, BitVec.add_sub_cancel, clear_low_bit]

structure Need.Splits (need : Need Atom) (target : Atom) (addend : BitVec 64) : Prop where
  bound : need.isBind = true
  base : need.target = target
  whole : need.accumulator + need.inlineAddend = addend

variable {target : Atom} {authPtr : Bool} {accumulator : BitVec 64} {need : Need Atom}

section Needs

variable (bound : reference writer (writer.atoms (aliasBase writer target)) ≠ .rebase)
  (ran : needsBind writer target authPtr accumulator = some need)
include bound ran

theorem needs_bind_splits :
    need.Splits (aliasBase writer target)
      (bindAddend writer (writer.atoms (aliasBase writer target)) accumulator) := by
  simp only [needsBind, bound, if_false] at ran
  split at ran
  · cases ran
    exact ⟨rfl, rfl, BitVec.add_zero _⟩
  obtain ⟨fits, -, rfl⟩ := map_eq_some_iff.mp ran
  cases fits with
  | true => exact ⟨rfl, rfl, BitVec.zero_add _⟩
  | false => exact ⟨rfl, rfl, BitVec.add_zero _⟩

theorem needs_bind_accumulator :
    (need.inlineAddend = 0 ∧
        (authPtr = true ∨ chainedFixupBindAddendFitsInline need.accumulator
          writer.chainedPointerFormat = some false)) ∨
      (need.accumulator = 0 ∧ authPtr = false ∧
        chainedFixupBindAddendFitsInline need.inlineAddend writer.chainedPointerFormat =
          some true) := by
  simp only [needsBind, bound, if_false] at ran
  split at ran
  next auth =>
    cases ran
    exact Or.inl ⟨rfl, Or.inl auth⟩
  rename_i plain
  obtain ⟨fits, fitsRan, rfl⟩ := map_eq_some_iff.mp ran
  cases fits with
  | true => exact Or.inr ⟨rfl, Bool.not_eq_true _ ▸ plain, fitsRan⟩
  | false => exact Or.inl ⟨rfl, Or.inr fitsRan⟩

theorem inline_addend_fits : need.inlineAddend = 0 ∨
      chainedFixupBindAddendFitsInline need.inlineAddend writer.chainedPointerFormat =
        some true := by
  rcases needs_bind_accumulator bound ran with outside | inside
  · exact Or.inl outside.1
  · exact Or.inr inside.2.2

end Needs

theorem needs_bind_target (ran : needsBind writer target authPtr accumulator = some need) :
    need.target = aliasBase writer target := by
  by_cases rebased : reference writer (writer.atoms (aliasBase writer target)) = .rebase
  · simp only [needsBind, rebased, if_true] at ran
    cases ran
    rfl
  · exact (needs_bind_splits rebased ran).base

theorem store_field_some {width value : Nat} {field : BitVec width}
    (stored : storeField width value = some field) : field.toNat = value := by
  unfold storeField at stored
  split at stored
  next same =>
    cases stored
    exact same
  · cases stored

theorem unsigned_field_back {width : Nat} (small : value.toNat < 2 ^ width) :
    (value.setWidth width).setWidth 64 = value := by
  apply BitVec.eq_of_toNat_eq
  rw [BitVec.toNat_setWidth, BitVec.toNat_setWidth, mod_eq_of_lt small, mod_eq_of_lt value.isLt]

theorem signed_field_back (small : value.toNat < 0x40000 ∨ 0xFFFFFFFFFFFC0000 ≤ value.toNat) :
    (value.setWidth 19).signExtend 64 = value := by
  apply BitVec.eq_of_toInt_eq
  rw [BitVec.toInt_signExtend_of_le (by decide), BitVec.toInt_setWidth, BitVec.toInt_eq_toNat_cond]
  rw [Int.bmod_def]
  split <;> split <;> omega

/-- The addend is read back from the field for it. -/
def PointerFormat.KeepsInline (addend : BitVec 64) : PointerFormat → Prop
  | .ptr64 | .ptr64Offset => (addend.setWidth 8).setWidth 64 = addend
  | .ptr32 => (addend.setWidth 6).setWidth 64 = addend
  | .ptr32Cache | .ptr32Firmware => True
  | .arm64e | .arm64eKernel | .arm64eUserland | .arm64eUserland24 | .arm64eFirmware =>
    (addend.setWidth 19).signExtend 64 = addend

theorem inline_addend_back
    (fits : addend = 0 ∨ chainedFixupBindAddendFitsInline addend format = some true) :
    format.KeepsInline addend := by
  have small : ∀ limit, (addend = 0 ∨ addend.toNat ≤ limit) → addend.toNat ≤ limit := by
    rintro limit (rfl | small)
    · exact zero_le _
    · exact small
  cases format with
  | ptr64 | ptr64Offset | ptr32 =>
    simp only [chainedFixupBindAddendFitsInline, Option.some.injEq, decide_eq_true_eq] at fits
    exact unsigned_field_back (lt_succ_of_le (small _ fits))
  | ptr32Cache | ptr32Firmware => trivial
  | _ =>
    simp only [chainedFixupBindAddendFitsInline, Option.some.injEq, Bool.or_eq_true,
      decide_eq_true_eq] at fits
    apply signed_field_back
    rcases fits with rfl | fits
    · exact Or.inl (by decide)
    · exact fits

end Pointers

variable {ordinal : Nat}

section Stored

variable {Atom : Type} [DecidableEq Atom] {writer : Writer Atom} {binds : ChainedFixupBinds Atom}
  {fixup : PointerFixup Atom} {pointer : ChainedPointer}

/-- A pointer that is stored for a bound target has the ordinal of the target and
what `needsBind` left for it. -/
structure StoredBind (writer : Writer Atom) (binds : ChainedFixupBinds Atom)
    (fixup : PointerFixup Atom) (pointer : ChainedPointer) (need : Need Atom) (ordinal : Nat) :
    Prop where
  needed : needsBind writer fixup.target fixup.store.authPtr (fixup.accumulator writer) = some need
  found : binds.ordinal need.target need.accumulator = some ordinal
  holds : pointer.bind? = some (ordinal, need.inlineAddend)
  plain : writer.chainedPointerFormat = .ptr32 → fixup.store.authPtr = false

variable {accumulator : BitVec 64}

theorem needs_ordinal_some {target : Atom} {authPtr : Bool} {need : Need Atom}
    (bound : reference writer (writer.atoms (aliasBase writer target)) ≠ .rebase)
    (ran : needsOrdinal writer binds target authPtr accumulator = some (need, ordinal)) :
    needsBind writer target authPtr accumulator = some need ∧ need.isBind = true ∧
      binds.ordinal need.target need.accumulator = some ordinal := by
  obtain ⟨found, needed, ran⟩ := bind_eq_some_iff.mp ran
  have splits := needs_bind_splits bound needed
  rw [splits.bound, if_pos rfl] at ran
  obtain ⟨other, looked, ran⟩ := bind_eq_some_iff.mp ran
  cases ran
  exact ⟨needed, splits.bound, looked⟩

def HoldsBind (writer : Writer Atom) (binds : ChainedFixupBinds Atom) (target : Atom)
    (authPtr : Bool) (accumulator : BitVec 64) (pointer : ChainedPointer) : Prop :=
  ∃ need ordinal, needsBind writer target authPtr accumulator = some need ∧
    binds.ordinal need.target need.accumulator = some ordinal ∧
    pointer.bind? = some (ordinal, need.inlineAddend)

section Formats

variable {target : Atom}
  (bound : reference writer (writer.atoms (aliasBase writer target)) ≠ .rebase)
include bound

theorem set_fixup_inline_stores (hasBinds : writer.chainedPointerFormat ≠ .ptr32Firmware)
    (stored : setFixup32 writer binds accumulator target = some pointer ∨
      setFixup64 writer binds accumulator target = some pointer) :
    HoldsBind writer binds target false accumulator pointer := by
  rcases stored with stored | stored
  all_goals
    obtain ⟨⟨need, ordinal⟩, ran, stored⟩ := bind_eq_some_iff.mp stored
    obtain ⟨needed, isBind, found⟩ := needs_ordinal_some bound ran
    have back := inline_addend_back (inline_addend_fits bound needed)
    refine ⟨need, ordinal, needed, found, ?_⟩
    dsimp only at stored
    split at stored
  all_goals first
    | contradiction
    | rename_i format
      rw [format, PointerFormat.KeepsInline] at back
      rw [isBind, if_pos rfl] at stored
      obtain ⟨field, fieldStored, rfl⟩ := map_eq_some_iff.mp stored
      rw [ChainedPointer.bind?, store_field_some fieldStored, back]

theorem set_fixup_64e_stores {data : AuthData}
    (stored : setFixup64e writer binds accumulator data target = some pointer) :
    HoldsBind writer binds target true accumulator pointer := by
  obtain ⟨⟨need, ordinal⟩, ran, stored⟩ := bind_eq_some_iff.mp stored
  obtain ⟨needed, isBind, found⟩ := needs_ordinal_some bound ran
  have nothing : need.inlineAddend = 0 := by
    rcases needs_bind_accumulator bound needed with outside | inside
    · exact outside.1
    · cases inside.2.1
  refine ⟨need, ordinal, needed, found, ?_⟩
  dsimp only at stored
  split at stored
  all_goals first
    | cases stored
    | rw [isBind, if_pos rfl] at stored
      obtain ⟨field, fieldStored, rfl⟩ := map_eq_some_iff.mp stored
      rw [ChainedPointer.bind?, store_field_some fieldStored, nothing]

end Formats

theorem set_fixup_plain (narrow : writer.chainedPointerFormat = .ptr32)
    (stored : setFixup writer binds fixup = some pointer) : fixup.store.authPtr = false := by
  unfold setFixup at stored
  split at stored
  next store =>
    rw [store]
    rfl
  next store =>
    rw [store]
    rfl
  · obtain ⟨found, -, stored⟩ := bind_eq_some_iff.mp stored
    rw [narrow] at stored
    cases stored

theorem set_fixup_stores (hasBinds : writer.chainedPointerFormat ≠ .ptr32Firmware)
    (bound : fixup.Bound writer) (stored : setFixup writer binds fixup = some pointer) :
    ∃ need ordinal, StoredBind writer binds fixup pointer need ordinal := by
  have held : HoldsBind writer binds fixup.target fixup.store.authPtr (fixup.accumulator writer)
      pointer := by
    unfold setFixup at stored
    split at stored
    next store =>
      rw [store]
      exact set_fixup_inline_stores bound hasBinds (.inl stored)
    next store =>
      rw [store]
      exact set_fixup_inline_stores bound hasBinds (.inr stored)
    next data store =>
      rw [store]
      exact set_fixup_64e_stores bound stored
  obtain ⟨need, ordinal, needed, found, holds⟩ := held
  exact ⟨need, ordinal, needed, found, holds, fun narrow => set_fixup_plain narrow stored⟩

end Stored

variable {index : Nat}

section Listing

variable {Atom : Type} {writer : Writer Atom} {binds next : ChainedFixupBinds Atom}
  {fixups : List (PointerFixup Atom)} {fixup : PointerFixup Atom}

def ChainedFixupBinds.Flagged (binds : ChainedFixupBinds Atom) : Prop :=
  binds.hasLargeAddends = true ∨ binds.hasHugeAddends = true

def Asks (writer : Writer Atom) (fixup : PointerFixup Atom) (entry : Atom × BitVec 64) : Prop :=
  fixup.Bound writer ∧ ∃ need,
    needsBind writer fixup.target fixup.store.authPtr (fixup.accumulator writer) = some need ∧
      entry = (need.target, need.accumulator)

/-- What is known of the list once the pointers have been noted. Addends of 64 to
255 raise no flag where the pointers are of 32 bits. -/
structure Listed (writer : Writer Atom) (fixups : List (PointerFixup Atom))
    (binds : ChainedFixupBinds Atom) : Prop where
  plain : ∀ atom ordinal, binds.bindOrdinalsWithNoAddend atom = some ordinal →
    ∃ index, ordinal = index % 2 ^ 32 ∧ binds.bindsTargets[index]? = some (atom, 0)
  origin : ∀ entry ∈ binds.bindsTargets, ∃ fixup ∈ fixups, Asks writer fixup entry
  raised : ∀ entry ∈ binds.bindsTargets, entry.2 ≠ 0 →
    (writer.chainedPointerFormat = .ptr32 → 255 < entry.2.toNat) → binds.Flagged
  reason : (∀ fixup ∈ fixups, fixup.store.authPtr = false) → binds.Flagged →
    ∃ entry ∈ binds.bindsTargets, 255 < entry.2.toNat

theorem listed_nothing : Listed writer [] {} where
  plain _ _ impossible := nomatch impossible
  origin _ impossible := nomatch impossible
  raised _ impossible := nomatch impossible
  reason _ flagged := by
    rcases flagged with large | huge
    · cases large
    · cases huge

theorem Listed.more (listed : Listed writer fixups binds) (fixup : PointerFixup Atom) :
    Listed writer (fixups ++ [fixup]) binds where
  plain := listed.plain
  origin entry member := by
    obtain ⟨other, among, asks⟩ := listed.origin entry member
    exact ⟨other, mem_append_left _ among, asks⟩
  raised := listed.raised
  reason plain flagged :=
    listed.reason (fun other member => plain other (mem_append_left _ member)) flagged

theorem Listed.origin_append (listed : Listed writer fixups binds) {last : Atom × BitVec 64}
    (asked : Asks writer fixup last) : ∀ entry ∈ binds.bindsTargets ++ [last],
      ∃ other ∈ fixups ++ [fixup], Asks writer other entry := by
  intro entry member
  rcases mem_append.mp member with old | new
  · exact (listed.more fixup).origin entry old
  · rw [mem_singleton.mp new]
    exact ⟨fixup, mem_append_right _ mem_cons_self, asked⟩

theorem entry_kept {Entry : Type} {entries : List Entry} {entry : Entry} (last : Entry)
    (place : entries[index]? = some entry) : (entries ++ [last])[index]? = some entry := by
  obtain ⟨small, -⟩ := List.getElem?_eq_some_iff.mp place
  rw [getElem?_append_left small]
  exact place

theorem large_of_outside (hasBinds : format ≠ .ptr32Firmware) (wide : format ≠ .ptr32)
    (outside : chainedFixupBindAddendFitsInline addend format = some false) :
    255 < addend.toNat := by
  cases format with
  | ptr32 => exact absurd rfl wide
  | ptr32Firmware => exact absurd rfl hasBinds
  | ptr32Cache => cases outside
  | ptr64 | ptr64Offset =>
    simp only [chainedFixupBindAddendFitsInline, Option.some.injEq, decide_eq_false_iff_not] at outside
    omega
  | _ =>
    simp only [chainedFixupBindAddendFitsInline, Option.some.injEq, Bool.or_eq_false_iff,
      decide_eq_false_iff_not] at outside
    omega

variable [DecidableEq Atom]

section

variable (hasBinds : writer.chainedPointerFormat ≠ .ptr32Firmware)
include hasBinds

omit [DecidableEq Atom] in
theorem Listed.addendTarget {atom : Atom} (listed : Listed writer fixups binds)
    (asked : Asks writer fixup (atom, addend)) :
    Listed writer (fixups ++ [fixup])
      { binds with
        bindsTargets := binds.bindsTargets ++ [(atom, addend)]
        hasHugeAddends := binds.hasHugeAddends || decide (0xFFFFFFFF < addend.toNat)
        hasLargeAddends := binds.hasLargeAddends || (!decide (0xFFFFFFFF < addend.toNat) &&
          if fixup.store.authPtr then decide (addend ≠ 0) else decide (255 < addend.toNat)) } where
  plain other ordinal found := by
    obtain ⟨index, value, place⟩ := listed.plain other ordinal found
    exact ⟨index, value, entry_kept _ place⟩
  origin := listed.origin_append asked
  raised entry member nonzero large := by
    rcases mem_append.mp member with old | new
    · rcases listed.raised entry old nonzero large with flag | flag
      · exact Or.inl (by simp [flag])
      · exact Or.inr (by simp [flag])
    rw [mem_singleton.mp new] at nonzero large
    by_cases huge : 0xFFFFFFFF < addend.toNat
    · exact Or.inr (by simp [huge])
    apply Or.inl
    cases auth : fixup.store.authPtr with
    | true => simpa [huge] using Or.inr nonzero
    | false =>
      have beyond : 255 < addend.toNat := by
        by_cases narrow : writer.chainedPointerFormat = .ptr32
        · exact large narrow
        obtain ⟨bound, need, needed, same⟩ := asked
        cases same
        rcases needs_bind_accumulator bound needed with outside | inside
        · rcases outside.2 with signed | outside
          · rw [auth] at signed
            cases signed
          · exact large_of_outside hasBinds narrow outside
        · exact absurd inside.1 nonzero
      simpa [huge] using Or.inr beyond
  reason plain flagged := by
    have auth := plain fixup (mem_append_right _ mem_cons_self)
    by_cases large : 255 < addend.toNat
    · exact ⟨(atom, addend), mem_append_right _ mem_cons_self, large⟩
    have before : binds.Flagged := by
      have small : ¬ 0xFFFFFFFF < addend.toNat := by omega
      simpa [ChainedFixupBinds.Flagged, auth, large, small] using flagged
    obtain ⟨entry, member, beyond⟩ := (listed.more fixup).reason plain before
    exact ⟨entry, mem_append_left _ member, beyond⟩

theorem note_target_listed (listed : Listed writer fixups binds)
    (noted : noteTarget writer binds fixup = some next) :
    Listed writer (fixups ++ [fixup]) next := by
  obtain ⟨need, needed, rfl⟩ := map_eq_some_iff.mp noted
  split
  next isBind =>
    have bound : fixup.Bound writer := by
      intro rebased
      simp only [needsBind, rebased, if_true] at needed
      cases needed
      cases isBind
    have asked : Asks writer fixup (need.target, need.accumulator) := ⟨bound, need, needed, rfl⟩
    unfold ChainedFixupBinds.ensureTarget
    split
    next zero =>
      rw [zero] at asked
      split
      · exact listed.more fixup
      · refine ⟨?_, listed.origin_append asked, ?_, ?_⟩
        · intro other ordinal found
          dsimp only at found ⊢
          by_cases same : other = need.target
          · subst same
            rw [Function.update_self] at found
            cases found
            refine ⟨binds.bindsTargets.length, rfl, ?_⟩
            rw [getElem?_append_right (Nat.le_refl _), Nat.sub_self]
            rfl
          · rw [Function.update_of_ne same] at found
            obtain ⟨index, value, place⟩ := listed.plain other ordinal found
            exact ⟨index, value, entry_kept _ place⟩
        · intro entry member nonzero large
          rcases mem_append.mp member with old | new
          · exact listed.raised entry old nonzero large
          · rw [mem_singleton.mp new] at nonzero
            exact absurd rfl nonzero
        · intro plain flagged
          obtain ⟨entry, member, large⟩ := (listed.more fixup).reason plain flagged
          exact ⟨entry, mem_append_left _ member, large⟩
    · split
      · exact listed.more fixup
      · exact listed.addendTarget hasBinds asked
  · exact listed.more fixup

theorem build_targets_listed (built : buildTargets writer fixups = some binds) :
    Listed writer fixups binds := by
  have run : ∀ (rest noted : List (PointerFixup Atom)) (state : ChainedFixupBinds Atom),
      Listed writer noted state → rest.foldlM (noteTarget writer) state = some binds →
      Listed writer (noted ++ rest) binds := by
    intro rest
    induction rest with
    | nil =>
      intro noted state listed ran
      cases ran
      rw [append_nil]
      exact listed
    | cons fixup rest ih =>
      intro noted state listed ran
      obtain ⟨middle, stepped, ran⟩ := bind_eq_some_iff.mp ran
      have later := ih (noted ++ [fixup]) middle (note_target_listed hasBinds listed stepped) ran
      rw [append_assoc] at later
      exact later
  exact run fixups [] {} listed_nothing built

end

theorem ordinal_place {atom : Atom} (listed : Listed writer fixups binds)
    (few : binds.bindsTargets.length ≤ 2 ^ 32) (found : binds.ordinal atom addend = some ordinal) :
    binds.bindsTargets[ordinal]? = some (atom, addend) := by
  have located : ∃ index, ordinal = index % 2 ^ 32 ∧
      binds.bindsTargets[index]? = some (atom, addend) := by
    unfold ChainedFixupBinds.ordinal at found
    split at found
    next zero =>
      rw [zero]
      exact listed.plain atom ordinal found
    obtain ⟨index, place, rfl⟩ := map_eq_some_iff.mp found
    refine ⟨index, rfl, ?_⟩
    obtain ⟨small, same, -⟩ := List.findIdx?_eq_some_iff_getElem.mp place
    rw [getElem?_eq_getElem small]
    exact congrArg some (of_decide_eq_true same)
  obtain ⟨index, rfl, place⟩ := located
  obtain ⟨small, -⟩ := List.getElem?_eq_some_iff.mp place
  rw [mod_eq_of_lt (lt_of_lt_of_le small few)]
  exact place

end Listing

section Reading

variable {Atom : Type} {writer : Writer Atom} {binds : ChainedFixupBinds Atom} {info : ChainedInfo}

structure ImportAt {Record : Type} (writer : Writer Atom)
    (make : Int → Bool → Nat → BitVec 64 → Option Record) (records : List Record) (pool : Bytes)
    (index : Nat) (entry : Atom × BitVec 64) (ordinal : Int) (record : Record) (offset : Nat) :
    Prop where
  place : records[index]? = some record
  library : libOrdinal writer (writer.atoms (aliasBase writer entry.1)) = some ordinal
  made : make ordinal (weakImport (writer.atoms (aliasBase writer entry.1))) (offset % 2 ^ 32)
    entry.2 = some record
  inside : offset < pool.length
  name : (readString (pool.drop offset)).map Prod.fst =
    some (writer.atoms (aliasBase writer entry.1)).name.chars

variable {targets : List (Atom × BitVec 64)}

theorem import_entries_at {Record : Type} {make : Int → Bool → Nat → BitVec 64 → Option Record} :
    ∀ {start pool : Bytes} {records : List Record},
      importEntries writer make targets start = some (records, pool) →
      pool.length + 1 = start.length + poolSize writer targets ∧ (∃ tail, pool = start ++ tail) ∧
        ∀ index entry, targets[index]? = some entry →
          ∃ ordinal record offset,
            ImportAt writer make records pool index entry ordinal record offset := by
  induction targets with
  | nil =>
    intro start pool records ran
    cases ran
    exact ⟨rfl, ⟨[], (append_nil _).symm⟩, fun index entry place => nomatch place⟩
  | cons first rest ih =>
    obtain ⟨atom, addend⟩ := first
    intro start pool records ran
    obtain ⟨need, needed, ran⟩ := bind_eq_some_iff.mp ran
    obtain ⟨-, isBind, ran⟩ := bind_eq_some_iff.mp ran
    obtain ⟨ordinal, library, ran⟩ := bind_eq_some_iff.mp ran
    obtain ⟨record, made, ran⟩ := bind_eq_some_iff.mp ran
    obtain ⟨⟨later, final⟩, laterRan, ran⟩ := bind_eq_some_iff.mp ran
    cases ran
    rw [needs_bind_target needed] at library made laterRan
    obtain ⟨length, ⟨tail, split⟩, entries⟩ := ih laterRan
    rw [append_assoc, append_assoc] at split
    refine ⟨?_, ⟨_, split⟩, ?_⟩
    · simp only [poolSize, length_append, length_singleton, map_cons, sum_cons] at length ⊢
      omega
    intro index entry place
    cases index with
    | succ index =>
      obtain ⟨otherOrdinal, otherRecord, offset, found⟩ := entries index entry place
      exact ⟨otherOrdinal, otherRecord, offset, found.place, found.library, found.made,
        found.inside, found.name⟩
    | zero =>
      cases place
      refine ⟨ordinal, record, start.length, rfl, library, made, ?_, ?_⟩
      · rw [split]
        simp
      · rw [split, drop_left, singleton_append,
          read_string_written (writer.atoms (aliasBase writer atom)).name.noNul]
        rfl

variable {ordinal : Int}

theorem narrow_ordinal_back (lower : -3 ≤ ordinal) (upper : ordinal ≤ 240) :
    readLibOrdinal (BitVec.ofInt 8 ordinal) = ordinal := by
  rw [readLibOrdinal, BitVec.toNat_ofInt, BitVec.toInt_ofInt, Int.bmod_def]
  split
  · split <;> omega
  · omega

theorem wide_ordinal_back (lower : -3 ≤ ordinal) :
    readLibOrdinal (BitVec.ofInt 16 ordinal) = ordinal ↔ ordinal ≤ 0xFFF0 := by
  rw [readLibOrdinal, BitVec.toNat_ofInt, BitVec.toInt_ofInt, Int.bmod_def]
  split
  · split <;> omega
  · omega

def HasColumn (writer : Writer Atom) (binds : ChainedFixupBinds Atom) : Prop :=
  binds.hasHugeSymbolStrings writer = true ∨ 240 < writer.maxLibOrdinal ∨ binds.Flagged

structure ReadBack (writer : Writer Atom) (binds : ChainedFixupBinds Atom) (view : ImportView)
    (entry : Atom × BitVec 64) (ordinal : Int) : Prop where
  library : libOrdinal writer (writer.atoms (aliasBase writer entry.1)) = some ordinal
  same : view.libOrdinal = ordinal ↔ ordinal ≤ 0xFFF0
  weak : view.weakImport = weakImport (writer.atoms (aliasBase writer entry.1))
  name : view.name = (writer.atoms (aliasBase writer entry.1)).name.chars
  kept : HasColumn writer binds → view.addend = entry.2
  lost : ¬ HasColumn writer binds → view.addend = 0

theorem name_offset_back {offset limit : Nat} {pool : Bytes} (inside : offset < pool.length)
    (small : pool.length ≤ 2 ^ 32)
    (stored : (BitVec.ofNat limit (offset % 2 ^ 32)).toNat = offset % 2 ^ 32) :
    (BitVec.ofNat limit (offset % 2 ^ 32)).toNat = offset := by
  rw [stored, mod_eq_of_lt (lt_of_lt_of_le inside small)]

variable {entry : Atom × BitVec 64}

theorem import_found {Record : Type} {make : Int → Bool → Nat → BitVec 64 → Option Record}
    {records : List Record} {pool : Bytes} (wellFormed : writer.WellFormed)
    (small : poolSize writer targets ≤ 2 ^ 32)
    (ran : importEntries writer make targets [0] = some (records, pool))
    (place : targets[index]? = some entry) :
    ∃ ordinal record offset, ImportAt writer make records pool index entry ordinal record offset ∧
      (-3 ≤ ordinal ∧ ordinal ≤ writer.maxLibOrdinal) ∧ pool.length ≤ 2 ^ 32 := by
  obtain ⟨length, -, entries⟩ := import_entries_at ran
  obtain ⟨ordinal, record, offset, found⟩ := entries index entry place
  have library := found.library
  refine ⟨ordinal, record, offset, found, ?_, by rw [length_singleton] at length; omega⟩
  unfold libOrdinal at library
  split at library
  · cases library
    unfold dylibWeakLookup
    omega
  rcases compressed_ordinal_cases library with special | ⟨dylib, file, -, found⟩
  · omega
  · have range := wellFormed.ordinals _ dylib ordinal file found
    omega

theorem encode_reads_back (wellFormed : writer.WellFormed)
    (small : poolSize writer binds.bindsTargets ≤ 2 ^ 32)
    (encoded : encode writer binds = some info) (place : binds.bindsTargets[index]? = some entry) :
    ∃ view ordinal, info.readImport index = some view ∧
      ReadBack writer binds view entry ordinal := by
  unfold encode at encoded
  split at encoded
  next wide =>
    have column : HasColumn writer binds := wide.imp id (Or.imp id Or.inr)
    obtain ⟨⟨records, pool⟩, ran, rfl⟩ := map_eq_some_iff.mp encoded
    obtain ⟨ordinal, record, offset, found, range, poolSmall⟩ :=
      import_found wellFormed small ran place
    have back := @name_offset_back offset 32 pool found.inside poolSmall
      (by rw [BitVec.toNat_ofNat, mod_mod])
    have name := found.name
    cases found.made
    refine ⟨⟨readLibOrdinal (BitVec.ofInt 16 ordinal), _, _, entry.2⟩, ordinal, ?_,
      found.library, wide_ordinal_back range.1, rfl, rfl, fun _ => rfl,
      fun none => absurd column none⟩
    simp only [ChainedInfo.readImport, ChainedInfo.readName, found.place, bind_eq_bind,
      bind_some, back, name]
    rfl
  next notWide =>
    rw [not_or, not_or] at notWide
    obtain ⟨strings, dylibs, notHuge⟩ := notWide
    split at encoded
    next large =>
      have column : HasColumn writer binds := Or.inr (Or.inr (Or.inl large))
      obtain ⟨⟨records, pool⟩, ran, rfl⟩ := map_eq_some_iff.mp encoded
      obtain ⟨ordinal, record, offset, found, range, poolSmall⟩ :=
        import_found wellFormed small ran place
      have made := found.made
      unfold makeImportAddend at made
      split at made
      next stored =>
        cases made
        have back := name_offset_back found.inside poolSmall stored.2
        have few : ordinal ≤ 240 := by omega
        refine ⟨⟨readLibOrdinal (BitVec.ofInt 8 ordinal), _, _, _⟩, ordinal, ?_, found.library,
          iff_of_true (narrow_ordinal_back range.1 few) (by omega), rfl, rfl, fun _ => stored.1,
          fun none => absurd column none⟩
        simp only [ChainedInfo.readImport, ChainedInfo.readName, found.place, bind_eq_bind,
          bind_some, back, found.name]
        rfl
      · cases made
    next notLarge =>
      have column : ¬ HasColumn writer binds := by
        rintro (huge | many | flag | flag)
        · exact strings huge
        · exact dylibs many
        · exact notLarge flag
        · exact notHuge flag
      obtain ⟨⟨records, pool⟩, ran, rfl⟩ := map_eq_some_iff.mp encoded
      obtain ⟨ordinal, record, offset, found, range, poolSmall⟩ :=
        import_found wellFormed small ran place
      have made := found.made
      unfold makeImport at made
      split at made
      next stored =>
        cases made
        have back := name_offset_back found.inside poolSmall stored
        have few : ordinal ≤ 240 := by omega
        refine ⟨⟨readLibOrdinal (BitVec.ofInt 8 ordinal), _, _, 0⟩, ordinal, ?_, found.library,
          iff_of_true (narrow_ordinal_back range.1 few) (by omega), rfl, rfl,
          fun kept => absurd kept column, fun _ => rfl⟩
        simp only [ChainedInfo.readImport, ChainedInfo.readName, found.place, bind_eq_bind,
          bind_some, back, found.name]
        rfl
      · cases made

end Reading

section Faithful

variable {Atom : Type} {writer : Writer Atom} {binds : ChainedFixupBinds Atom} {info : ChainedInfo}
  {fixups : List (PointerFixup Atom)} {fixup : PointerFixup Atom} {pointer : ChainedPointer}
  {need : Need Atom}

section

variable (wellFormed : writer.WellFormed) (bound : fixup.Bound writer)

include wellFormed bound

theorem bind_addend_same_iff :
    bindAddend writer (writer.atoms (aliasBase writer fixup.target)) (fixup.accumulator writer) =
        fixup.addend ↔
      ((writer.atoms fixup.target).isThumb = true → fixup.addend.toNat % 2 = 0) := by
  have value := bind_addend_eq wellFormed bound
  rw [← BitVec.toNat_inj, value]
  cases (writer.atoms fixup.target).isThumb with
  | false => simp
  | true =>
    simp only [if_true, true_imp_iff, BitVec.toNat_add, BitVec.toNat_ofNat]
    omega

theorem addend_kept_iff {kept : BitVec 64} {column : Prop}
    (needed : needsBind writer fixup.target fixup.store.authPtr (fixup.accumulator writer) =
      some need) (whole : column → kept = need.accumulator) (lost : ¬ column → kept = 0) :
    kept + need.inlineAddend = fixup.addend ↔
      ((writer.atoms fixup.target).isThumb = true → fixup.addend.toNat % 2 = 0) ∧
        (column ∨ need.accumulator = 0) := by
  have splits := needs_bind_splits bound needed
  have same := bind_addend_same_iff wellFormed bound
  by_cases there : column
  · rw [whole there, splits.whole, same]
    simp [there]
  rw [lost there]
  by_cases nothing : need.accumulator = 0
  · have sum := splits.whole
    rw [nothing] at sum
    rw [sum, same]
    simp [nothing]
  have outside : need.inlineAddend = 0 := by
    rcases needs_bind_accumulator bound needed with outside | inside
    · exact outside.1
    · exact absurd inside.1 nothing
  have sum := splits.whole
  rw [outside] at sum ⊢
  refine iff_of_false ?_ fun both => both.2.elim there nothing
  intro zero
  have kept := same.mpr fun _ => by
    rw [← zero]
    rfl
  rw [kept, ← zero] at sum
  exact nothing (by simpa using sum)

end

theorem targets_length_le (writer : Writer Atom) (targets : List (Atom × BitVec 64)) :
    targets.length ≤ poolSize writer targets := by
  have sum := length_le_sum_of_one_le (targets.map fun entry =>
    (writer.atoms (aliasBase writer entry.1)).name.chars.length + 1) (by
      intro size member
      obtain ⟨entry, -, rfl⟩ := List.mem_map.mp member
      exact le_add_left 1 _)
  rw [length_map] at sum
  exact sum.trans (le_add_left _ 1)

theorem recovers_iff [DecidableEq Atom] (wellFormed : writer.WellFormed)
    (small : poolSize writer binds.bindsTargets ≤ 2 ^ 32) (listed : Listed writer fixups binds)
    (encoded : encode writer binds = some info) (bound : fixup.Bound writer)
    (stored : StoredBind writer binds fixup pointer need ordinal) :
    Recovers writer info fixup pointer ↔
      ((writer.atoms fixup.target).isThumb = true → fixup.addend.toNat % 2 = 0) ∧
      (∀ library, libOrdinal writer (writer.atoms (importedAtom writer fixup.target)) =
        some library → library ≤ 0xFFF0) ∧
      (HasColumn writer binds ∨ need.accumulator = 0) := by
  have few := (targets_length_le writer binds.bindsTargets).trans small
  have place := ordinal_place listed few stored.found
  obtain ⟨view, library, read, back⟩ := encode_reads_back wellFormed small encoded place
  have base := needs_bind_target stored.needed
  have addends := addend_kept_iff wellFormed bound stored.needed back.kept back.lost
  have named := back.name
  have found := back.library
  have weak := back.weak
  rw [base] at named found weak
  constructor
  · rintro ⟨otherOrdinal, inlineAddend, other, holds, otherRead, -, otherLibrary, -, sum⟩
    cases stored.holds.symm.trans holds
    cases read.symm.trans otherRead
    have kept := addends.mp sum
    refine ⟨kept.1, ?_, kept.2⟩
    intro given givenLibrary
    have same : library = given := Option.some.inj (found.symm.trans givenLibrary)
    have viewed : library = view.libOrdinal := Option.some.inj (found.symm.trans otherLibrary)
    rw [← same]
    exact back.same.mp viewed.symm
  · rintro ⟨even, fits, column⟩
    have exact := back.same.mpr (fits library found)
    exact ⟨ordinal, need.inlineAddend, view, stored.holds, read, named, by rw [exact]; exact found,
      weak, addends.mpr ⟨even, column⟩⟩

theorem narrow_addend (wellFormed : writer.WellFormed)
    (narrow : writer.chainedPointerFormat = .ptr32) (plain : fixup.store.authPtr = false)
    (bound : fixup.Bound writer)
    (even : (writer.atoms fixup.target).isThumb = true → fixup.addend.toNat % 2 = 0)
    (needed : needsBind writer fixup.target fixup.store.authPtr (fixup.accumulator writer) =
      some need) : (63 < fixup.addend.toNat ∧ need.accumulator = fixup.addend) ∨
      (fixup.addend.toNat ≤ 63 ∧ need.accumulator = 0) := by
  have splits := needs_bind_splits bound needed
  have whole := splits.whole
  rw [(bind_addend_same_iff wellFormed bound).mpr even] at whole
  rcases needs_bind_accumulator bound needed with ⟨nothing, outside⟩ | ⟨nothing, -, inside⟩
  · left
    have all : need.accumulator = fixup.addend := by
      rw [← whole, nothing]
      exact (BitVec.add_zero _).symm
    rcases outside with auth | outside
    · rw [plain] at auth
      cases auth
    rw [narrow, all] at outside
    simp only [chainedFixupBindAddendFitsInline, Option.some.injEq,
      decide_eq_false_iff_not] at outside
    exact ⟨Nat.lt_of_not_le outside, all⟩
  · right
    have all : need.inlineAddend = fixup.addend := by
      rw [← whole, nothing]
      exact (BitVec.zero_add _).symm
    rw [narrow, all] at inside
    simp only [chainedFixupBindAddendFitsInline, Option.some.injEq, decide_eq_true_eq] at inside
    exact ⟨inside, nothing⟩

variable (writer fixups) in
/-- Addends of 64 to 255 are asked for in 32-bit pointers and nothing else gives
the imports table its column for addends. -/
structure DropsAddends [DecidableEq Atom] : Prop where
  narrow : writer.chainedPointerFormat = .ptr32
  dylibs : writer.maxLibOrdinal ≤ 240
  strings : ∀ binds, buildTargets writer fixups = some binds →
    binds.hasHugeSymbolStrings writer = false
  asked : ∃ fixup ∈ fixups, fixup.Bound writer ∧ 63 < fixup.addend.toNat
  small : ∀ fixup ∈ fixups, fixup.Bound writer → fixup.addend.toNat ≤ 255

variable (writer fixups) in
structure Recoverable [DecidableEq Atom] : Prop where
  thumb : ∀ fixup ∈ fixups, fixup.Bound writer → (writer.atoms fixup.target).isThumb = true →
    fixup.addend.toNat % 2 = 0
  dylibs : ∀ fixup ∈ fixups, fixup.Bound writer → ∀ library,
    libOrdinal writer (writer.atoms (importedAtom writer fixup.target)) = some library →
      library ≤ 0xFFF0
  column : ¬ DropsAddends writer fixups

variable [DecidableEq Atom]

structure Linked (writer : Writer Atom) (fixups : List (PointerFixup Atom)) (info : ChainedInfo)
    (pointers : List ChainedPointer) (binds : ChainedFixupBinds Atom) : Prop where
  built : buildTargets writer fixups = some binds
  encoded : encode writer binds = some info
  stored : List.Forall₂ (fun fixup pointer => setFixup writer binds fixup = some pointer)
    fixups pointers

variable {pointers : List ChainedPointer}

theorem stored_all (ran : fixups.mapM (setFixup writer binds) = some pointers) :
    Forall₂ (fun fixup pointer => setFixup writer binds fixup = some pointer)
      fixups pointers := by
  induction fixups generalizing pointers with
  | nil =>
    cases ran
    exact .nil
  | cons fixup rest ih =>
    rw [mapM_cons] at ran
    obtain ⟨first, stored, ran⟩ := bind_eq_some_iff.mp ran
    obtain ⟨later, laterRan, ran⟩ := bind_eq_some_iff.mp ran
    cases ran
    exact .cons stored (ih laterRan)

theorem link_some (ran : link writer fixups = some (info, pointers)) :
    ∃ binds, Linked writer fixups info pointers binds := by
  obtain ⟨binds, built, ran⟩ := bind_eq_some_iff.mp ran
  obtain ⟨encodedInfo, encoded, ran⟩ := bind_eq_some_iff.mp ran
  obtain ⟨all, stored, ran⟩ := bind_eq_some_iff.mp ran
  cases ran
  exact ⟨binds, built, encoded, stored_all stored⟩

theorem stored_member (linked : Linked writer fixups info pointers binds) (member : fixup ∈ fixups) :
    ∃ pointer, setFixup writer binds fixup = some pointer := by
  obtain ⟨index, small, rfl⟩ := getElem_of_mem member
  have other : index < pointers.length := linked.stored.length_eq ▸ small
  exact ⟨pointers[index], List.Forall₂.get linked.stored small other⟩

variable {ordinal : Nat}

section Links

variable (wellFormed : writer.WellFormed) (hasBinds : writer.chainedPointerFormat ≠ .ptr32Firmware)
  (small : poolSize writer binds.bindsTargets ≤ 2 ^ 32)
  (linked : Linked writer fixups info pointers binds)
include wellFormed hasBinds small linked

theorem drops_of_no_column
    (thumb : ∀ other ∈ fixups, other.Bound writer → (writer.atoms other.target).isThumb = true →
      other.addend.toNat % 2 = 0) (member : fixup ∈ fixups) (bound : fixup.Bound writer)
    (stored : StoredBind writer binds fixup pointer need ordinal)
    (noColumn : ¬ HasColumn writer binds) (nonzero : need.accumulator ≠ 0) :
    DropsAddends writer fixups := by
  have listed := build_targets_listed hasBinds linked.built
  have few := (targets_length_le writer binds.bindsTargets).trans small
  have place := ordinal_place listed few stored.found
  have narrow : writer.chainedPointerFormat = .ptr32 := by
    by_contra wide
    exact noColumn (Or.inr (Or.inr (listed.raised _ (mem_of_getElem? place) nonzero
      fun narrow => absurd narrow wide)))
  refine ⟨narrow, ?_, ?_, ⟨fixup, member, bound, ?_⟩, ?_⟩
  · exact Nat.le_of_not_lt fun many => noColumn (Or.inr (Or.inl many))
  · intro other built
    cases linked.built.symm.trans built
    exact Bool.eq_false_iff.mpr fun huge => noColumn (Or.inl huge)
  · rcases narrow_addend wellFormed narrow (stored.plain narrow) bound
      (thumb fixup member bound) stored.needed with outside | inside
    · exact outside.1
    · exact absurd inside.2 nonzero
  intro other otherMember otherBound
  by_contra large
  obtain ⟨otherPointer, otherSet⟩ := stored_member linked otherMember
  obtain ⟨otherNeed, otherOrdinal, otherStored⟩ := set_fixup_stores hasBinds otherBound otherSet
  have otherPlace := ordinal_place listed few otherStored.found
  rcases narrow_addend wellFormed narrow (otherStored.plain narrow) otherBound
    (thumb other otherMember otherBound) otherStored.needed with outside | inside
  · have beyond : 255 < otherNeed.accumulator.toNat := by
      rw [outside.2]
      omega
    have otherNonzero : otherNeed.accumulator ≠ 0 := by
      intro zero
      rw [zero] at beyond
      exact absurd beyond (by decide)
    exact noColumn (Or.inr (Or.inr (listed.raised _ (mem_of_getElem? otherPlace)
      otherNonzero fun _ => beyond)))
  · omega

theorem recoverable_keeps
    (recoverable : Recoverable writer fixups) (member : fixup ∈ fixups)
    (bound : fixup.Bound writer) (set : setFixup writer binds fixup = some pointer) :
    Recovers writer info fixup pointer := by
  obtain ⟨need, ordinal, stored⟩ := set_fixup_stores hasBinds bound set
  have listed := build_targets_listed hasBinds linked.built
  rw [recovers_iff wellFormed small listed linked.encoded bound stored]
  refine ⟨recoverable.thumb fixup member bound, recoverable.dylibs fixup member bound, ?_⟩
  by_contra neither
  rw [not_or] at neither
  exact recoverable.column (drops_of_no_column wellFormed hasBinds small linked recoverable.thumb
    member bound stored neither.1 neither.2)

theorem not_recovers_of_drops (drops : DropsAddends writer fixups)
    (thumb : ∀ other ∈ fixups, other.Bound writer → (writer.atoms other.target).isThumb = true →
      other.addend.toNat % 2 = 0) :
    ∃ fixup ∈ fixups, fixup.Bound writer ∧ ∀ pointer, setFixup writer binds fixup = some pointer →
      ¬ Recovers writer info fixup pointer := by
  have listed := build_targets_listed hasBinds linked.built
  have plain : ∀ other ∈ fixups, other.store.authPtr = false := by
    intro other member
    obtain ⟨otherPointer, set⟩ := stored_member linked member
    exact set_fixup_plain drops.narrow set
  have noColumn : ¬ HasColumn writer binds := by
    rintro (huge | many | flagged)
    · rw [drops.strings binds linked.built] at huge
      cases huge
    · exact absurd drops.dylibs (Nat.not_le_of_lt many)
    obtain ⟨entry, member, large⟩ := listed.reason plain flagged
    obtain ⟨other, otherMember, otherBound, need, needed, rfl⟩ := listed.origin entry member
    change 255 < need.accumulator.toNat at large
    have limit := drops.small other otherMember otherBound
    rcases narrow_addend wellFormed drops.narrow (plain other otherMember) otherBound
      (thumb other otherMember otherBound) needed with outside | inside
    · rw [outside.2] at large
      omega
    · rw [inside.2] at large
      exact absurd large (by decide)
  obtain ⟨fixup, member, bound, asked⟩ := drops.asked
  refine ⟨fixup, member, bound, ?_⟩
  intro pointer set
  obtain ⟨need, ordinal, stored⟩ := set_fixup_stores hasBinds bound set
  rw [recovers_iff wellFormed small listed linked.encoded bound stored]
  rintro ⟨even, -, column | nothing⟩
  · exact noColumn column
  rcases narrow_addend wellFormed drops.narrow (plain fixup member) bound even stored.needed with
    outside | inside
  · rw [← outside.2, nothing] at asked
    exact absurd asked (by decide)
  · omega

end Links

/-- Chained binds are recovered unless the link fails, exactly for pointers that
the code can take. -/
theorem chained_binds_recovered_iff (wellFormed : writer.WellFormed)
    (hasBinds : writer.chainedPointerFormat ≠ .ptr32Firmware)
    (small : ∀ binds, buildTargets writer fixups = some binds →
      poolSize writer binds.bindsTargets ≤ 2 ^ 32) :
    (∀ info pointers, link writer fixups = some (info, pointers) →
        List.Forall₂ (fun fixup pointer => fixup.Bound writer →
          Recovers writer info fixup pointer) fixups pointers) ↔
      ((link writer fixups).isSome → Recoverable writer fixups) := by
  constructor
  · intro recovered succeeds
    obtain ⟨⟨info, pointers⟩, ran⟩ := isSome_iff_exists.mp succeeds
    obtain ⟨binds, linked⟩ := link_some ran
    have listed := build_targets_listed hasBinds linked.built
    have poolSmall := small binds linked.built
    have each : ∀ fixup ∈ fixups, fixup.Bound writer → ∃ pointer,
        setFixup writer binds fixup = some pointer ∧ Recovers writer info fixup pointer := by
      intro fixup member bound
      obtain ⟨place, inside, rfl⟩ := getElem_of_mem member
      have other : place < pointers.length := linked.stored.length_eq ▸ inside
      exact ⟨pointers[place], List.Forall₂.get linked.stored inside other,
        List.Forall₂.get (recovered info pointers ran) inside other bound⟩
    have facts : ∀ fixup ∈ fixups, fixup.Bound writer →
        ((writer.atoms fixup.target).isThumb = true → fixup.addend.toNat % 2 = 0) ∧
        (∀ library, libOrdinal writer (writer.atoms (importedAtom writer fixup.target)) =
          some library → library ≤ 0xFFF0) := by
      intro fixup member bound
      obtain ⟨pointer, set, recovers⟩ := each fixup member bound
      obtain ⟨need, ordinal, stored⟩ := set_fixup_stores hasBinds bound set
      rw [recovers_iff wellFormed poolSmall listed linked.encoded bound stored] at recovers
      exact ⟨recovers.1, recovers.2.1⟩
    refine ⟨fun fixup member bound => (facts fixup member bound).1,
      fun fixup member bound => (facts fixup member bound).2, ?_⟩
    intro drops
    obtain ⟨fixup, member, bound, lost⟩ := not_recovers_of_drops wellFormed hasBinds poolSmall linked
      drops fun other otherMember otherBound => (facts other otherMember otherBound).1
    obtain ⟨pointer, set, recovers⟩ := each fixup member bound
    exact lost pointer set recovers
  · intro recoverable info pointers ran
    obtain ⟨binds, linked⟩ := link_some ran
    have poolSmall := small binds linked.built
    have good := recoverable (by rw [ran]; rfl)
    rw [forall₂_iff_get]
    refine ⟨linked.stored.length_eq, ?_⟩
    intro place inside other bound
    exact recoverable_keeps wellFormed hasBinds poolSmall linked good (List.get_mem _ _) bound
      (List.Forall₂.get linked.stored inside other)

end Faithful

section Example

def twoImports (format : PointerFormat) : Writer Bool where
  atoms second :=
    { name := ⟨[if second then 0x62 else 0x61], by cases second <;> decide⟩
      definition := .proxy
      scope := .global
      combine := .never
      isThumb := false
      finalAddress := 0
      isAlias := false
      followOns := []
      weakImported := second
      file := some ⟨false, true, some 1⟩ }
  chainedPointerFormat := format
  dyldOrKernelLoadsOutput := true
  isDynamicExecutable := true
  isKextBundle := false
  twoLevelNameSpace := true
  interposable _ := false
  forceCoalesce _ := false
  undefinedDynamicLookup := false
  sharedRegionEligible := false
  allowedUndefined _ := false
  machHeaderVmAddr := 0x100000000
  maxLibOrdinal := 1
  maxRebase := 0

theorem two_imports_well_formed (format : PointerFormat) : (twoImports format).WellFormed where
  proxy _ _ := ⟨rfl, rfl⟩
  aliased _ _ := rfl
  nested _ := rfl
  thumb _ thumb := nomatch thumb
  ordinals _ file ordinal found given := by
    cases found
    cases given
    exact ⟨by decide, Int.le_refl 1⟩

def inlineAndColumn : List (PointerFixup Bool) :=
  [⟨.littleEndian64, false, -16⟩, ⟨.auth64 ⟨7, true, 1⟩, true, 8⟩]

theorem inline_and_column_recovered :
    (twoImports .arm64e).WellFormed ∧ (link (twoImports .arm64e) inlineAndColumn).isSome ∧
      ∀ info pointers, link (twoImports .arm64e) inlineAndColumn = some (info, pointers) →
        List.Forall₂ (fun fixup pointer => fixup.Bound (twoImports .arm64e) →
          Recovers (twoImports .arm64e) info fixup pointer) inlineAndColumn pointers := by
  refine ⟨two_imports_well_formed _, by decide +kernel, ?_⟩
  apply (chained_binds_recovered_iff (two_imports_well_formed .arm64e) nofun ?_).mpr
  · intro _
    refine ⟨fun _ _ _ thumb => (nomatch thumb), ?_, fun drops => (nomatch drops.narrow)⟩
    intro fixup _ _ library given
    cases given
    decide
  · intro binds built
    cases built
    decide

/-- The addend 64 does not fit into the pointer and raises no flag. -/
theorem addend_64_dropped : (twoImports .ptr32).WellFormed ∧
      ∃ info pointer, link (twoImports .ptr32) [⟨.littleEndian32, false, 64⟩] =
          some (info, [pointer]) ∧
        ¬ Recovers (twoImports .ptr32) info ⟨.littleEndian32, false, 64⟩ pointer := by
  refine ⟨two_imports_well_formed _,
    ⟨.chainedImport [⟨1, false, 1⟩], [0, 0x61, 0]⟩, .bind32 0 0, by decide +kernel, ?_⟩
  rintro ⟨ordinal, inlineAddend, view, holds, read, -, -, -, sum⟩
  cases holds
  cases read
  exact absurd sum (by decide)

end Example

end DeveloperTools.Ld64.ChainedFixups
