import DeveloperTools.Ld64.ThreadedBinds

/-!
`encodeV2` starts a list with each segment and page, and `writeAtoms` links a
location to the next one when both are on one page. The two find the segment of
a location in loops of their own; here they are shown to agree.
-/

namespace DeveloperTools.Ld64.ThreadedBinds

open BindOpcodes
open List

def deltaMask : BitVec 64 := 0x3FF8000000000000

theorem field_clear {width shift : Nat} (field : BitVec width) (low : width + shift ≤ 51) :
    field.setWidth 64 <<< shift &&& deltaMask = 0#64 := by
  apply BitVec.eq_of_getLsbD_eq
  intro i _
  rw [BitVec.getLsbD_and, BitVec.getLsbD_zero, Bool.and_eq_false_iff]
  by_cases set : deltaMask.getLsbD i = true
  · have all : ∀ j : Fin 64, deltaMask.getLsbD j = true → 51 ≤ j.val := by decide
    have high : 51 ≤ i := all ⟨i, BitVec.lt_of_getLsbD set⟩ set
    left
    rw [BitVec.getLsbD_shiftLeft, BitVec.getLsbD_setWidth, BitVec.getLsbD_of_ge field _ (by omega)]
    simp
  · right
    exact Bool.not_eq_true _ ▸ set

theorem next_delta_or {value : BitVec 64} (clear : value &&& deltaMask = 0#64) {delta : Nat}
    (small : delta < 2 ^ 11) : nextDelta (value ||| BitVec.ofNat 64 delta <<< 51) = delta := by
  have mask : ~~~(1#64 <<< 62) &&& (0x3FF8000000000000 : BitVec 64) = deltaMask := by decide
  have shifted : deltaMask >>> 51 = 0x7FF#64 := by decide
  have back : (BitVec.ofNat 64 delta <<< 51) >>> 51 = BitVec.ofNat 64 delta := by
    apply BitVec.eq_of_toNat_eq
    rw [BitVec.toNat_ushiftRight, BitVec.toNat_shiftLeft, BitVec.toNat_ofNat,
      Nat.shiftLeft_eq, Nat.shiftRight_eq_div_pow]
    omega
  rw [nextDelta, BitVec.and_assoc, mask, BitVec.and_or_distrib_right, clear, BitVec.zero_or,
    BitVec.ushiftRight_and_distrib, back, shifted, BitVec.toNat_and, BitVec.toNat_ofNat]
  have value : delta % 2 ^ 64 = delta := by omega
  rw [value]
  exact Nat.and_two_pow_sub_one_of_lt_two_pow small

theorem auth_word_clear {auth : AuthFixup} {accumulator word : BitVec 64}
    (made : auth.word accumulator = some word) : word &&& deltaMask = 0#64 := by
  unfold AuthFixup.word at made
  split at made
  next low =>
    cases made
    have high : (0xFFFFFFFF00000000 : BitVec 64) &&& deltaMask = deltaMask := by decide
    have accumulated : accumulator &&& deltaMask = 0#64 := by
      rw [← high, ← BitVec.and_assoc, low]
      exact BitVec.zero_and
    have top : 1#64 <<< 63 &&& deltaMask = 0#64 := by decide
    rw [BitVec.and_or_distrib_right, BitVec.and_or_distrib_right, BitVec.and_or_distrib_right,
      BitVec.and_or_distrib_right, accumulated, top, field_clear auth.discriminator (by decide),
      field_clear (BitVec.ofBool auth.hasAddressDiversity) (by decide),
      field_clear auth.key (by decide)]
    decide
  · cases made

variable {auth : Option AuthFixup}

theorem rebase_word_clear {baseAddress value word : BitVec 64}
    (made : rebaseWord baseAddress auth value = some word) : word &&& deltaMask = 0#64 := by
  unfold rebaseWord at made
  split at made
  · split at made
    · exact auth_word_clear made
    · cases made
  dsimp only at made
  split at made
  · cases made
    have top : (0xFF00000000000000 : BitVec 64) >>> 13 &&& deltaMask = 0#64 := by decide
    have bottom : (0x000007FFFFFFFFFF : BitVec 64) &&& deltaMask = 0#64 := by decide
    rw [BitVec.and_or_distrib_right, BitVec.ushiftRight_and_distrib, BitVec.and_assoc, top,
      BitVec.and_assoc, bottom, BitVec.and_zero, BitVec.and_zero]
    decide
  · cases made

theorem bind_word_clear {Pointer : Type} {info : BindingInfo Pointer} {ordinal : Nat}
    {value word : BitVec 64} (small : ordinal < 2 ^ 16)
    (made : bindWord auth info ordinal value = some word) : word &&& deltaMask = 0#64 := by
  obtain ⟨content, contentMade, rfl⟩ := Option.map_eq_some_iff.mp made
  have contentClear : content &&& deltaMask = 0#64 := by
    unfold bindContent at contentMade
    split at contentMade
    · split at contentMade
      · exact auth_word_clear contentMade
      · cases contentMade
    · cases contentMade
      decide
  have bit : 1#64 <<< 62 &&& deltaMask = 0#64 := by decide
  have ordinalClear : BitVec.ofNat 64 ordinal &&& deltaMask = 0#64 := by
    have field := @field_clear 16 0 (BitVec.ofNat 16 ordinal) (by decide)
    rw [BitVec.shiftLeft_zero, BitVec.setWidth_ofNat_of_le_of_lt (by decide) small] at field
    exact field
  have masked : content &&& 0xFFFFFFFFFFFF0000#64 &&& deltaMask = 0#64 := by
    rw [BitVec.and_assoc, BitVec.and_comm _ deltaMask, ← BitVec.and_assoc, contentClear]
    exact BitVec.zero_and
  rw [BitVec.and_or_distrib_right, BitVec.and_or_distrib_right, bit, ordinalClear, masked]
  decide

def pageOf (sections : List FinalSection) (address : Nat) : Option (Nat × Nat) :=
  (findSegment sections address).map fun found => (found.index, (address - found.start) / 4096)

def chainStarts (sections : List FinalSection) : Option Nat → List Nat → List Nat
  | _, [] => []
  | previous, address :: rest =>
    (if previous.any fun before => pageOf sections before = pageOf sections address then []
      else [address]) ++ chainStarts sections (some address) rest

def startOps (sections : List FinalSection) (address : Nat) : List BindingTmp :=
  (findSegment sections address).elim [] fun found =>
    [{ opcode := .setSegmentAndOffsetUleb, operand1 := found.index,
       operand2 := address - found.start }, { opcode := .threadedApply, operand1 := 0 }]

variable {addresses : List Nat}

section Pages

variable {sections : List FinalSection}

def KnownRange (sections : List FinalSection) (found : FoundSegment) : Prop :=
  ∀ address, found.start ≤ address → address < found.finish →
    findSegment sections address = some found

variable {found : FoundSegment} {address : Nat}

theorem found_is_known (separate : Separate (segments sections))
    (ran : findSegment sections address = some found) : KnownRange sections found := by
  obtain ⟨place, -⟩ := find_segment_sound ran
  intro other lower upper
  exact find_segment_of_contains separate place ⟨lower, upper⟩

theorem refind_segment {current : FoundSegment} (known : KnownRange sections current)
    (ran : findSegment sections address = some found) :
    (if address < current.start ∨ current.finish ≤ address then findSegment sections address
      else some current) = some found := by
  split
  · exact ran
  next inside =>
    rw [← known address (by omega) (by omega), ran]

/-- The delta of `applyBind`. From an earlier segment the distance is wrapped
around: where the two page indexes meet nevertheless, the delta is too large. -/
theorem link_delta_eq {current next : Nat} {currentFound nextFound : FoundSegment}
    (separate : Separate (segments sections)) (less : current < next)
    (currentRan : findSegment sections current = some currentFound)
    (nextRan : findSegment sections next = some nextFound) :
    linkDelta nextFound.start current next =
      if pageOf sections current = pageOf sections next then (next - current) / 8 else 0 := by
  obtain ⟨place, lower, upper⟩ := find_segment_sound nextRan
  have finish := segments_finish _ (mem_of_getElem? place)
  dsimp only at finish
  have nextOffset : (next + 2 ^ 64 - nextFound.start) % 2 ^ 64 = next - nextFound.start := by
    omega
  have apart : (next + 2 ^ 64 - current) % 2 ^ 64 = next - current := by omega
  rw [linkDelta, nextOffset, apart, pageOf, pageOf, currentRan, nextRan]
  dsimp only [Option.map_some]
  by_cases together : nextFound.start ≤ current
  · have same := found_is_known separate nextRan current together (by omega)
    obtain rfl : nextFound = currentFound := Option.some.inj (same.symm.trans currentRan)
    have currentOffset :
        (current + 2 ^ 64 - nextFound.start) % 2 ^ 64 = current - nextFound.start := by omega
    rw [currentOffset]
    by_cases page : (current - nextFound.start) / 4096 = (next - nextFound.start) / 4096
    · have near : ¬ 2048 ≤ (next - current) / 8 := by omega
      simp [page, near]
    · simp [page]
  · have indexes : currentFound.index ≠ nextFound.index := by
      intro same
      obtain ⟨currentPlace, currentLower, -⟩ := find_segment_sound currentRan
      rw [same, place] at currentPlace
      have starts := (Segment.mk.inj (Option.some.inj currentPlace)).1
      exact together (starts ▸ currentLower)
    have currentOffset : (current + 2 ^ 64 - nextFound.start) % 2 ^ 64 =
        current + 2 ^ 64 - nextFound.start := by omega
    have pages : ¬ (some (currentFound.index, (current - currentFound.start) / 4096) =
        some (nextFound.index, (next - nextFound.start) / 4096)) := by
      intro same
      exact indexes (Prod.mk.inj (Option.some.inj same)).1
    split
    · rfl
    · apply if_pos
      omega

structure Tracks (sections : List FinalSection) (previous : Option Nat) (cursor : PageCursor) :
    Prop where
  known : KnownRange sections ⟨cursor.curSegStart, cursor.curSegEnd, cursor.curSegIndex⟩
  none : previous = none → cursor.curSegEnd = 0
  page : ∀ address, previous = some address →
    findSegment sections address = some ⟨cursor.curSegStart, cursor.curSegEnd, cursor.curSegIndex⟩ ∧
      cursor.prevPageIndex = (address - cursor.curSegStart) / 4096

theorem tracks_start : Tracks sections none {} where
  known _ _ upper := absurd upper (Nat.not_lt_zero _)
  none _ := rfl
  page _ impossible := nomatch impossible

section

variable {previous : Option Nat} {cursor : PageCursor} (tracks : Tracks sections previous cursor)

include tracks

theorem new_page_iff (ran : findSegment sections address = some found) :
    ((address < cursor.curSegStart ∨ cursor.curSegEnd ≤ address) ∨
        (address - found.start) / 4096 ≠ cursor.prevPageIndex) ↔
      ¬ (previous.any fun before => pageOf sections before = pageOf sections address) = true := by
  cases previous with
  | none =>
    have empty := tracks.none rfl
    simp [empty]
  | some before =>
    obtain ⟨beforeRan, page⟩ := tracks.page before rfl
    have refound := refind_segment tracks.known ran
    rw [Option.any_some, decide_eq_true_iff, pageOf, pageOf, ran, beforeRan, page]
    split at refound
    next outside =>
      refine iff_of_true (Or.inl outside) ?_
      intro same
      have indexes := (Prod.mk.inj (Option.some.inj same)).1
      obtain ⟨beforePlace, -⟩ := find_segment_sound beforeRan
      obtain ⟨place, lower, upper⟩ := find_segment_sound ran
      dsimp only at beforePlace indexes
      rw [indexes, place] at beforePlace
      have ends := Segment.mk.inj (Option.some.inj beforePlace)
      dsimp only at outside
      omega
    next inside =>
      cases refound
      simp [inside, eq_comm]

theorem page_cursor_step (separate : Separate (segments sections)) (aligned : address % 8 = 0)
    (ran : findSegment sections address = some found) : cursor.step sections address =
        some (⟨found.start, found.finish, found.index, (address - found.start) / 4096⟩,
          if previous.any fun before => pageOf sections before = pageOf sections address then []
          else startOps sections address) ∧
      Tracks sections (some address)
        ⟨found.start, found.finish, found.index, (address - found.start) / 4096⟩ := by
  constructor
  · have starts := new_page_iff tracks ran
    have refound := refind_segment tracks.known ran
    have whole : startOps sections address =
        [{ opcode := .setSegmentAndOffsetUleb, operand1 := found.index,
           operand2 := address - found.start }, { opcode := .threadedApply, operand1 := 0 }] := by
      rw [startOps, ran, Option.elim_some]
    rw [PageCursor.step, guard, if_pos aligned, whole]
    simp only [Option.pure_def, Option.bind_eq_bind, Option.bind_some, decide_eq_true_eq]
    split at refound
    next outside =>
      rw [if_pos outside, ran, Option.bind_some]
      simp only [starts, ite_not]
    rename_i inside
    cases refound
    rw [if_neg inside]
    simp only [starts, ite_not]
  · refine ⟨found_is_known separate ran, fun impossible => (nomatch impossible), ?_⟩
    intro other same
    cases same
    exact ⟨ran, rfl⟩

end

theorem page_starts_eq (separate : Separate (segments sections)) :
    ∀ {previous : Option Nat} {cursor : PageCursor}, Tracks sections previous cursor →
      (∀ address ∈ addresses, address % 8 = 0 ∧
        ∃ found, findSegment sections address = some found) →
      pageStarts sections addresses cursor =
        some ((chainStarts sections previous addresses).flatMap (startOps sections)) := by
  induction addresses with
  | nil =>
    intro previous cursor _ _
    rfl
  | cons address rest ih =>
    intro previous cursor tracks placed
    obtain ⟨aligned, found, ran⟩ := placed address mem_cons_self
    obtain ⟨stepped, next⟩ := page_cursor_step tracks separate aligned ran
    have later := ih next fun other member =>
      placed other (.tail _ member)
    rw [pageStarts, stepped, Option.bind_eq_bind, Option.bind_some]
    dsimp only
    rw [later, chainStarts, flatMap_append]
    split
    · rfl
    · simp

end Pages

def Linked (sections : List FinalSection) (words : Nat → BitVec 64) : List Nat → Prop
  | [] => True
  | [last] => nextDelta (words last) = 0
  | current :: next :: rest =>
    nextDelta (words current) =
        (if pageOf sections current = pageOf sections next then (next - current) / 8 else 0) ∧
      Linked sections words (next :: rest)

section Writing

variable {Pointer : Type} {sections : List FinalSection} {baseAddress : BitVec 64}
  {auth : Nat → Option AuthFixup}

def Fixup.Narrow : Fixup Pointer → Prop
  | .rebase _ => True
  | .bind _ threadedBindOrdinal => threadedBindOrdinal < 2 ^ 16

theorem link_delta_small (curSegStart current next : Nat) :
    linkDelta curSegStart current next < 2 ^ 11 := by
  unfold linkDelta
  dsimp only
  split
  · decide
  split
  · decide
  next small =>
    exact Nat.lt_of_not_le small

theorem apply_bind_links {curSegStart : Nat} {current next : Fixup Pointer}
    {words : Nat → BitVec 64} (narrow : current.Narrow)
    (fits : (current.word baseAddress auth (words current.address)).isSome) :
    ∃ written, applyBind baseAddress auth curSegStart current next words = some written ∧
      nextDelta (written current.address) = linkDelta curSegStart current.address next.address ∧
      ∀ address, address ≠ current.address → written address = words address := by
  obtain ⟨word, made⟩ := Option.isSome_iff_exists.mp fits
  refine ⟨_, by rw [applyBind, made]; rfl, ?_, ?_⟩
  · have clear : word &&& deltaMask = 0#64 := by
      cases current with
      | rebase info => exact rebase_word_clear made
      | bind info ordinal => exact bind_word_clear narrow made
    rw [Function.update_self]
    exact next_delta_or clear (link_delta_small _ _ _)
  · intro address other
    exact Function.update_of_ne other _ _

theorem link_delta_self (curSegStart address : Nat) : linkDelta curSegStart address address = 0 := by
  have whole : (address + 2 ^ 64 - address) % 2 ^ 64 = 0 := by omega
  simp only [linkDelta, whole]
  simp

/-- The loop of `writeAtoms` links the locations of each page. The induction
carries that the current segment is a known one or none. -/
theorem write_chain_links {fixups : List (Fixup Pointer)}
    (separate : Separate (segments sections)) :
    ∀ {current : FoundSegment} {words : Nat → BitVec 64}, KnownRange sections current →
      fixups.Pairwise (fun left right => left.address < right.address) →
      (∀ fixup ∈ fixups, fixup.Narrow ∧ (∃ found, findSegment sections fixup.address = some found) ∧
        (fixup.word baseAddress auth (words fixup.address)).isSome) →
      ∃ written,
        writeChain sections baseAddress auth fixups current.start current.finish words =
            some written ∧
          Linked sections written (fixups.map Fixup.address) ∧
          ∀ address, address ∉ fixups.map Fixup.address → written address = words address := by
  induction fixups with
  | nil =>
    intro current words _ _ _
    exact ⟨words, rfl, trivial, fun _ _ => rfl⟩
  | cons fixup rest ih =>
    intro current words known ordered all
    obtain ⟨narrow, ⟨fixupFound, fixupRan⟩, fits⟩ := all fixup mem_cons_self
    cases rest with
    | nil =>
      obtain ⟨written, ran, delta, others⟩ :=
        @apply_bind_links _ baseAddress auth current.start fixup fixup words narrow fits
      refine ⟨written, ran, ?_, ?_⟩
      · rw [link_delta_self] at delta
        exact delta
      intro address outside
      apply others
      rintro rfl
      exact outside mem_cons_self
    | cons next rest =>
      obtain ⟨-, ⟨found, ran⟩, -⟩ := all next (.tail _ mem_cons_self)
      obtain ⟨before, ordered⟩ := pairwise_cons.mp ordered
      obtain ⟨applied, appliedRan, delta, others⟩ :=
        @apply_bind_links _ baseAddress auth found.start fixup next words narrow fits
      have kept : ∀ later ∈ next :: rest, applied later.address = words later.address := by
        intro later member
        exact others _ (Nat.ne_of_gt (before later member))
      obtain ⟨written, writtenRan, linked, unchanged⟩ :=
        @ih found applied (found_is_known separate ran) ordered (by
          intro later member
          rw [kept later member]
          exact all later (.tail _ member))
      have notLater : fixup.address ∉ (next :: rest).map Fixup.address := by
        intro member
        obtain ⟨later, laterMember, same⟩ := List.mem_map.mp member
        exact Nat.ne_of_gt (before later laterMember) same
      refine ⟨written, ?_, ⟨?_, linked⟩, ?_⟩
      · have refound := refind_segment known ran
        rw [writeChain]
        split at refound
        next outside =>
          rw [if_pos outside, ran]
          simp only [Option.map_some, Option.bind_eq_bind, Option.bind_some, appliedRan, writtenRan]
        rename_i inside
        cases refound
        rw [if_neg inside]
        simp only [Option.bind_eq_bind, Option.bind_some, appliedRan, writtenRan]
      · rw [unchanged _ notLater, delta]
        exact link_delta_eq separate (before next mem_cons_self) fixupRan ran
      · intro address outside
        rw [map_cons, mem_cons, not_or] at outside
        rw [unchanged address outside.2, others address outside.1]

end Writing

section Following

variable {sections : List FinalSection} {words : Nat → BitVec 64}

/-- The lists cover the locations in order: `run` is the list the first
location is in, `visited` are the lists that start later. -/
theorem follow_from {rest : List Nat} : ∀ {address : Nat}, (address :: rest).Pairwise (· < ·) →
      (∀ other ∈ address :: rest, other % 8 = 0) → Linked sections words (address :: rest) →
      ∃ run visited,
        (∀ fuel, rest.length < fuel → followChain words fuel address = some run) ∧
        (∀ fuel, rest.length < fuel →
          Forall₂ (fun start chain => followChain words fuel start = some chain)
            (chainStarts sections (some address) rest) visited) ∧
        run ++ visited.flatten = address :: rest := by
  induction rest with
  | nil =>
    intro address _ _ linked
    refine ⟨[address], [], ?_, fun _ _ => .nil, rfl⟩
    intro fuel enough
    obtain ⟨less, rfl⟩ := Nat.exists_eq_add_of_lt enough
    simp only [followChain, if_pos (show nextDelta (words address) = 0 from linked)]
  | cons next rest ih =>
    intro address ordered aligned linked
    obtain ⟨before, laterOrdered⟩ := pairwise_cons.mp ordered
    have less := before next mem_cons_self
    have addressAligned := aligned address mem_cons_self
    have nextAligned := aligned next (.tail _ mem_cons_self)
    obtain ⟨run, visited, followed, others, whole⟩ :=
      ih laterOrdered (fun other member => aligned other (.tail _ member)) linked.2
    have delta := linked.1
    by_cases page : pageOf sections address = pageOf sections next
    · rw [if_pos page] at delta
      have moves : address + (next - address) / 8 * 8 = next := by omega
      refine ⟨address :: run, visited, ?_, ?_, by rw [cons_append, whole]⟩
      · intro fuel enough
        cases fuel with
        | zero => exact absurd enough (Nat.not_lt_zero _)
        | succ fuel =>
          have nonzero : (next - address) / 8 ≠ 0 := by omega
          rw [followChain]
          rw [delta, if_neg nonzero, moves, followed fuel (Nat.lt_of_succ_lt_succ enough)]
          rfl
      · intro fuel enough
        rw [chainStarts, Option.any_some, if_pos (decide_eq_true page), nil_append]
        exact others fuel (Nat.lt_of_succ_lt enough)
    · rw [if_neg page] at delta
      refine ⟨[address], run :: visited, ?_, ?_, ?_⟩
      · intro fuel enough
        cases fuel with
        | zero => exact absurd enough (Nat.not_lt_zero _)
        | succ fuel => simp only [followChain, if_pos delta]
      · intro fuel enough
        have fewer := Nat.lt_of_succ_lt enough
        rw [chainStarts, Option.any_some, if_neg (by simpa using page), singleton_append]
        exact .cons (followed fuel fewer) (others fuel fewer)
      · rw [flatten_cons, whole, singleton_append]

theorem chains_cover (ordered : addresses.Pairwise (· < ·))
    (aligned : ∀ address ∈ addresses, address % 8 = 0) (linked : Linked sections words addresses)
    {fuel : Nat} (enough : addresses.length ≤ fuel) :
    ∃ visited,
      Forall₂ (fun start chain => followChain words fuel start = some chain)
          (chainStarts sections none addresses) visited ∧
        visited.flatten = addresses := by
  cases addresses with
  | nil => exact ⟨[], .nil, rfl⟩
  | cons address rest =>
    obtain ⟨run, visited, followed, others, whole⟩ := follow_from ordered aligned linked
    exact ⟨run :: visited, .cons (followed fuel enough) (others fuel enough), whole⟩

end Following

end DeveloperTools.Ld64.ThreadedBinds
