import Mathlib.Algebra.Group.Int.Defs
import Mathlib.Algebra.Group.Nat.Defs
import Mathlib.Data.List.Find
import Mathlib.Data.List.Forall2
import Mathlib.Data.List.Pairwise
import Mathlib.Data.List.Perm.Subperm
import DeveloperTools.Lib.Walk

/-!
A 32-bit pointer reaches the next one of its page with five bits. Where that is
too far, words in between that are no pointers are made links of the chain: a
small value is kept in the 26 bits of the target, above every rebase target.
Words are found by their index in the page, and `none` stands for a failed
assertion.
-/

namespace DeveloperTools.Ld64.Chain32

open Walk
open List Option Function

def target26 (word : BitVec 32) : Nat := word.toNat % 2 ^ 26

def next5 (word : BitVec 32) : Nat := word.toNat / 2 ^ 26 % 2 ^ 5

def bindBit (word : BitVec 32) : Nat := word.toNat / 2 ^ 31

def pointer32 (bind next target : Nat) : BitVec 32 :=
  BitVec.ofNat 32 (bind % 2 * 2 ^ 31 + next % 2 ^ 5 * 2 ^ 26 + target % 2 ^ 26)

def setNext (word : BitVec 32) (next : Nat) : BitVec 32 :=
  pointer32 (bindBit word) next (target26 word)

abbrev Words := Nat → BitVec 32

def chainRange (maxRebase : Nat) : Int := (2 ^ 26 - maxRebase) / 2

def chainBias (maxRebase : Nat) : Nat := (0x04000000 + maxRebase) / 2

def chainable (maxRebase : Nat) (value : BitVec 32) : Bool :=
  value.toInt < chainRange maxRebase ∧ -chainRange maxRebase < value.toInt

section Writing

variable (stealPointersFixupChains : Bool) (maxRebase : Nat)

/-- The inner `none` is the null pointer. -/
def farthestChainableLocation (words : Words) (start : Nat) : Option (Option Nat) :=
  if maxRebase < 2 ^ 26 then
    some ((((List.range 31).reverse.map (· + 1)).find? fun i =>
      chainable maxRebase (words (start + i))).map (start + ·))
  else none

/-- The first loop of `chain32bitPointers`, which moves at least one word a
round. -/
def chainPossible (words : Words) (endZone : Nat) : Nat → Nat → Option Bool
  | 0, _ => none
  | fuel + 1, p =>
    if endZone ≤ p then some true
    else
      match farthestChainableLocation maxRebase words p with
      | none => none
      | some none => some false
      | some (some next) => chainPossible words endZone fuel next

def stolenLink (value : BitVec 32) (steps : Nat) : Option (BitVec 32) :=
  let link := pointer32 0 steps (value + BitVec.ofNat 32 (chainBias maxRebase)).toNat
  if next5 link = steps then some link else none

def stealLinks (endZone finalLoc : Nat) : Nat → Nat → Words → Option Words
  | 0, _, _ => none
  | fuel + 1, curLoc, words =>
    if curLoc < endZone then do
      let next ← (farthestChainableLocation maxRebase words curLoc).join
      let link ← stolenLink maxRebase (words curLoc) (next - curLoc)
      stealLinks endZone finalLoc fuel next (Function.update words curLoc link)
    else do
      let link ← stolenLink maxRebase (words curLoc) (finalLoc - curLoc)
      some (Function.update words curLoc link)

/-- The new words and the starts that are added to `chainOverflows`. -/
def chain32bitPointers (words : Words) (prevLoc finalLoc : Nat) : Option (Words × List Nat) :=
  if (finalLoc - prevLoc) * 4 < 127 then
    some (Function.update words prevLoc (setNext (words prevLoc) (finalLoc - prevLoc)), [])
  else if stealPointersFixupChains then do
    let endZone := finalLoc - 31
    if ← chainPossible maxRebase words endZone (finalLoc - prevLoc) prevLoc then
      let curLoc ← (farthestChainableLocation maxRebase words prevLoc).join
      -- the start location is a real pointer, so just its link is set
      let linked := Function.update words prevLoc (setNext (words prevLoc) (curLoc - prevLoc))
      let written ← stealLinks maxRebase endZone finalLoc (finalLoc - prevLoc) curLoc linked
      some (written, [])
    else some (words, [finalLoc])
  else some (words, [finalLoc])

/-- The loop of `writeAtoms` over the fixups of a page. -/
def chainPage : List Nat → Words → Option (Words × List Nat)
  | prevLoc :: loc :: rest, words => do
    let (linked, starts) ← chain32bitPointers stealPointersFixupChains maxRebase words prevLoc loc
    let (written, laterStarts) ← chainPage (loc :: rest) linked
    some (written, starts ++ laterStarts)
  | _, words => some (words, [])

end Writing

def nextLocation (words : Words) (location : Nat) : Option Nat :=
  if next5 (words location) = 0 then none else some (location + next5 (words location))

def decodeStolen (maxRebase : Nat) (word : BitVec 32) : Option (BitVec 32) :=
  if bindBit word = 0 ∧ maxRebase < target26 word then
    some (BitVec.ofInt 32 (target26 word - chainBias maxRebase))
  else none

section Fields

variable (bind next target : Nat) (word : BitVec 32)

@[simp] theorem target_pointer32 : target26 (pointer32 bind next target) = target % 2 ^ 26 := by
  rw [target26, pointer32, BitVec.toNat_ofNat]
  omega

@[simp] theorem next_pointer32 : next5 (pointer32 bind next target) = next % 2 ^ 5 := by
  rw [next5, pointer32, BitVec.toNat_ofNat]
  omega

@[simp] theorem bind_pointer32 : bindBit (pointer32 bind next target) = bind % 2 := by
  rw [bindBit, pointer32, BitVec.toNat_ofNat]
  omega

theorem bind_bit_mod : bindBit word % 2 = bindBit word := by
  rw [bindBit]
  omega

variable {maxRebase : Nat}

theorem decode_stolen_link {steps : Nat} {value link : BitVec 32} (small : maxRebase < 2 ^ 26)
    (chains : chainable maxRebase value = true)
    (made : stolenLink maxRebase value steps = some link) :
    next5 link = steps ∧ decodeStolen maxRebase link = some value := by
  unfold stolenLink at made
  dsimp only at made
  split at made
  next reached =>
    cases made
    refine ⟨reached, ?_⟩
    rw [chainable, decide_eq_true_iff, chainRange] at chains
    have signed := BitVec.toInt_eq_toNat_cond value
    have sum : (value + BitVec.ofNat 32 (chainBias maxRebase)).toNat =
        (value.toNat + chainBias maxRebase) % 2 ^ 32 := by
      rw [BitVec.toNat_add, BitVec.toNat_ofNat, Nat.add_mod_mod]
    have kept : ((value.toNat + chainBias maxRebase) % 2 ^ 32 : Nat) =
        value.toInt + chainBias maxRebase ∧ maxRebase < (value.toNat + chainBias maxRebase) % 2 ^ 32 ∧
        (value.toNat + chainBias maxRebase) % 2 ^ 32 < 2 ^ 26 := by
      rw [chainBias]
      split at signed <;> omega
    rw [decodeStolen, target_pointer32, bind_pointer32, sum, Nat.mod_eq_of_lt kept.2.2,
      if_pos ⟨rfl, kept.2.1⟩, kept.1, Int.add_sub_cancel, BitVec.ofInt_toInt]
  · cases made

theorem stolen_link_made {steps : Nat} (near : steps < 2 ^ 5) :
    ∃ link, stolenLink maxRebase word steps = some link := by
  simp only [stolenLink, next_pointer32, Nat.mod_eq_of_lt near, if_true]
  exact ⟨_, rfl⟩

end Fields

section Pairs

variable {maxRebase : Nat} {words : Words} {start : Nat}

theorem farthest_found {location : Nat}
    (found : farthestChainableLocation maxRebase words start = some (some location)) :
    start < location ∧ location ≤ start + 31 ∧ chainable maxRebase (words location) = true := by
  unfold farthestChainableLocation at found
  split at found
  · obtain ⟨i, ran, rfl⟩ := map_eq_some_iff.mp (Option.some.inj found)
    have chains := find?_some ran
    obtain ⟨j, small, rfl⟩ := List.mem_map.mp (mem_of_find?_eq_some ran)
    rw [mem_reverse, mem_range] at small
    exact ⟨by omega, by omega, chains⟩
  · cases found

variable {original : Words}

theorem farthest_congr (same : ∀ location, start < location → words location = original location) :
    farthestChainableLocation maxRebase words start =
      farthestChainableLocation maxRebase original start := by
  have tested : ∀ i ∈ (range 31).reverse.map (· + 1),
      chainable maxRebase (words (start + i)) = chainable maxRebase (original (start + i)) := by
    intro i member
    obtain ⟨j, -, rfl⟩ := List.mem_map.mp member
    rw [same _ (by omega)]
  unfold farthestChainableLocation
  rw [find?_congr tested]

structure StolenFrom (maxRebase : Nat) (words written : Words) (location finalLoc : Nat)
    (hops : List Nat) : Prop where
  path : Path (nextLocation written) location hops finalLoc
  increasing : (location :: hops ++ [finalLoc]).Pairwise (· < ·)
  decodes : ∀ hop ∈ location :: hops, decodeStolen maxRebase (written hop) = some (words hop)
  frame : ∀ other, other ∉ location :: hops → written other = words other

theorem next_location_of_link {location next : Nat} (after : location < next)
    (link : next5 (words location) = next - location) :
    nextLocation words location = some next := by
  rw [nextLocation, link, if_neg (by omega), Nat.add_sub_cancel' (Nat.le_of_lt after)]

theorem chain_possible_step {endZone fuel location : Nat} (far : location < endZone)
    (possible : chainPossible maxRebase words endZone (fuel + 1) location = some true) :
    ∃ next, farthestChainableLocation maxRebase words location = some (some next) ∧
      chainPossible maxRebase words endZone fuel next = some true := by
  rw [chainPossible, if_neg (Nat.not_le_of_lt far)] at possible
  split at possible
  · cases possible
  · cases possible
  next next found =>
    exact ⟨next, found, possible⟩

theorem steal_links {endZone finalLoc : Nat} (small : maxRebase < 2 ^ 26)
    (zone : finalLoc = endZone + 31) : ∀ {fuel curLoc : Nat} {words : Words}, curLoc < finalLoc →
      (∀ location, curLoc ≤ location → words location = original location) →
      chainable maxRebase (original curLoc) = true →
      chainPossible maxRebase original endZone fuel curLoc = some true →
      ∃ hops written, stealLinks maxRebase endZone finalLoc fuel curLoc words = some written ∧
        StolenFrom maxRebase words written curLoc finalLoc hops := by
  intro fuel
  induction fuel with
  | zero =>
    intro curLoc words _ _ _ possible
    cases possible
  | succ fuel ih =>
    intro curLoc words before same chains possible
    have value := same curLoc (Nat.le_refl _)
    rw [← value] at chains
    by_cases close : endZone ≤ curLoc
    · -- the last link reaches the next pointer
      obtain ⟨link, made⟩ := @stolen_link_made (words curLoc) maxRebase (finalLoc - curLoc) (by omega)
      obtain ⟨steps, decodes⟩ := decode_stolen_link small chains made
      refine ⟨[], Function.update words curLoc link, ?_, ?_, ?_, ?_, ?_⟩
      · rw [stealLinks, if_neg (Nat.not_lt_of_le close), made, bind_eq_bind, bind_some]
      · apply next_location_of_link before
        rw [update_self]
        exact steps
      · simpa using before
      · intro hop member
        rw [mem_singleton.mp member, update_self]
        exact decodes
      · intro other outside
        exact update_of_ne (fun equal => outside (mem_singleton.mpr equal)) _ _
    · have far := Nat.lt_of_not_le close
      obtain ⟨next, found, possible⟩ := chain_possible_step far possible
      obtain ⟨after, reach, nextChains⟩ := farthest_found found
      obtain ⟨link, made⟩ := @stolen_link_made (words curLoc) maxRebase (next - curLoc) (by omega)
      obtain ⟨steps, decodes⟩ := decode_stolen_link small chains made
      have kept : ∀ location, next ≤ location →
          Function.update words curLoc link location = original location := by
        intro location later
        rw [update_of_ne (by omega)]
        exact same location (by omega)
      obtain ⟨hops, written, ran, stolen⟩ :=
        ih (by omega : next < finalLoc) kept nextChains possible
      have increasing := pairwise_cons_cons_iff_of_trans.mpr ⟨after, stolen.increasing⟩
      have ahead : ∀ hop ∈ next :: hops, curLoc < hop := fun hop member =>
        (pairwise_cons.mp increasing).1 hop (mem_append_left _ member)
      have here : written curLoc = link := by
        rw [stolen.frame curLoc (fun member => Nat.lt_irrefl _ (ahead curLoc member)), update_self]
      refine ⟨next :: hops, written, ?_, ⟨?_, stolen.path⟩, ?_, ?_, ?_⟩
      · rw [← ran]
        have looked : farthestChainableLocation maxRebase words curLoc = some (some next) := by
          rw [← found]
          exact farthest_congr fun location later => same location (Nat.le_of_lt later)
        rw [stealLinks, if_pos far, looked, join_some, bind_eq_bind, bind_some, made,
          bind_eq_bind, bind_some]
      · apply next_location_of_link after
        rw [here]
        exact steps
      · exact increasing
      · intro hop member
        rcases mem_cons.mp member with rfl | later
        · rw [here]
          exact decodes
        · rw [stolen.decodes hop later, update_of_ne (Nat.ne_of_gt (ahead hop later))]
      · intro other outside
        rw [mem_cons, not_or] at outside
        rw [stolen.frame other outside.2, update_of_ne outside.1]

theorem chain_possible_total (small : maxRebase < 2 ^ 26) (words : Words) {endZone : Nat} :
    ∀ {fuel location : Nat}, 0 < fuel → endZone < location + fuel →
      ∃ possible, chainPossible maxRebase words endZone fuel location = some possible := by
  intro fuel
  induction fuel with
  | zero =>
    intro location positive
    exact absurd positive (Nat.lt_irrefl 0)
  | succ fuel ih =>
    intro location _ enough
    rw [chainPossible]
    split
    · exact ⟨true, rfl⟩
    have ⟨found, ran⟩ : ∃ found, farthestChainableLocation maxRebase words location = some found :=
      ⟨_, if_pos small⟩
    cases found with
    | none =>
      rw [ran]
      exact ⟨false, rfl⟩
    | some next =>
      rw [ran]
      have later := (farthest_found ran).1
      exact ih (by omega) (by omega)

theorem chain_possible_more {endZone : Nat} : ∀ {fuel location : Nat},
      chainPossible maxRebase words endZone fuel location = some true →
      chainPossible maxRebase words endZone (fuel + 1) location = some true := by
  intro fuel
  induction fuel with
  | zero =>
    intro location possible
    cases possible
  | succ fuel ih =>
    intro location possible
    by_cases far : location < endZone
    · obtain ⟨next, found, later⟩ := chain_possible_step far possible
      rw [chainPossible, if_neg (Nat.not_le_of_lt far), found]
      exact ih later
    · rw [chainPossible, if_pos (Nat.le_of_not_lt far)]

structure PairLinked (maxRebase : Nat) (words written : Words) (prevLoc finalLoc : Nat)
    (hops : List Nat) : Prop where
  path : Path (nextLocation written) prevLoc hops finalLoc
  increasing : (prevLoc :: hops ++ [finalLoc]).Pairwise (· < ·)
  start : ∃ steps, written prevLoc = setNext (words prevLoc) steps
  decodes : ∀ hop ∈ hops, decodeStolen maxRebase (written hop) = some (words hop)
  frame : ∀ other, other ∉ prevLoc :: hops → written other = words other

theorem near_pair_linked {prevLoc finalLoc : Nat} (before : prevLoc < finalLoc)
    (near : finalLoc - prevLoc < 2 ^ 5) : PairLinked maxRebase words
      (Function.update words prevLoc (setNext (words prevLoc) (finalLoc - prevLoc)))
      prevLoc finalLoc [] where
  path := by
    apply next_location_of_link before
    rw [update_self, setNext, next_pointer32, Nat.mod_eq_of_lt near]
  increasing := by simpa using before
  start := ⟨finalLoc - prevLoc, update_self ..⟩
  decodes hop member := nomatch member
  frame other outside := update_of_ne (fun equal => outside (mem_singleton.mpr equal)) _ _

theorem far_pair_linked {prevLoc finalLoc : Nat} (far : prevLoc + 31 < finalLoc)
    (possible : chainPossible maxRebase words (finalLoc - 31) (finalLoc - prevLoc) prevLoc =
      some true) : ∃ curLoc hops written,
      farthestChainableLocation maxRebase words prevLoc = some (some curLoc) ∧
      stealLinks maxRebase (finalLoc - 31) finalLoc (finalLoc - prevLoc) curLoc
          (Function.update words prevLoc (setNext (words prevLoc) (curLoc - prevLoc))) =
        some written ∧
      PairLinked maxRebase words written prevLoc finalLoc hops := by
  obtain ⟨fuel, fuelIs⟩ : ∃ fuel, finalLoc - prevLoc = fuel + 1 := ⟨finalLoc - prevLoc - 1, by omega⟩
  rw [fuelIs] at possible ⊢
  obtain ⟨curLoc, found, later⟩ := chain_possible_step (by omega) possible
  have small : maxRebase < 2 ^ 26 := by
    by_contra large
    rw [farthestChainableLocation, if_neg large] at found
    cases found
  obtain ⟨after, reach, chains⟩ := farthest_found found
  let linked := Function.update words prevLoc (setNext (words prevLoc) (curLoc - prevLoc))
  have kept : ∀ location, curLoc ≤ location → linked location = words location := by
    intro location beyond
    exact update_of_ne (by omega) _ _
  obtain ⟨hops, written, ran, stolen⟩ := @steal_links maxRebase words (finalLoc - 31) finalLoc small
    (by omega) (fuel + 1) curLoc linked (by omega) kept chains (chain_possible_more later)
  have increasing := pairwise_cons_cons_iff_of_trans.mpr ⟨after, stolen.increasing⟩
  have ahead : ∀ hop ∈ curLoc :: hops, prevLoc < hop := fun hop member =>
    (pairwise_cons.mp increasing).1 hop (mem_append_left _ member)
  have here : written prevLoc = setNext (words prevLoc) (curLoc - prevLoc) := by
    rw [stolen.frame prevLoc (fun member => Nat.lt_irrefl _ (ahead prevLoc member))]
    exact update_self ..
  refine ⟨curLoc, curLoc :: hops, written, found, ran, ⟨?_, stolen.path⟩, ?_, ⟨_, here⟩, ?_, ?_⟩
  · apply next_location_of_link after
    rw [here, setNext, next_pointer32, Nat.mod_eq_of_lt (by omega)]
  · exact increasing
  · intro hop member
    rw [stolen.decodes hop member]
    exact congrArg some (update_of_ne (Nat.ne_of_gt (ahead hop member)) _ _)
  · intro other outside
    rw [mem_cons, not_or] at outside
    rw [stolen.frame other outside.2]
    exact update_of_ne outside.1 _ _

variable {stealPointersFixupChains : Bool} {prevLoc finalLoc : Nat}

theorem chain_pair (before : prevLoc < finalLoc) {written : Words} {starts : List Nat}
    (ran : chain32bitPointers stealPointersFixupChains maxRebase words prevLoc finalLoc =
      some (written, starts)) : (starts = [finalLoc] ∧ written = words) ∨
      (starts = [] ∧ ∃ hops, PairLinked maxRebase words written prevLoc finalLoc hops) := by
  unfold chain32bitPointers at ran
  split at ran
  next near =>
    cases ran
    exact Or.inr ⟨rfl, [], near_pair_linked before (by omega)⟩
  rename_i far
  split at ran
  · obtain ⟨possible, searched, ran⟩ := bind_eq_some_iff.mp ran
    cases possible with
    | false =>
      cases ran
      exact Or.inl ⟨rfl, rfl⟩
    | true =>
      obtain ⟨curLoc, hops, links, found, stolen, linked⟩ := far_pair_linked (by omega) searched
      rw [if_pos rfl, found, join_some, bind_eq_bind, bind_some] at ran
      dsimp only at ran
      rw [stolen, bind_eq_bind, bind_some] at ran
      cases ran
      exact Or.inr ⟨rfl, hops, linked⟩
  · cases ran
    exact Or.inl ⟨rfl, rfl⟩

theorem chain_pair_total (small : maxRebase < 2 ^ 26) (before : prevLoc < finalLoc) :
    ∃ made, chain32bitPointers stealPointersFixupChains maxRebase words prevLoc finalLoc =
      some made := by
  unfold chain32bitPointers
  split
  · exact ⟨_, rfl⟩
  split
  · obtain ⟨possible, searched⟩ := @chain_possible_total maxRebase small words (finalLoc - 31)
      (finalLoc - prevLoc) prevLoc (by omega) (by omega)
    dsimp only
    cases possible with
    | false =>
      rw [searched]
      exact ⟨_, rfl⟩
    | true =>
      obtain ⟨curLoc, hops, links, found, stolen, -⟩ := far_pair_linked (by omega) searched
      rw [searched, bind_eq_bind, bind_some, if_pos rfl, found, join_some,
        bind_eq_bind, bind_some, stolen, bind_eq_bind, bind_some]
      exact ⟨_, rfl⟩
  · exact ⟨_, rfl⟩

end Pairs

section Pages

structure PageChained (maxRebase : Nat) (words written : Words) (fixups visited : List Nat) :
    Prop where
  increasing : visited.Pairwise (· < ·)
  bounded : ∀ other ∈ visited, ∃ fixup ∈ fixups, other ≤ fixup
  all : ∀ fixup ∈ fixups, fixup ∈ visited
  decodes : ∀ other ∈ visited, other ∉ fixups →
    decodeStolen maxRebase (written other) = some (words other)
  pointers : ∀ fixup ∈ fixups, ∃ steps, written fixup = setNext (words fixup) steps
  frame : ∀ other, other ∉ visited → written other = words other

def StartsRun (written : Words) (start : Nat) (chain : List Nat) : Prop :=
  ∃ tail, chain = start :: tail ∧ Run (nextLocation written) start tail

variable {stealPointersFixupChains : Bool} {maxRebase : Nat} {words written linked : Words}
  {prevLoc loc : Nat} {rest later : List Nat}

theorem set_next_self (word : BitVec 32) : setNext word (next5 word) = word := by
  apply BitVec.eq_of_toNat_eq
  rw [setNext, pointer32, bindBit, next5, target26, BitVec.toNat_ofNat]
  omega

theorem PageChained.ahead (page : PageChained maxRebase linked written (loc :: rest) (loc :: later))
    {other : Nat} (before : other < loc) : written other = linked other := by
  apply page.frame
  intro member
  rcases mem_cons.mp member with rfl | inside
  · exact Nat.lt_irrefl _ before
  · exact Nat.lt_asymm before ((pairwise_cons.mp page.increasing).1 other inside)

theorem PageChained.unlinkedFixup (before : prevLoc < loc)
    (page : PageChained maxRebase words written (loc :: rest) (loc :: later)) :
    PageChained maxRebase words written (prevLoc :: loc :: rest) (prevLoc :: loc :: later) where
  increasing := by
    refine pairwise_cons.mpr ⟨?_, page.increasing⟩
    intro other member
    rcases mem_cons.mp member with rfl | inside
    · exact before
    · exact Nat.lt_trans before ((pairwise_cons.mp page.increasing).1 other inside)
  bounded other member := by
    rcases mem_cons.mp member with rfl | inside
    · exact ⟨other, mem_cons_self, Nat.le_refl _⟩
    · obtain ⟨fixup, among, limit⟩ := page.bounded other inside
      exact ⟨fixup, .tail _ among, limit⟩
  all fixup member := by
    rcases mem_cons.mp member with rfl | inside
    · exact mem_cons_self
    · exact .tail _ (page.all fixup inside)
  decodes other member outside := by
    rw [mem_cons, not_or] at outside
    rcases mem_cons.mp member with rfl | inside
    · exact absurd rfl outside.1
    · exact page.decodes other inside outside.2
  pointers fixup member := by
    rcases mem_cons.mp member with rfl | inside
    · exact ⟨next5 (words fixup), by rw [page.ahead before, set_next_self]⟩
    · exact page.pointers fixup inside
  frame other outside := by
    rw [mem_cons, not_or] at outside
    exact page.frame other outside.2

theorem PageChained.linkedFixup {hops : List Nat}
    (pair : PairLinked maxRebase words linked prevLoc loc hops)
    (ordered : ∀ fixup ∈ loc :: rest, loc ≤ fixup)
    (page : PageChained maxRebase linked written (loc :: rest) (loc :: later)) :
    PageChained maxRebase words written (prevLoc :: loc :: rest)
      (prevLoc :: hops ++ loc :: later) := by
  have split := pairwise_append.mp pair.increasing
  have early : ∀ other ∈ prevLoc :: hops, other < loc := by
    intro other member
    exact split.2.2 other member loc (mem_singleton.mpr rfl)
  have late : ∀ other ∈ loc :: later, loc ≤ other := by
    intro other member
    rcases mem_cons.mp member with rfl | inside
    · exact Nat.le_refl _
    · exact Nat.le_of_lt ((pairwise_cons.mp page.increasing).1 other inside)
  have same : ∀ other, loc ≤ other → linked other = words other := by
    intro other beyond
    apply pair.frame
    intro member
    exact absurd (early other member) (Nat.not_lt_of_le beyond)
  constructor
  case increasing =>
    refine pairwise_append.mpr ⟨split.1, page.increasing, ?_⟩
    intro left leftMember right rightMember
    exact Nat.lt_of_lt_of_le (early left leftMember) (late right rightMember)
  case bounded =>
    intro other member
    rcases mem_append.mp member with first | second
    · exact ⟨loc, .tail _ mem_cons_self, Nat.le_of_lt (early other first)⟩
    · obtain ⟨fixup, among, limit⟩ := page.bounded other second
      exact ⟨fixup, .tail _ among, limit⟩
  case all =>
    intro fixup member
    rcases mem_cons.mp member with rfl | inside
    · exact mem_append_left _ mem_cons_self
    · exact mem_append_right _ (page.all fixup inside)
  case decodes =>
    intro other member outside
    rw [mem_cons, not_or] at outside
    rcases mem_append.mp member with first | second
    · rw [page.ahead (early other first)]
      rcases mem_cons.mp first with rfl | hop
      · exact absurd rfl outside.1
      · exact pair.decodes other hop
    · rw [page.decodes other second outside.2, same other (late other second)]
  case pointers =>
    intro fixup member
    rcases mem_cons.mp member with rfl | inside
    · rw [page.ahead (early fixup mem_cons_self)]
      exact pair.start
    · rw [← same fixup (ordered fixup inside)]
      exact page.pointers fixup inside
  case frame =>
    intro other outside
    rw [mem_append, not_or] at outside
    rw [page.frame other outside.2, pair.frame other outside.1]

theorem chain_page_from :
    ∀ {rest : List Nat} {prevLoc : Nat} {words written : Words} {starts : List Nat},
      (prevLoc :: rest).Pairwise (· < ·) → (∀ fixup ∈ prevLoc :: rest, next5 (words fixup) = 0) →
      chainPage stealPointersFixupChains maxRebase (prevLoc :: rest) words =
        some (written, starts) →
      ∃ run chains, Run (nextLocation written) prevLoc run ∧
        Forall₂ (StartsRun written) starts chains ∧
        PageChained maxRebase words written (prevLoc :: rest) (prevLoc :: run ++ chains.flatten) := by
  intro rest
  induction rest with
  | nil =>
    intro prevLoc words written starts _ fresh ran
    cases ran
    have end_ : nextLocation words prevLoc = none := by
      rw [nextLocation, if_pos (fresh prevLoc mem_cons_self)]
    refine ⟨[], [], end_, .nil, ?_⟩
    constructor
    case increasing => exact pairwise_singleton _ _
    case bounded => exact fun other member => ⟨other, member, Nat.le_refl _⟩
    case all => exact fun fixup member => member
    case decodes => exact fun other member outside => absurd member outside
    case pointers => exact fun fixup _ => ⟨next5 (words fixup), (set_next_self _).symm⟩
    case frame => exact fun _ _ => rfl
  | cons loc rest ih =>
    intro prevLoc words written starts ordered fresh ran
    obtain ⟨⟨linked, early⟩, pairRan, ran⟩ := bind_eq_some_iff.mp ran
    obtain ⟨⟨final, lateStarts⟩, laterRan, ran⟩ := bind_eq_some_iff.mp ran
    cases ran
    obtain ⟨first, laterOrdered⟩ := pairwise_cons.mp ordered
    have before := first loc mem_cons_self
    rcases chain_pair before pairRan with ⟨rfl, rfl⟩ | ⟨rfl, hops, pair⟩
    · obtain ⟨run, chains, runs, others, page⟩ := ih laterOrdered
        (fun fixup member => fresh fixup (.tail _ member)) laterRan
      have whole := page.unlinkedFixup before
      refine ⟨[], (loc :: run) :: chains, ?_, .cons ⟨run, rfl, runs⟩ others, whole⟩
      change nextLocation written prevLoc = none
      rw [nextLocation, page.ahead before, if_pos (fresh prevLoc mem_cons_self)]
    · have split := pairwise_append.mp pair.increasing
      have early : ∀ other ∈ prevLoc :: hops, other < loc := fun other member =>
        split.2.2 other member loc (mem_singleton.mpr rfl)
      have beyond : ∀ fixup ∈ loc :: rest, loc ≤ fixup := by
        intro fixup member
        rcases mem_cons.mp member with rfl | inside
        · exact Nat.le_refl _
        · exact Nat.le_of_lt ((pairwise_cons.mp laterOrdered).1 fixup inside)
      have stillFresh : ∀ fixup ∈ loc :: rest, next5 (linked fixup) = 0 := by
        intro fixup member
        rw [pair.frame fixup fun among =>
          absurd (early fixup among) (Nat.not_lt_of_le (beyond fixup member))]
        exact fresh fixup (.tail _ member)
      obtain ⟨run, chains, runs, others, page⟩ := ih laterOrdered stillFresh laterRan
      have path : Path (nextLocation written) prevLoc hops loc := by
        apply path_congr _ pair.path
        intro met member
        rw [nextLocation, nextLocation, page.ahead (early met member)]
      refine ⟨hops ++ loc :: run, chains, run_of_path runs path, others, ?_⟩
      have whole := page.linkedFixup pair beyond
      rw [cons_append, append_assoc]
      exact whole

theorem chain_page_total (small : maxRebase < 2 ^ 26) :
    ∀ {fixups : List Nat} {words : Words}, fixups.Pairwise (· < ·) →
      ∃ made, chainPage stealPointersFixupChains maxRebase fixups words = some made := by
  intro fixups
  induction fixups with
  | nil =>
    intro words _
    exact ⟨_, rfl⟩
  | cons prevLoc rest ih =>
    intro words ordered
    cases rest with
    | nil => exact ⟨_, rfl⟩
    | cons loc rest =>
      obtain ⟨first, laterOrdered⟩ := pairwise_cons.mp ordered
      obtain ⟨⟨linked, early⟩, pairRan⟩ := @chain_pair_total maxRebase words
        stealPointersFixupChains prevLoc loc small (first loc mem_cons_self)
      obtain ⟨⟨written, late⟩, laterRan⟩ := @ih linked laterOrdered
      rw [chainPage, pairRan, bind_eq_bind, bind_some]
      dsimp only
      rw [laterRan]
      exact ⟨_, rfl⟩

/-- 32-bit chains visit every fixup of a page once, keep the values of the words
they steal, and change nothing else. Only the assertion on the largest rebase
target can fail. -/
theorem chained_pages_faithful (stealPointersFixupChains : Bool) (maxRebase : Nat) (words : Words)
    {fixups : List Nat} (ordered : fixups.Pairwise (· < ·))
    (fresh : ∀ fixup ∈ fixups, next5 (words fixup) = 0)
    (rebase : ∀ fixup ∈ fixups, bindBit (words fixup) = 0 → target26 (words fixup) < maxRebase) :
    (maxRebase < 2 ^ 26 → (chainPage stealPointersFixupChains maxRebase fixups words).isSome) ∧
      ∀ written starts,
        chainPage stealPointersFixupChains maxRebase fixups words = some (written, starts) →
        ∃ visited,
          (∀ fuel, (∀ fixup ∈ fixups, fixup < fuel) →
            List.Forall₂ (fun start chain => walk (nextLocation written) fuel start = some chain)
              (fixups.head?.toList ++ starts) visited) ∧
          PageChained maxRebase words written fixups visited.flatten ∧
          ∀ fixup ∈ fixups, decodeStolen maxRebase (written fixup) = none := by
  constructor
  · intro small
    obtain ⟨made, ran⟩ := @chain_page_total stealPointersFixupChains maxRebase small fixups words
      ordered
    rw [ran]
    rfl
  · intro written starts ran
    cases fixups with
    | nil =>
      cases ran
      refine ⟨[], fun _ _ => .nil, ?_, fun _ member => nomatch member⟩
      exact ⟨.nil, nofun, nofun, nofun, nofun, fun _ _ => rfl⟩
    | cons first rest =>
      obtain ⟨run, chains, runs, others, page⟩ := chain_page_from ordered fresh ran
      refine ⟨(first :: run) :: chains, ?_, page, ?_⟩
      · intro fuel enough
        have all : List.Forall₂ (StartsRun written) (first :: starts) ((first :: run) :: chains) :=
          .cons ⟨run, rfl, runs⟩ others
        have short : ∀ chain ∈ (first :: run) :: chains, chain.length ≤ fuel := by
          intro chain member
          have part : chain.Sublist ((first :: run) :: chains).flatten :=
            sublist_flatten_of_mem member
          have distinct : chain.Nodup :=
            (page.increasing.sublist part).imp fun less => Nat.ne_of_lt less
          have within : chain ⊆ range fuel := by
            intro item inside
            obtain ⟨fixup, among, limit⟩ := page.bounded item (part.subset inside)
            exact mem_range.mpr (Nat.lt_of_le_of_lt limit (enough fixup among))
          have lengths := (subperm_of_subset distinct within).length_le
          rwa [length_range] at lengths
        rw [forall₂_iff_get] at all ⊢
        refine ⟨all.1, ?_⟩
        intro place inside other
        obtain ⟨tail, chain, tailRuns⟩ := all.2 place inside other
        have length := short _ (List.get_mem _ ⟨place, other⟩)
        rw [chain] at length ⊢
        exact walk_run tailRuns length
      · intro fixup member
        obtain ⟨steps, link⟩ := page.pointers fixup member
        rw [link]
        rw [decodeStolen, setNext, target_pointer32, bind_pointer32, bind_bit_mod, target26,
          Nat.mod_mod, if_neg]
        intro stolen
        exact Nat.lt_asymm stolen.2 (rebase fixup member stolen.1)

end Pages

section Example

def sparsePage : Words := fun location =>
  if location = 0 then pointer32 0 0 0x1000
  else if location = 40 then pointer32 0 0 0x2000
  else if location = 31 then 0x7FFFFFFF
  else BitVec.ofInt 32 (-1)

theorem sparse_page_chained :
    ∃ written visited, chainPage true 0x100000 [0, 40] sparsePage = some (written, []) ∧
      List.Forall₂ (fun start chain => walk (nextLocation written) 41 start = some chain)
        [0] visited ∧
      PageChained 0x100000 sparsePage written [0, 40] visited.flatten ∧
      ∀ fixup ∈ [0, 40], decodeStolen 0x100000 (written fixup) = none := by
  obtain ⟨total, all⟩ := @chained_pages_faithful true 0x100000 sparsePage [0, 40] (by decide)
    (by decide) (by decide)
  obtain ⟨⟨written, starts⟩, ran⟩ := isSome_iff_exists.mp (total (by decide))
  have stolen : (chainPage true 0x100000 [0, 40] sparsePage).map Prod.snd = some [] := by
    decide +kernel
  rw [ran] at stolen
  obtain rfl : starts = [] := Option.some.inj stolen
  obtain ⟨visited, walks, page, kept⟩ := all written [] ran
  exact ⟨written, visited, ran, walks 41 (by decide), page, kept⟩

end Example

end DeveloperTools.Ld64.Chain32
