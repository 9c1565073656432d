import DeveloperTools.Ld64.FirmwareChains
import DeveloperTools.Lib.OrderedMap

/-!
The section `__rebase_info`: the pointers of a section as runs of consecutive words. A run has a
start address and then bytes by turns, how many pointers are in a row and how many words to skip;
two zero bytes in a row end it. The writer stores the distance between two pointers as the words
to skip, and breaks runs of more than 255 pointers with a skip of no words.
-/

namespace DeveloperTools.Ld64.RebaseRuns

open FixupCoverage FirmwareChains
open List Option

structure RunAtom (Atom : Type) where
  /-- In final address mode. -/
  finalAddress : Option Nat
  sectionOffset : Nat
  fixups : List (Fixup Atom)

structure RunSection (Atom : Type) where
  address : Nat
  atoms : List (RunAtom Atom)

section Sections

variable {Atom : Type}

def fixupAddress (sect : RunSection Atom) (atom : RunAtom Atom) (offsetInAtom : Nat) : Nat :=
  match atom.finalAddress with
  | some finalAddress => (finalAddress + offsetInAtom) % 2 ^ 32
  | none => (sect.address + atom.sectionOffset + offsetInAtom) % 2 ^ 32

/-- The pointers of a section; `countChains` chooses the offsets in the same way. -/
def sectionFixups (sect : RunSection Atom) : List Nat :=
  sect.atoms.flatMap fun atom =>
    ((countOffsets {} atom.fixups).mergeSort fun left right => left ≤ right).map
      (fixupAddress sect atom)

end Sections

structure RunsState where
  runsContent : List UInt8 := []
  count : Nat := 0
  lastFixupAddress : Nat := 0

def wordBytes (value : Nat) : List UInt8 :=
  [UInt8.ofNat value, UInt8.ofNat (value / 2 ^ 8), UInt8.ofNat (value / 2 ^ 16),
    UInt8.ofNat (value / 2 ^ 24)]

def runBytes (count : Nat) : List UInt8 :=
  if 255 < count then 255 :: 0 :: runBytes (count - 255) else [UInt8.ofNat count]

def padding (size : Nat) : List UInt8 := List.replicate ((4 - size % 4) % 4) 0

def pad (content : List UInt8) : List UInt8 := content ++ padding content.length

def terminate (content : List UInt8) : List UInt8 :=
  if 4 < content.length ∧
      (content[content.length - 1]? ≠ some 0 ∨ content[content.length - 2]? ≠ some 0) then
    content ++ [0, 0]
  else content

/-- `none`: misaligned pointer. -/
def addFixup (state : RunsState) (fixupAddress : Nat) : Option RunsState :=
  if fixupAddress % 4 ≠ 0 then none
  else if state.runsContent = [] then some ⟨wordBytes fixupAddress, 1, fixupAddress⟩
  else
    let delta := (fixupAddress + 2 ^ 32 - state.lastFixupAddress) % 2 ^ 32
    if delta = 4 then some ⟨state.runsContent, state.count + 1, fixupAddress⟩
    else
      -- found gap, so end previous rebase run
      let content := state.runsContent ++ runBytes state.count
      if 255 < delta / 4 then
        -- gap too large, start new run
        some ⟨pad (terminate content) ++ wordBytes fixupAddress, 1, fixupAddress⟩
      else some ⟨content ++ [UInt8.ofNat (delta / 4)], 1, fixupAddress⟩

def addLastRun (state : RunsState) : List UInt8 :=
  let content :=
    if 1 ≤ state.count then state.runsContent ++ runBytes state.count else state.runsContent
  if content = [] then [] else pad (content ++ [0, 0])

def makeRebaseRuns {Atom : Type} (sect : RunSection Atom) : Option (List UInt8) :=
  ((sectionFixups sect).foldlM addFixup {}).map addLastRun

def pointers (cursor count : Nat) : List Nat := (List.range count).map fun i => cursor + 4 * i

/-- What a reader takes for the distance, in words, from the last pointer of a run to the next
pointer, is a function of the byte between them. -/
def readRun (far : Nat → Nat) : Nat → List UInt8 → Option (List Nat × List UInt8)
  | cursor, count :: skip :: next :: rest =>
    if skip = 0 ∧ next = 0 then some (pointers cursor count.toNat, rest)
    else do
      let (more, tail) ←
        readRun far (cursor + 4 * (count.toNat - 1) + 4 * far skip.toNat) (next :: rest)
      some (pointers cursor count.toNat ++ more, tail)
  | _, _ => none

def wordOf (first second third fourth : UInt8) : Nat :=
  first.toNat + 2 ^ 8 * second.toNat + 2 ^ 16 * third.toNat + 2 ^ 24 * fourth.toNat

def readRuns (far : Nat → Nat) : Nat → List UInt8 → Option (List Nat)
  | _, [] => some []
  | fuel + 1, first :: second :: third :: fourth :: bytes => do
    let (here, tail) ← readRun far (wordOf first second third fourth) bytes
    let more ← readRuns far fuel (tail.drop (tail.length % 4))
    some (here ++ more)
  | _, _ => none

/-- The bytes of a section rebase exactly its pointers. -/
def ReadsBack {Atom : Type} (far : Nat → Nat) (sect : RunSection Atom) : Prop :=
  ∃ content, makeRebaseRuns sect = some content ∧
    readRuns far content.length content = some (sectionFixups sect)

def runLengths : Nat → Nat → List Nat → List Nat
  | count, _, [] => [count]
  | count, last, site :: rest =>
    if site = last + 4 then runLengths (count + 1) site rest
    else count :: runLengths 1 site rest

def runGaps : Nat → List Nat → List Nat
  | _, [] => []
  | last, site :: rest =>
    if site = last + 4 then runGaps site rest else (site - last) / 4 :: runGaps site rest

def siteRuns : List Nat → List Nat
  | [] => []
  | first :: rest => runLengths 1 first rest

def siteGaps : List Nat → List Nat
  | [] => []
  | first :: rest => runGaps first rest

def LongRun (sites : List Nat) : Prop := ∃ count ∈ siteRuns sites, 255 < count

def ShortGap (sites : List Nat) : Prop := ∃ gap ∈ siteGaps sites, gap ≤ 255

variable {count : Nat}

theorem run_bytes_small (small : count ≤ 255) :
    runBytes count = [UInt8.ofNat count] := by
  rw [runBytes, if_neg (Nat.not_lt.mpr small)]

theorem run_bytes_large (large : 255 < count) :
    runBytes count = 255 :: 0 :: runBytes (count - 255) := by
  rw [runBytes, if_pos large]

variable {value : Nat}

theorem byte_ne_zero (positive : 0 < value) (small : value ≤ 255) : UInt8.ofNat value ≠ 0 := by
  intro zero
  have same := congrArg UInt8.toNat zero
  rw [UInt8.toNat_ofNat_of_lt' (by omega : value < 256)] at same
  exact absurd same positive.ne'

theorem run_bytes_last (positive : 0 < count) :
    ∃ byte, (runBytes count).getLast? = some byte ∧ byte ≠ 0 := by
  induction count using Nat.strong_induction_on with
  | _ count ih =>
    by_cases small : count ≤ 255
    · rw [run_bytes_small small]
      exact ⟨_, rfl, byte_ne_zero positive small⟩
    obtain ⟨byte, isLast, nonzero⟩ := ih (count - 255) (by omega) (by omega)
    rw [run_bytes_large (by omega)]
    refine ⟨byte, ?_, nonzero⟩
    rw [getLast?_cons, getLast?_cons, isLast]
    rfl

theorem run_bytes_head (count : Nat) : ∃ byte rest, runBytes count = byte :: rest ∧
    (0 < count → byte ≠ 0) := by
  by_cases small : count ≤ 255
  · exact ⟨_, _, run_bytes_small small, fun positive => byte_ne_zero positive small⟩
  · exact ⟨_, _, run_bytes_large (by omega), fun _ => by decide⟩

variable {content : List UInt8}

theorem terminate_run (started : 4 ≤ content.length) (positive : 0 < count) :
    terminate (content ++ runBytes count) = content ++ runBytes count ++ [0, 0] := by
  obtain ⟨byte, isLast, nonzero⟩ := run_bytes_last positive
  have longer : 0 < (runBytes count).length := by
    obtain ⟨_, _, isCons, _⟩ := run_bytes_head count
    rw [isCons]
    exact Nat.succ_pos _
  apply if_pos
  constructor
  · rw [length_append]
    omega
  · left
    rw [← getLast?_eq_getElem?, getLast?_append, isLast]
    exact fun same => nonzero (Option.some.inj same)

def restBytes : Nat → Nat → Nat → List Nat → List UInt8
  | size, count, _, [] => runBytes count ++ [0, 0] ++ padding (size + (runBytes count).length + 2)
  | size, count, last, site :: rest =>
    if site = last + 4 then restBytes size (count + 1) site rest
    else if 255 < (site - last) / 4 then
      runBytes count ++ [0, 0] ++ padding (size + (runBytes count).length + 2) ++
        wordBytes site ++ restBytes 0 1 site rest
    else
      runBytes count ++ [UInt8.ofNat ((site - last) / 4)] ++
        restBytes (size + (runBytes count).length + 1) 1 site rest

theorem padding_length (size : Nat) : (size + (padding size).length) % 4 = 0 := by
  rw [padding, length_replicate]
  omega

theorem padding_mod {size other : Nat} (same : size % 4 = other % 4) (more : Nat) :
    padding (size + more) = padding (other + more) := by
  rw [padding, padding, Nat.add_mod, same, ← Nat.add_mod]

variable {rest : List Nat}

theorem rest_bytes_mod {size other count last : Nat} (same : size % 4 = other % 4) :
    restBytes size count last rest = restBytes other count last rest := by
  induction rest generalizing size other count last with
  | nil => rw [restBytes, restBytes, Nat.add_assoc, padding_mod same, ← Nat.add_assoc]
  | cons site rest ih =>
    have padded := padding_mod same ((runBytes count).length + 2)
    rw [← Nat.add_assoc, ← Nat.add_assoc] at padded
    have later : restBytes (size + (runBytes count).length + 1) 1 site rest =
        restBytes (other + (runBytes count).length + 1) 1 site rest := ih (by omega)
    rw [restBytes, restBytes, ih same, padded, later]

theorem word_bytes_length (value : Nat) : (wordBytes value).length = 4 := rfl

theorem rest_bytes_aligned {size count last : Nat} :
    (size + (restBytes size count last rest).length) % 4 = 0 := by
  induction rest generalizing size count last with
  | nil =>
    have padded := padding_length (size + (runBytes count).length + 2)
    simp only [restBytes, length_append, length_cons, length_nil]
    omega
  | cons site rest ih =>
    rw [restBytes]
    split
    · exact ih
    split
    · have padded := padding_length (size + (runBytes count).length + 2)
      have later := @ih 0 1 site
      simp only [length_append, length_cons, length_nil, word_bytes_length]
      omega
    · have later := @ih (size + (runBytes count).length + 1) 1 site
      simp only [length_append, length_cons, length_nil]
      omega

structure Sites (sites : List Nat) : Prop where
  increasing : sites.Pairwise (· < ·)
  aligned : ∀ site ∈ sites, site % 4 = 0
  small : ∀ site ∈ sites, site < 2 ^ 32

theorem Sites.tail {site : Nat} (sites : Sites (site :: rest)) : Sites rest :=
  ⟨sites.increasing.tail, (forall_mem_cons.mp sites.aligned).2, (forall_mem_cons.mp sites.small).2⟩

theorem Sites.next {last site : Nat} (sites : Sites (last :: site :: rest)) :
    last < site ∧ (site - last) % 4 = 0 ∧ site < 2 ^ 32 ∧ site % 4 = 0 := by
  have less := (pairwise_cons.mp sites.increasing).1 site mem_cons_self
  have first := sites.aligned last mem_cons_self
  have second := sites.aligned site (.tail _ mem_cons_self)
  have small := sites.small site (.tail _ mem_cons_self)
  omega

theorem add_fixups {count last : Nat} (started : 4 ≤ content.length) (positive : 0 < count)
    (sites : Sites (last :: rest)) :
    (rest.foldlM addFixup ⟨content, count, last⟩).map addLastRun =
      some (content ++ restBytes content.length count last rest) := by
  induction rest generalizing content count last with
  | nil =>
    obtain ⟨byte, bytes, isCons, _⟩ := run_bytes_head count
    rw [foldlM_nil]
    simp only [Option.pure_def, map_some, addLastRun, if_pos (Nat.succ_le_of_lt positive)]
    rw [if_neg (by rw [isCons]; simp), pad, restBytes]
    simp only [length_append, length_cons, length_nil, append_assoc, Nat.add_assoc]
  | cons site rest ih =>
    obtain ⟨less, stride, small, aligned⟩ := sites.next
    have nonempty : content ≠ [] := by
      rintro rfl
      exact absurd started (by decide)
    have delta : (site + 2 ^ 32 - last) % 2 ^ 32 = site - last := by omega
    rw [foldlM_cons, restBytes, addFixup, if_neg (not_not.mpr aligned), if_neg nonempty]
    rw [delta]
    by_cases near : site = last + 4
    · rw [if_pos (by omega), if_pos near]
      exact ih started (Nat.succ_pos _) sites.tail
    rw [if_neg (by omega), if_neg near]
    by_cases wide : 255 < (site - last) / 4
    · rw [if_pos wide, if_pos wide, terminate_run started positive, pad]
      have next := @ih (content ++ runBytes count ++ [0, 0] ++
        padding (content ++ runBytes count ++ [0, 0]).length ++ wordBytes site) 1 site
        (by simp only [length_append]; omega) Nat.one_pos sites.tail
      have padded := padding_length (content ++ runBytes count ++ [0, 0]).length
      rw [rest_bytes_mod (by
        simp only [length_append, word_bytes_length, length_cons, length_nil] at padded ⊢
        omega : _ % 4 = 0 % 4)] at next
      refine next.trans ?_
      simp only [length_append, length_cons, length_nil, append_assoc, Nat.add_assoc]
    · rw [if_neg wide, if_neg wide]
      have next := @ih (content ++ runBytes count ++
        [UInt8.ofNat ((site - last) / 4)]) 1 site
        (by simp only [length_append]; omega) Nat.one_pos sites.tail
      refine next.trans ?_
      simp only [length_append, length_cons, length_nil, append_assoc, Nat.add_assoc]

theorem make_runs {first : Nat} (sites : Sites (first :: rest)) :
    ((first :: rest).foldlM addFixup {}).map addLastRun =
      some (wordBytes first ++ restBytes 0 1 first rest) := by
  have aligned := sites.aligned first mem_cons_self
  rw [foldlM_cons, addFixup, if_neg (not_not.mpr aligned), if_pos rfl]
  refine (add_fixups (by rw [word_bytes_length]) Nat.one_pos sites).trans ?_
  rw [rest_bytes_mod (by rw [word_bytes_length] : (wordBytes first).length % 4 = 0 % 4)]

section Reading

variable {far : Nat → Nat} {cursor start count last : Nat}

theorem pointers_length (cursor count : Nat) : (pointers cursor count).length = count := by
  rw [pointers, length_map, length_range]

theorem pointers_add (cursor front back : Nat) : pointers cursor (front + back) =
      pointers cursor front ++ pointers (cursor + 4 * front) back := by
  simp only [pointers, range_add, map_append, List.map_map]
  congr 1
  apply map_congr_left
  intro i _
  simp only [Function.comp_apply]
  omega

theorem pointers_inj (positive : 0 < count) :
    pointers cursor count = pointers start count ↔ cursor = start := by
  constructor
  · intro same
    have heads := congrArg head? same
    obtain ⟨more, rfl⟩ := Nat.exists_eq_succ_of_ne_zero positive.ne'
    simpa [pointers, range_succ_eq_map] using heads
  · exact fun same => same ▸ rfl

def heard (far : Nat → Nat) (cursor count : Nat) : List Nat :=
  if 255 < count then
    pointers cursor 255 ++ heard far (cursor + 4 * 254 + 4 * far 0) (count - 255)
  else pointers cursor count
termination_by count

def heardLast (far : Nat → Nat) (cursor count : Nat) : Nat :=
  if 255 < count then heardLast far (cursor + 4 * 254 + 4 * far 0) (count - 255)
  else cursor + 4 * (count - 1)
termination_by count

theorem heard_small (small : count ≤ 255) : heard far cursor count = pointers cursor count ∧
    heardLast far cursor count = cursor + 4 * (count - 1) := by
  rw [heard, heardLast, if_neg (Nat.not_lt.mpr small), if_neg (Nat.not_lt.mpr small)]
  exact ⟨rfl, rfl⟩

theorem heard_large (large : 255 < count) : heard far cursor count =
        pointers cursor 255 ++ heard far (cursor + 4 * 254 + 4 * far 0) (count - 255) ∧
      heardLast far cursor count = heardLast far (cursor + 4 * 254 + 4 * far 0) (count - 255) := by
  rw [heard, heardLast, if_pos large, if_pos large]
  exact ⟨rfl, rfl⟩

theorem heard_length (far : Nat → Nat) (cursor count : Nat) :
    (heard far cursor count).length = count := by
  induction count using Nat.strong_induction_on generalizing cursor with
  | _ count ih =>
    rw [heard]
    split
    next large =>
      rw [length_append, pointers_length, ih _ (by omega)]
      omega
    · exact pointers_length _ _

theorem heard_iff (positive : 0 < count) : heard far cursor count = pointers start count ↔
      cursor = start ∧ (255 < count → far 0 = 1) := by
  induction count using Nat.strong_induction_on generalizing cursor start with
  | _ count ih =>
    rw [heard]
    split
    next large =>
      have split := pointers_add start 255 (count - 255)
      rw [Nat.add_sub_cancel' large.le] at split
      rw [split]
      constructor
      · intro same
        obtain ⟨first, later⟩ := append_inj same (by rw [pointers_length, pointers_length])
        have isStart := (pointers_inj (by decide)).mp first
        have isNext := ((ih _ (by omega) (by omega)).mp later).1
        exact ⟨isStart, fun _ => by omega⟩
      · rintro ⟨rfl, one⟩
        have isOne := one large
        have later := (@ih (count - 255) (by omega) (cursor + 4 * 254 + 4 * far 0)
          (cursor + 4 * 255) (by omega)).mpr ⟨by omega, fun _ => isOne⟩
        rw [later]
    next small =>
      rw [pointers_inj positive]
      exact ⟨fun same => ⟨same, fun large => absurd large small⟩, And.left⟩

theorem heard_last (positive : 0 < count) (one : 255 < count → far 0 = 1) :
    heardLast far cursor count = cursor + 4 * (count - 1) := by
  induction count using Nat.strong_induction_on generalizing cursor with
  | _ count ih =>
    rw [heardLast]
    split
    next large =>
      rw [ih _ (by omega) (by omega) fun _ => one large, one large]
      omega
    · rfl

theorem byte_to_nat (small : value ≤ 255) : (UInt8.ofNat value).toNat = value :=
  UInt8.toNat_ofNat_of_lt' (Nat.lt_succ_of_le small)

theorem read_run_bytes (positive : 0 < count) (skip next : UInt8) (rest : List UInt8) :
    readRun far cursor (runBytes count ++ skip :: next :: rest) =
      if skip = 0 ∧ next = 0 then some (heard far cursor count, rest)
      else (readRun far (heardLast far cursor count + 4 * far skip.toNat) (next :: rest)).map
        fun read => (heard far cursor count ++ read.1, read.2) := by
  induction count using Nat.strong_induction_on generalizing cursor with
  | _ count ih =>
    by_cases small : count ≤ 255
    · rw [run_bytes_small small, (heard_small small).1, (heard_small small).2,
        singleton_append, readRun, byte_to_nat small]
      rw [map_eq_bind]
      rfl
    · obtain ⟨byte, bytes, isCons, nonzero⟩ := run_bytes_head (count - 255)
      have later := @ih (count - 255) (by omega) (cursor + 4 * 254 + 4 * far 0) (by omega)
      have large : 255 < count := by omega
      rw [isCons, cons_append] at later
      rw [run_bytes_large large, isCons, cons_append, cons_append,
        cons_append, readRun, if_neg fun zeros => nonzero (by omega) zeros.2,
        (heard_large large).1, (heard_large large).2]
      change (readRun far (cursor + 4 * 254 + 4 * far 0) _ >>= _) = _
      rw [later]
      split
      · rfl
      cases readRun far (heardLast far (cursor + 4 * 254 + 4 * far 0) (count - 255) +
          4 * far skip.toNat) (next :: rest) with
      | none => rfl
      | some read =>
        simp only [map_some, bind_eq_bind, bind_some, append_assoc]
        rfl

def readOn (far : Nat → Nat) (fuel cursor : Nat) (bytes : List UInt8) : Option (List Nat) := do
  let (here, tail) ← readRun far cursor bytes
  let more ← readRuns far fuel (tail.drop (tail.length % 4))
  some (here ++ more)

theorem word_of_bytes (small : value < 2 ^ 32) :
    wordOf (UInt8.ofNat value) (UInt8.ofNat (value / 2 ^ 8)) (UInt8.ofNat (value / 2 ^ 16))
      (UInt8.ofNat (value / 2 ^ 24)) = value := by
  simp only [wordOf, UInt8.toNat_ofNat']
  omega

theorem read_runs_word (fuel : Nat) (small : value < 2 ^ 32) (bytes : List UInt8) :
    readRuns far (fuel + 1) (wordBytes value ++ bytes) = readOn far fuel value bytes := by
  rw [wordBytes]
  simp only [cons_append, nil_append, readRuns, word_of_bytes small]
  rfl

theorem read_on_end (fuel : Nat) (positive : 0 < count) {zeros later : List UInt8}
    (few : zeros.length < 4) (aligned : later.length % 4 = 0) :
    readOn far fuel cursor (runBytes count ++ [0, 0] ++ zeros ++ later) =
      (readRuns far fuel later).map (heard far cursor count ++ ·) := by
  have dropped : (zeros ++ later).drop ((zeros ++ later).length % 4) = later := by
    rw [length_append, show (zeros.length + later.length) % 4 = zeros.length by omega, drop_left]
  rw [readOn, append_assoc, append_assoc, cons_append, singleton_append,
    read_run_bytes positive, if_pos ⟨rfl, rfl⟩]
  simp only [bind_eq_bind, bind_some, dropped]
  cases readRuns far fuel later <;> rfl

theorem read_on_gap (fuel : Nat) (positive : 0 < count) {skip next : UInt8} (bytes : List UInt8)
    (nonzero : skip ≠ 0) : readOn far fuel cursor (runBytes count ++ skip :: next :: bytes) =
      (readOn far fuel (heardLast far cursor count + 4 * far skip.toNat) (next :: bytes)).map
        (heard far cursor count ++ ·) := by
  rw [readOn, read_run_bytes positive, if_neg fun zeros => nonzero zeros.1, readOn]
  cases readRun far (heardLast far cursor count + 4 * far skip.toNat) (next :: bytes) with
  | none => rfl
  | some read =>
    simp only [map_some, bind_eq_bind, bind_some]
    simp

theorem map_heard_iff (positive : 0 < count) {read : Option (List Nat)} {sites : List Nat} :
    read.map (heard far cursor count ++ ·) = some (pointers start count ++ sites) ↔
      (cursor = start ∧ (255 < count → far 0 = 1)) ∧ read = some sites := by
  rw [← heard_iff positive]
  constructor
  · intro isRead
    obtain ⟨more, rfl, same⟩ := map_eq_some_iff.mp isRead
    obtain ⟨first, later⟩ := append_inj same (by rw [heard_length, pointers_length])
    exact ⟨first, congrArg some later⟩
  · rintro ⟨first, rfl⟩
    rw [map_some, first]

theorem rest_bytes_head (size count last : Nat) (rest : List Nat) :
    ∃ byte bytes, restBytes size count last rest = byte :: bytes := by
  induction rest generalizing size count last with
  | nil =>
    obtain ⟨byte, bytes, isCons, _⟩ := run_bytes_head count
    rw [restBytes, isCons]
    exact ⟨byte, _, rfl⟩
  | cons site rest ih =>
    obtain ⟨byte, bytes, isCons, _⟩ := run_bytes_head count
    rw [restBytes]
    split
    · exact ih _ _ _
    rw [isCons]
    split
    · exact ⟨byte, _, rfl⟩
    · exact ⟨byte, _, rfl⟩

theorem read_rest_iff {rest : List Nat} {fuel size : Nat} (positive : 0 < count)
    (behind : 4 * (count - 1) ≤ last) (sites : Sites (last :: rest))
    (enough : (restBytes size count last rest).length ≤ fuel) :
    readOn far fuel cursor (restBytes size count last rest) =
        some (pointers (last - 4 * (count - 1)) count ++ rest) ↔
      cursor = last - 4 * (count - 1) ∧
        (∀ length ∈ runLengths count last rest, 255 < length → far 0 = 1) ∧
        ∀ gap ∈ runGaps last rest, gap ≤ 255 → far gap = gap := by
  induction rest generalizing fuel size count last cursor with
  | nil =>
    have ended := @read_on_end far cursor count fuel positive
      (padding (size + (runBytes count).length + 2)) []
      (by rw [padding, length_replicate]; omega) rfl
    rw [append_nil] at ended
    have nothing : readRuns far fuel [] = some [] := by
      cases fuel <;> rfl
    rw [restBytes, ended, nothing, map_heard_iff positive]
    simp [runLengths, runGaps]
  | cons site rest ih =>
    obtain ⟨less, stride, small, aligned⟩ := sites.next
    rw [restBytes] at enough ⊢
    rw [runLengths, runGaps]
    by_cases near : site = last + 4
    · rw [if_pos near] at enough ⊢
      rw [if_pos near, if_pos near]
      have longer := @ih cursor (count + 1) site fuel size (Nat.succ_pos _) (by omega)
        sites.tail enough
      have begins : site - 4 * (count + 1 - 1) = last - 4 * (count - 1) := by omega
      have ends : last - 4 * (count - 1) + 4 * count = site := by omega
      rw [begins, pointers_add, ends, append_assoc] at longer
      exact longer
    · rw [if_neg near] at enough ⊢
      rw [if_neg near, if_neg near]
      have single : site :: rest = pointers (site - 4 * (1 - 1)) 1 ++ rest := by
        simp [pointers]
      rw [forall_mem_cons, forall_mem_cons]
      by_cases wide : 255 < (site - last) / 4
      · rw [if_pos wide] at enough ⊢
        simp only [length_append, length_cons, length_nil, word_bytes_length] at enough
        obtain ⟨fuel, rfl⟩ := Nat.exists_eq_succ_of_ne_zero (by omega : fuel ≠ 0)
        have later := @ih site 1 site fuel 0 Nat.one_pos (Nat.zero_le _) sites.tail (by omega)
        have padded := @rest_bytes_aligned rest 0 1 site
        rw [append_assoc (_ ++ padding _), read_on_end fuel.succ positive
          (by rw [padding, length_replicate]; omega)
          (by rw [length_append, word_bytes_length]; omega), map_heard_iff positive,
          read_runs_word fuel small, single, later]
        simp only [and_assoc]
        constructor
        · rintro ⟨isStart, one, _, ones, skips⟩
          exact ⟨isStart, one, ones, fun short => absurd short (by omega), skips⟩
        · rintro ⟨isStart, one, ones, _, skips⟩
          exact ⟨isStart, one, rfl, ones, skips⟩
      · obtain ⟨byte, bytes, isCons⟩ :=
          rest_bytes_head (size + (runBytes count).length + 1) 1 site rest
        rw [if_neg wide] at enough ⊢
        simp only [length_append, length_cons, length_nil] at enough
        have later := fun cursor => @ih cursor 1 site fuel
          (size + (runBytes count).length + 1) Nat.one_pos (Nat.zero_le _) sites.tail (by omega)
        rw [isCons] at later
        rw [isCons, append_assoc, singleton_append,
          read_on_gap fuel positive bytes (byte_ne_zero (by omega) (by omega)),
          map_heard_iff positive, single, later, byte_to_nat (by omega)]
        simp only [and_assoc]
        constructor
        · rintro ⟨rfl, one, next, ones, skips⟩
          rw [heard_last positive one] at next
          exact ⟨rfl, one, ones, fun _ => by omega, skips⟩
        rintro ⟨rfl, one, ones, skip, skips⟩
        have isSkip := skip (by omega)
        refine ⟨rfl, one, ?_, ones, skips⟩
        rw [heard_last positive one, isSkip]
        omega

end Reading

section Statement

variable {Atom : Type} {sect : RunSection Atom}

theorem reads_back_far {far : Nat → Nat} (sites : Sites (sectionFixups sect)) : ReadsBack far sect ↔
      (∀ length ∈ siteRuns (sectionFixups sect), 255 < length → far 0 = 1) ∧
        ∀ gap ∈ siteGaps (sectionFixups sect), gap ≤ 255 → far gap = gap := by
  unfold ReadsBack makeRebaseRuns
  revert sites
  cases sectionFixups sect with
  | nil =>
    intro _
    exact ⟨fun _ => ⟨fun _ isIn => absurd isIn not_mem_nil,
      fun _ isIn => absurd isIn not_mem_nil⟩, fun _ => ⟨[], rfl, rfl⟩⟩
  | cons first rest =>
    intro sites
    have small := sites.small first mem_cons_self
    have read := @read_rest_iff far first 1 first rest
      (3 + (restBytes 0 1 first rest).length) 0 Nat.one_pos (Nat.zero_le _) sites
      (Nat.le_add_left _ _)
    have single : pointers (first - 4 * (1 - 1)) 1 ++ rest = first :: rest := by
      simp [pointers]
    have fuel : (wordBytes first ++ restBytes 0 1 first rest).length =
        3 + (restBytes 0 1 first rest).length + 1 := by
      rw [length_append, word_bytes_length]
      omega
    rw [make_runs sites]
    constructor
    · rintro ⟨content, isContent, isRead⟩
      cases isContent
      rw [fuel, read_runs_word _ small] at isRead
      exact (read.mp isRead).2
    intro takes
    refine ⟨_, rfl, ?_⟩
    rw [fuel, read_runs_word _ small]
    exact read.mpr ⟨rfl, takes⟩

/-- A reading in which every byte between two runs tells that many words to skip, from some place
on, works unless the section has a long run and also a short gap. -/
theorem skipped_words_iff (sites : Sites (sectionFixups sect)) :
    (∃ base, ReadsBack (fun skip => skip + base) sect) ↔
      ¬ (LongRun (sectionFixups sect) ∧ ShortGap (sectionFixups sect)) := by
  simp only [reads_back_far sites]
  constructor
  · rintro ⟨base, ones, skips⟩ ⟨⟨length, isRun, long⟩, gap, isGap, short⟩
    have one := ones length isRun long
    have skip := skips gap isGap short
    omega
  intro notBoth
  by_cases long : LongRun (sectionFixups sect)
  · -- no gap is stored in a byte, and the words are skipped from the end of the run
    refine ⟨1, fun _ _ _ => rfl, fun gap isGap short => ?_⟩
    exact absurd ⟨long, gap, isGap, short⟩ notBoth
  · -- no run is broken, and the words are skipped from the last pointer
    refine ⟨0, fun length isRun large => ?_, fun _ _ _ => rfl⟩
    exact absurd ⟨length, isRun, large⟩ long

end Statement

def wordAtom (sectionOffset : Nat) : RunAtom Unit where
  finalAddress := none
  sectionOffset := sectionOffset
  fixups := [⟨⟨.storeTargetAddressLittleEndian32, some (), false, fun _ => rfl⟩, 0, true, true⟩]

def wordSection (offsets : List Nat) : RunSection Unit where
  address := 0x1000
  atoms := offsets.map wordAtom

theorem word_section_fixups (offsets : List Nat) : sectionFixups (wordSection offsets) =
      offsets.map fun offset => (0x1000 + offset + 0) % 2 ^ 32 := by
  have word : ∀ offset, countOffsets {} (wordAtom offset).fixups = [0] := fun _ => rfl
  rw [sectionFixups, wordSection, flatMap_map]
  simp only [word, mergeSort_singleton, map_singleton]
  exact flatMap_pure_eq_map _ _

theorem word_section_sites {offsets sites : List Nat}
    (isSites : (offsets.map fun offset => (0x1000 + offset + 0) % 2 ^ 32) = sites)
    (ordered : sites.IsChain (· < ·) ∧ ∀ site ∈ sites, site % 4 = 0 ∧ site < 2 ^ 32) :
    Sites (sectionFixups (wordSection offsets)) := by
  rw [word_section_fixups, isSites]
  exact ⟨isChain_iff_pairwise.mp ordered.1, fun site isIn => (ordered.2 site isIn).1,
    fun site isIn => (ordered.2 site isIn).2⟩

theorem two_words_read_back : ∃ base, ReadsBack (fun skip => skip + base) (wordSection [0, 12]) := by
  apply (skipped_words_iff (word_section_sites rfl (by decide))).mpr
  rintro ⟨⟨count, isRun, long⟩, _⟩
  rw [word_section_fixups] at isRun
  have ones : siteRuns ([0, 12].map fun offset => (0x1000 + offset + 0) % 2 ^ 32) = [1, 1] := rfl
  simp only [ones, mem_cons, not_mem_nil, or_false] at isRun
  omega

def brokenSection : RunSection Unit := wordSection ((List.range 256).map (4 * ·) ++ [4 * 257])

theorem broken_sites : Sites (sectionFixups brokenSection) :=
  word_section_sites rfl (by decide +kernel)

/-- The bytes are 255, 0, 1, 2, 1: the first skip is right only when words are skipped from the
end of the run, the second one only from the last pointer. -/
theorem broken_section_not_read : Sites (sectionFixups brokenSection) ∧
      ∀ base, ¬ ReadsBack (fun skip => skip + base) brokenSection := by
  refine ⟨broken_sites, fun base reads => ?_⟩
  obtain ⟨ones, skips⟩ := (reads_back_far broken_sites).mp reads
  have one := ones 256 (by decide +kernel) (by decide)
  have skip := skips 2 (by decide +kernel) (by decide)
  omega

end DeveloperTools.Ld64.RebaseRuns
