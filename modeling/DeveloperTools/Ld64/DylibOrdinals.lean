import DeveloperTools.Ld64.ChainedBinds
import DeveloperTools.Lib.FailingFold

/-!
`OutputFile::buildDylibOrdinalMapping`. Imports that an older version of their library had under
another install name are moved to a synthetic dylib, behind the other dylibs. Dylibs with one
install path share the ordinal of the first.
-/

namespace DeveloperTools.Ld64.DylibOrdinals

open List FailingFold ChainedFixups

/-- A dylib of the link, or the one that is made for an install name. -/
inductive File (Ref : Type) where
  | given (dylib : Ref)
  | synthetic (installName : String)
deriving DecidableEq

structure Dylib where
  installPath : Option String
  willBeReExported : Bool
  hasPublicInstallName : Bool

/-- `generic::dylib::ExportAtom`. -/
structure ExportAtom (Ref : Type) where
  file : Ref
  installname : Option String

structure Link (Ref : Type) where
  dylib : Ref → Dylib
  dylibs : List Ref
  importProxies : List (ExportAtom Ref)
  bundleLoader : Option Ref
  -- the order of the addresses, in which a map is gone through
  notAfter : File Ref → File Ref → Bool

structure State (Ref : Type) where
  dylibsToLoad : List (File Ref) := []
  dylibToOrdinal : List (File Ref × Int) := []
deriving DecidableEq

variable {Ref : Type} [DecidableEq Ref]

def ExportAtom.newFile (atom : ExportAtom Ref) : File Ref :=
  match atom.installname with
  | some name => .synthetic name
  | none => .given atom.file

def redirect (found : List String × List Ref) (atom : ExportAtom Ref) : List String × List Ref :=
  match atom.installname with
  | some name =>
    if name ∈ found.1 then found else (found.1 ++ [name], atom.file :: found.2)
  | none => found

def State.assign (state : State Ref) (file : File Ref) (ordinal : Int) : State Ref :=
  { state with dylibToOrdinal := (file, ordinal) :: state.dylibToOrdinal.filter (·.1 ≠ file) }

def State.ordinal? (state : State Ref) (file : File Ref) : Option Int :=
  (state.dylibToOrdinal.find? (·.1 = file)).map Prod.snd

section Mapping

variable (link : Link Ref)

def Link.file : File Ref → Dylib
  | .given dylib => link.dylib dylib
  | .synthetic installName => ⟨some installName, false, false⟩

/-- The dylibs and then the synthetic ones, without dylibs of which nothing is left. -/
def Link.allDylibs : List (File Ref) :=
  let (syntheticDylibs, potentiallyDeadDylibs) := link.importProxies.foldl redirect ([], [])
  let dead := potentiallyDeadDylibs.filter fun dylib =>
    link.importProxies.all fun atom => atom.newFile ≠ .given dylib
  -- an ordered map is gone through by install name
  (link.dylibs.filter (· ∉ dead)).map .given ++
    (syntheticDylibs.insertionSort (· ≤ ·)).map .synthetic

def Link.reExportsPrivately (file : File Ref) : Bool :=
  (link.file file).willBeReExported && !(link.file file).hasPublicInstallName

def Link.nonPublicReExportCount : Nat :=
  link.dylibs.countP fun dylib => link.reExportsPrivately (.given dylib)

/-- The error stands for a comparison with no install path. -/
def Link.hasOrdinalForInstallPath (state : State Ref) (path : Option String) :
    Except Unit (Option Int) :=
  let entries := state.dylibToOrdinal.insertionSort fun left right => link.notAfter left.1 right.1
  let named := entries.filter fun entry => (link.file entry.1).installPath ≠ none
  if path = none ∧ named ≠ [] then .error ()
  else .ok ((named.find? fun entry => (link.file entry.1).installPath = path).map Prod.snd)

def Link.addDylib (state : State Ref) (file : File Ref) : Except Unit (State Ref) :=
  if link.bundleLoader.map .given = some file then .ok (state.assign file (-1))
  else do
    match ← link.hasOrdinalForInstallPath state (link.file file).installPath with
    | some ordinal => .ok (state.assign file ordinal)
    | none =>
      let loaded := { state with dylibsToLoad := state.dylibsToLoad ++ [file] }
      if link.reExportsPrivately file && link.nonPublicReExportCount ≥ 2 then
        .ok (loaded.assign file dylibSelf)
      else .ok (loaded.assign file loaded.dylibsToLoad.length)

def Link.buildDylibOrdinalMapping : Except Unit (State Ref) :=
  link.allDylibs.foldlM link.addDylib {}

/-- What is loaded under an ordinal has the install path of the dylib. -/
def Link.Loads (dylibsToLoad : List (File Ref)) (file : File Ref) (ordinal : Int) : Prop :=
  ∃ loaded, dylibsToLoad[ordinal.toNat - 1]? = some loaded ∧
    (link.file loaded).installPath = (link.file file).installPath

def Link.Numbered (state : State Ref) : Prop :=
  ∀ entry ∈ state.dylibToOrdinal, 0 < entry.2 → link.Loads state.dylibsToLoad entry.1 entry.2

end Mapping

variable {link : Link Ref} {state after : State Ref} {file : File Ref}

theorem Link.Numbered.assign (numbered : link.Numbered state) {ordinal : Int}
    (own : 0 < ordinal → link.Loads state.dylibsToLoad file ordinal) :
    link.Numbered (state.assign file ordinal) := by
  intro entry isIn positive
  rcases mem_cons.mp isIn with rfl | old
  · exact own positive
  · exact numbered entry (mem_filter.mp old).1 positive

omit [DecidableEq Ref] in
theorem Link.Numbered.load (numbered : link.Numbered state) :
    link.Numbered { state with dylibsToLoad := state.dylibsToLoad ++ [file] } := by
  intro entry isIn positive
  obtain ⟨loaded, isLoaded, same⟩ := numbered entry isIn positive
  obtain ⟨inside, -⟩ := List.getElem?_eq_some_iff.mp isLoaded
  exact ⟨loaded, (getElem?_append_left inside).trans isLoaded, same⟩

theorem add_dylib_numbered (numbered : link.Numbered state)
    (added : link.addDylib state file = .ok after) : link.Numbered after := by
  unfold Link.addDylib at added
  split at added
  · cases added
    exact numbered.assign nofun
  obtain ⟨found, searched, added⟩ := bind_ok added
  cases found with
  | some ordinal =>
    cases added
    apply numbered.assign
    intro positive
    unfold Link.hasOrdinalForInstallPath at searched
    dsimp only at searched
    split at searched
    · cases searched
    injection searched with found
    obtain ⟨entry, isFound, rfl⟩ := Option.map_eq_some_iff.mp found
    have isIn := (mem_insertionSort _).mp (mem_filter.mp (mem_of_find?_eq_some isFound)).1
    obtain ⟨loaded, isLoaded, same⟩ := numbered entry isIn positive
    have samePath : (link.file entry.1).installPath = (link.file file).installPath := by
      simpa using find?_some isFound
    exact ⟨loaded, isLoaded, same.trans samePath⟩
  | none =>
    dsimp only at added
    split at added
    · cases added
      exact numbered.load.assign nofun
    · cases added
      refine numbered.load.assign fun _ => ⟨file, ?_, rfl⟩
      simp

/-- A positive ordinal of an import is the number of a dylib with the install path of the one it
comes from. -/
theorem positive_ordinal_loads {Atom : Type} (writer : Writer Atom) (info : AtomInfo Atom)
    (built : link.buildDylibOrdinalMapping = .ok state)
    (mapped : ∀ dylib, info.file = some dylib → dylib.isDylib = true →
      dylib.ordinal = state.ordinal? file) {ordinal : Int}
    (returned : compressedOrdinalForAtom writer info = some ordinal) (positive : 0 < ordinal) :
    1 ≤ ordinal ∧ ordinal ≤ state.dylibsToLoad.length ∧
      link.Loads state.dylibsToLoad file ordinal := by
  have numbered : link.Numbered state := by
    refine foldlM_keeps link.Numbered (fun _ _ _ _ => add_dylib_numbered) ?_ built
    intro entry isIn
    cases isIn
  rcases compressed_ordinal_cases returned with special | ⟨dylib, isFile, isDylib, found⟩
  · omega
  rw [mapped dylib isFile isDylib] at found
  obtain ⟨entry, isFound, rfl⟩ := Option.map_eq_some_iff.mp found
  have loads := numbered entry (mem_of_find?_eq_some isFound) positive
  have same : entry.1 = file := by simpa using find?_some isFound
  rw [same] at loads
  have ⟨_, isLoaded, _⟩ := loads
  obtain ⟨inside, -⟩ := List.getElem?_eq_some_iff.mp isLoaded
  exact ⟨positive, by omega, loads⟩

/-- The first two dylibs have one install name, and all that is imported from the third was once
in other libraries. -/
def threeDylibs : Link Nat where
  dylib
    | 2 => ⟨some "/usr/lib/libnew.dylib", true, false⟩
    | _ => ⟨some "/usr/lib/libSystem.B.dylib", false, false⟩
  dylibs := [0, 1, 2]
  importProxies := [⟨1, none⟩, ⟨2, some "/usr/lib/libz.dylib"⟩, ⟨2, some "/usr/lib/liba.dylib"⟩]
  bundleLoader := none
  notAfter _ _ := true

def threeDylibsState : State Nat where
  dylibsToLoad := [.given 0, .synthetic "/usr/lib/liba.dylib", .synthetic "/usr/lib/libz.dylib"]
  dylibToOrdinal := [(.synthetic "/usr/lib/libz.dylib", 3), (.synthetic "/usr/lib/liba.dylib", 2),
    (.given 1, 1), (.given 0, 1)]

theorem three_dylibs_load : threeDylibs.buildDylibOrdinalMapping = .ok threeDylibsState ∧
    threeDylibs.Loads threeDylibsState.dylibsToLoad (.given 1) 1 ∧
    threeDylibs.Loads threeDylibsState.dylibsToLoad (.synthetic "/usr/lib/libz.dylib") 3 := by
  have built : threeDylibs.buildDylibOrdinalMapping = .ok threeDylibsState := by decide +kernel
  have imported (file : File Nat) (ordinal : Int) (positive : 0 < ordinal)
      (mapped : threeDylibsState.ordinal? file = some ordinal) :
      threeDylibs.Loads threeDylibsState.dylibsToLoad file ordinal :=
    (positive_ordinal_loads (twoImports .ptr64)
      { (twoImports .ptr64).atoms true with file := some ⟨false, true, some ordinal⟩ } built
      (by rintro _ ⟨⟩ _; exact mapped.symm) rfl positive).2.2
  exact ⟨built, imported _ _ (by decide) (by decide +kernel),
    imported _ _ (by decide) (by decide +kernel)⟩

end DeveloperTools.Ld64.DylibOrdinals
