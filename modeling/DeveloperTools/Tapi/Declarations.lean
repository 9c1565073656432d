import Mathlib.Data.List.MinMax
import DeveloperTools.Tapi.SymbolConverter

/-!
A global that is declared more than once. `addGlobal` keeps the greatest linkage but the least
access, where `updateAPIRecord` keeps the greatest access.
-/

namespace DeveloperTools.Tapi.Declarations

open List

inductive APIAccess
  | unknown | project | «private» | «public»
  deriving DecidableEq

def APIAccess.rank : APIAccess → Nat
  | .unknown => 0
  | .project => 1
  | .private => 2
  | .public => 3

theorem APIAccess.rank_injective : Function.Injective rank := by
  intro left right
  cases left <;> cases right <;> simp [rank]

structure GlobalRecord extends APIRecord where
  access : APIAccess

def updateAPIAccess (access : APIAccess) (record : GlobalRecord) : GlobalRecord :=
  if record.access.rank ≤ access.rank then record else { record with access }

/-- What a call of `addGlobal` says about a name. -/
structure Declaration where
  access : APIAccess
  linkage : Linkage

def create (name : Text) (declaration : Declaration) : GlobalRecord :=
  { name, linkage := declaration.linkage, access := declaration.access }

def update (record : GlobalRecord) (declaration : Declaration) : GlobalRecord :=
  let record := updateAPIAccess declaration.access record
  { record with toAPIRecord := updateAPILinkage declaration.linkage record.toAPIRecord }

def addGlobal (name : Text) (globals : Text → Option GlobalRecord) (declaration : Declaration) :
    Text → Option GlobalRecord :=
  Function.update globals name <|
    some (update ((globals name).getD (create name declaration)) declaration)

/-- `SDKDBBuilder::updateAPIRecord`, as far as it is about the access. -/
def updateAPIRecord (base record : GlobalRecord) : GlobalRecord :=
  if base.access.rank < record.access.rank then { base with access := record.access } else base

section

variable (record : GlobalRecord) (declaration : Declaration)

theorem update_access : (update record declaration).access =
    if declaration.access.rank < record.access.rank then declaration.access
    else record.access := by
  simp only [update, updateAPIAccess, ← Nat.not_lt]
  split_ifs <;> rfl

theorem update_linkage : (update record declaration).linkage =
    if record.linkage.rank < declaration.linkage.rank then declaration.linkage
    else record.linkage := by
  simp only [update, updateAPIAccess, updateAPILinkage, ge_iff_le, ← Nat.not_lt]
  split_ifs <;> rfl

theorem update_record_access (base : GlobalRecord) : (updateAPIRecord base record).access =
    if base.access.rank < record.access.rank then record.access else base.access :=
  apply_ite ..

end

theorem kept (name : Text) (first : Declaration) (rest : List Declaration) :
    ((first :: rest).map (·.access)).argmin APIAccess.rank =
        some (rest.foldl update (create name first)).access ∧
      ((first :: rest).map (·.linkage)).argmax Linkage.rank =
        some (rest.foldl update (create name first)).linkage ∧
      ((first :: rest).map (·.access)).argmax APIAccess.rank =
        some ((rest.map (create name)).foldl updateAPIRecord (create name first)).access := by
  induction rest using reverseRecOn with
  | nil => simp [create]
  | append_singleton rest last ih =>
    obtain ⟨least, linkage, greatest⟩ := ih
    simp only [← cons_append, map_append, map_singleton, foldl_append, argmin_concat,
      argmax_concat, least, linkage, greatest, foldl_cons, foldl_nil, update_access,
      update_linkage, update_record_access, apply_ite some, true_and]
    rfl

theorem add_globals {name : Text} {globals : Text → Option GlobalRecord} {base : GlobalRecord}
    (present : globals name = some base) (declarations : List Declaration) :
    declarations.foldl (addGlobal name) globals name = some (declarations.foldl update base) := by
  induction declarations generalizing globals base with
  | nil => exact present
  | cons declaration rest ih =>
    rw [foldl_cons, foldl_cons]
    exact ih (by simp [addGlobal, present])

theorem add_first (name : Text) (first : Declaration) :
    addGlobal name (fun _ => none) first name = some (create name first) := by
  simp [addGlobal, create, update, updateAPIAccess, updateAPILinkage]

/-- The record has the greatest access and linkage, the access that `updateAPIRecord` would have
kept, exactly when the declarations do not differ in their access. -/
theorem most_public_iff (name : Text) (first : Declaration) (rest : List Declaration) :
    (∃ record, (first :: rest).foldl (addGlobal name) (fun _ => none) name = some record ∧
      record.access ∈ (first :: rest).map (·.access) ∧
      record.linkage ∈ (first :: rest).map (·.linkage) ∧
      (∀ declaration ∈ first :: rest, declaration.access.rank ≤ record.access.rank ∧
        declaration.linkage.rank ≤ record.linkage.rank) ∧
      record.access = ((rest.map (create name)).foldl updateAPIRecord (create name first)).access) ↔
      ∀ declaration ∈ rest, declaration.access = first.access := by
  have final := add_globals (add_first name first) rest
  rw [foldl_cons, final]
  obtain ⟨least, linkage, greatest⟩ := kept name first rest
  have lower := fun access member => le_of_mem_argmin (a := access) member least
  constructor
  · rintro ⟨record, same, _, _, most, _⟩
    cases same
    intro declaration member
    apply APIAccess.rank_injective
    have below := lower _ (mem_map_of_mem (.tail _ member))
    have above := (most declaration (.tail _ member)).1
    have belowFirst := lower _ (mem_map_of_mem mem_cons_self)
    have aboveFirst := (most first mem_cons_self).1
    omega
  · intro equal
    have only : ∀ access ∈ (first :: rest).map (·.access), access = first.access := by
      simpa using equal
    have member := argmin_mem least
    refine ⟨_, rfl, member, argmax_mem linkage, fun declaration listed => ⟨?_, ?_⟩, ?_⟩
    · rw [only _ member, only _ (mem_map_of_mem listed)]
    · exact le_of_mem_argmax (mem_map_of_mem listed) linkage
    · rw [only _ member, only _ (argmax_mem greatest)]

/-- A private declaration after a public one makes the global private. -/
theorem public_then_private :
    [⟨.public, .exported⟩, ⟨.private, .exported⟩].foldl (addGlobal ['f']) (fun _ => none) ['f'] =
      some { name := ['f'], linkage := .exported, access := .private } ∧
    (updateAPIRecord (create ['f'] ⟨.public, .exported⟩)
      (create ['f'] ⟨.private, .exported⟩)).access = .public :=
  ⟨rfl, rfl⟩

end DeveloperTools.Tapi.Declarations
