import Mathlib.Data.List.Forall2
import Mathlib.Data.Fintype.Card
import DeveloperTools.Lib.Bisimulation

/-!
The pass keeps the first of several auto-hide functions that it finds equal and
makes the others aliases of it. Two functions are equal when their bytes and
fixups are, where calls may lead to different functions that are equal again;
the comparison is cut where both callees are already being compared.
-/

namespace DeveloperTools.Ld64.CodeDedup

inductive Kind where
  | storeTargetAddressARM64Branch26
  | storeTargetAddressX86BranchPCRel32
  | addAddend
  | subtractAddend
  | other (code : Nat)
deriving DecidableEq, Repr

/-- The binding of a fixup with what its union holds under it. -/
inductive Binding (Atom : Type) where
  | none (addend : BitVec 64)
  | byNameUnbound (name : List (BitVec 8))
  | byContentBound (target : Atom)
  | directlyBound (target : Atom)
  | indirectlyBound (bindingIndex : Nat)
deriving DecidableEq, Repr

structure Fixup (Atom : Type) where
  offsetInAtom : Nat
  kind : Kind
  clusterSize : Nat
  binding : Binding Atom
deriving DecidableEq, Repr

inductive SectionType where
  | code
  | other (code : Nat)
deriving DecidableEq, Repr

structure AtomData (Atom : Type) where
  name : List (BitVec 8)
  isCString : Bool
  sectionType : SectionType
  autoHide : Bool
  content : List (BitVec 8)
  fixups : List (Fixup Atom)
deriving Repr

/-- The atoms of a link with the table of indirect bindings, and those of the text section in
order. -/
structure Link (count : Nat) where
  atom : Fin count → AtomData (Fin count)
  indirectBindingTable : Nat → Fin count
  textAtoms : List (Fin count)

section Comparison

variable {count : Nat} (link : Link count)

abbrev BackChain (count : Nat) := List (Fin count × Fin count)

def target (fixup : Fixup (Fin count)) : Option (Fin count) :=
  match fixup.binding with
  | .directlyBound target => some target
  | .indirectlyBound bindingIndex => some (link.indirectBindingTable bindingIndex)
  | .none _ | .byNameUnbound _ | .byContentBound _ => none

def isCall (kind : Kind) : Bool :=
  match kind with
  | .storeTargetAddressARM64Branch26 | .storeTargetAddressX86BranchPCRel32 => true
  | .addAddend | .subtractAddend | .other _ => false

/-- One more byte; a `char` is signed. -/
def hashChar (hash : BitVec 64) (char : BitVec 8) : BitVec 64 := hash * 33#64 + char.signExtend 64

def hashByte (hash : BitVec 64) (byte : BitVec 8) : BitVec 64 := hash * 33#64 + byte.setWidth 64

/-- The name that stands for a target: for a string its content. -/
def targetName (target : Fin count) : List (BitVec 8) :=
  let data := link.atom target
  if data.isCString then data.content.takeWhile (· ≠ 0#8) else data.name

def hashFixup (hash : BitVec 64) (fixup : Fixup (Fin count)) : BitVec 64 :=
  match target link fixup with
  | none => hash
  | some target =>
    -- calls to auto-hide functions are left out, they might be de-dup'ed
    if isCall fixup.kind && (link.atom target).autoHide then hash
    else (targetName link target).foldl hashChar hash

/-- The size is truncated to 32 bits. -/
def hash (atom : Fin count) : BitVec 64 :=
  let data := link.atom atom
  let instructionBytes := data.content.length % 2 ^ 32
  data.fixups.foldl (hashFixup link)
    ((data.content.take instructionBytes).foldl hashByte (BitVec.ofNat 64 instructionBytes))

def inCallChain (chain : BackChain count) (target : Fin count) : Bool :=
  chain.any fun pair => pair.1 = target || pair.2 = target

/-- The bindings are of one sort, and of a sort the comparison knows. -/
def sameBindingSort {Atom : Type} (left right : Binding Atom) : Bool :=
  match left, right with
  | .directlyBound _, .directlyBound _ => true
  | .indirectlyBound _, .indirectlyBound _ => true
  | .none _, .none _ => true
  | _, _ => false

def sameFixup (f1 f2 : Fixup (Fin count)) : Bool :=
  f1.offsetInAtom = f2.offsetInAtom && f1.kind = f2.kind &&
    (if f1.kind = .addAddend ∨ f1.kind = .subtractAddend then f1.binding = f2.binding else true) &&
    f1.clusterSize = f2.clusterSize && sameBindingSort f1.binding f2.binding

/-- The body of the loop over the fixups: whether it goes on. The comparison of callees is
given. -/
def sameTargets (equal : BackChain count → Fin count → Fin count → Option Bool)
    (chain : BackChain count) (f1 f2 : Fixup (Fin count)) : Option Bool :=
  if !sameFixup f1 f2 then some false
  else
    match target link f1, target link f2 with
    | some target1, some target2 =>
      if target1 = target2 then some true
      else if !isCall f1.kind then some false
      else if (link.atom target1).sectionType ≠ .code ∨
          (link.atom target2).sectionType ≠ .code then some false
      -- callees that are already being compared are not compared again
      else if inCallChain chain target1 ∧ inCallChain chain target2 then some true
      else equal ((target1, target2) :: chain) target1 target2
    | _, _ => some true

def sameFixups (equal : BackChain count → Fin count → Fin count → Option Bool)
    (chain : BackChain count) : List (Fixup (Fin count)) → List (Fixup (Fin count)) → Option Bool
  | [], [] => some true
  | f1 :: rest1, f2 :: rest2 =>
    (sameTargets link equal chain f1 f2).bind fun same =>
      if same then sameFixups equal chain rest1 rest2 else some false
  | [], _ :: _ | _ :: _, [] => some false

/-- The recursion on callees; `none` is out of fuel. -/
def equal : Nat → BackChain count → Fin count → Fin count → Option Bool
  | 0, _, _, _ => none
  | fuel + 1, chain, atom1, atom2 =>
    if (link.atom atom1).content.length ≠ (link.atom atom2).content.length then some false
    else if hash link atom1 ≠ hash link atom2 then some false
    else if (link.atom atom1).content ≠ (link.atom atom2).content then some false
    else if (link.atom atom1).fixups.length ≠ (link.atom atom2).fixups.length then some false
    else sameFixups link (equal fuel) chain (link.atom atom1).fixups (link.atom atom2).fixups

/-- `atom_equal::operator()`. The root pair is not on the chain that `inCallChain` walks. -/
def atomEqual (atom1 atom2 : Fin count) : Bool := (equal link (count + 1) [] atom1 atom2).getD false

/-- The order in which the hash table looks at the keys it holds. -/
structure TableOrder (count : Nat) where
  order : List (Fin count) → List (Fin count)
  perm : ∀ keys, (order keys).Perm keys

abbrev DupMap (count : Nat) := List (Fin count × List (Fin count))

variable (table : TableOrder count)

def addAtom (map : DupMap count) (atom : Fin count) : DupMap count :=
  match (table.order (map.map Prod.fst)).find? fun key => atomEqual link key atom with
  | some key => map.map fun entry => if entry.1 = key then (entry.1, entry.2 ++ [atom]) else entry
  | none => map ++ [(atom, [atom])]

def buildMap : DupMap count :=
  link.textAtoms.foldl (fun map atom =>
    if (link.atom atom).content.length = 0 then map
    else if (link.atom atom).autoHide then addAtom link table map atom
    else map) []

def replacements : List (Fin count × Fin count) :=
  (buildMap link table).flatMap fun (masterAtom, dups) =>
    if dups.length = 1 then []
    else (dups.filter (· ≠ masterAtom)).map fun dupAtom => (dupAtom, masterAtom)

end Comparison

end DeveloperTools.Ld64.CodeDedup
