import Mathlib.Tactic

/-!
Runs of records behind a count. A record may be written relative to the one in front of it, so
both directions carry a state that each record sets for the next.
-/

namespace DeveloperTools.CountedRuns

open List

abbrev Bytes := List UInt8

variable {Item Seen State : Type}

def encodeRun (encodeOne : State → Item → Bytes) (next : Item → State) : State → List Item → Bytes
  | _, [] => []
  | state, item :: rest => encodeOne state item ++ encodeRun encodeOne next (next item) rest

def decodeRun (decodeOne : State → Bytes → Option (Seen × Bytes)) (next : Seen → State) :
    Nat → State → Bytes → Option (List Seen × Bytes)
  | 0, _, bytes => some ([], bytes)
  | count + 1, state, bytes => do
    let (item, bytes) ← decodeOne state bytes
    let (rest, bytes) ← decodeRun decodeOne next count (next item) bytes
    some (item :: rest, bytes)

/-- Every item may follow the state that the one in front of it left. -/
def Follows (allowed : State → Item → Prop) (next : Item → State) : State → List Item → Prop
  | _, [] => True
  | state, item :: rest => allowed state item ∧ Follows allowed next (next item) rest

variable {items : List Item}

theorem decode_run {encodeOne : State → Item → Bytes}
    {decodeOne : State → Bytes → Option (Seen × Bytes)} (next : Item → State)
    (nextSeen : Seen → State) (view : Item → Seen) {allowed : State → Item → Prop}
    (agree : ∀ item, nextSeen (view item) = next item)
    (reads : ∀ state item suffix, allowed state item →
      decodeOne state (encodeOne state item ++ suffix) = some (view item, suffix)) {state : State}
    (follows : Follows allowed next state items) (suffix : Bytes) :
    decodeRun decodeOne nextSeen items.length state
        (encodeRun encodeOne next state items ++ suffix) =
      some (items.map view, suffix) := by
  induction items generalizing state with
  | nil => rfl
  | cons item rest ih =>
    rw [length_cons, encodeRun, decodeRun, append_assoc, reads state item _ follows.1]
    simp only [Option.bind_eq_bind, Option.bind_some, agree, ih follows.2, map_cons]

theorem follows_always (next : Item → State) (state : State) (items : List Item) :
    Follows (fun _ _ => True) next state items := by
  induction items generalizing state with
  | nil => trivial
  | cons item rest ih => exact ⟨trivial, ih _⟩

theorem follows_of_ordered {number : Item → Nat}
    (ordered : items.Pairwise fun left right => number left ≤ number right) (state : Nat)
    (above : ∀ item ∈ items, state ≤ number item) :
    Follows (fun last item => last ≤ number item) number state items := by
  induction items generalizing state with
  | nil => trivial
  | cons item rest ih =>
    obtain ⟨first, tail⟩ := pairwise_cons.mp ordered
    exact ⟨above item mem_cons_self, ih tail _ first⟩

end DeveloperTools.CountedRuns
