/-!
# The first greatest key

Most strategies choose the result whose key is greatest, and among equals the first. `scan` walks
over keys from a current best and adopts each key that is strictly greater; `firstGreatest` is the
walk over a whole list from its head, and `climb` walks over the same list several times.
-/

namespace Superpose.Choice

/-- A candidate for the greatest key: its position and its key. -/
structure Peak where
  index : Nat
  key : Int
  deriving DecidableEq

/-- Walks over the keys that stand at `next` and after it, and adopts each one that is strictly
greater than the best so far. -/
def scan : Peak → (next : Nat) → List Int → Peak
  | best, _, [] => best
  | best, next, k :: ks => scan (if best.key < k then ⟨next, k⟩ else best) (next + 1) ks

/-- The position of the first greatest key, and 0 if there is no key. -/
def firstGreatest : List Int → Nat
  | [] => 0
  | k :: ks => (scan ⟨0, k⟩ 1 ks).index

/-- The position reached from the head by so many walks over the other keys, each of which begins
with what the walk before it adopted. -/
def climb (walks : Nat) : List Int → Nat
  | [] => 0
  | k :: ks => (walks.repeat (fun best => scan best 1 ks) ⟨0, k⟩).index

/-- The first result of highest score. -/
def best {α : Type} (score : α → Int32) (results : List α) : Nat :=
  firstGreatest (results.map fun r => (score r).toInt)

def progressiveWalks : Nat := 3

/-- The result reached by climbing from the first one, which stays if nothing scores results. -/
def progressive {α : Type} (score? : Option (α → Int32)) (results : List α) : Nat :=
  match score? with
  | none => 0
  | some score => climb progressiveWalks (results.map fun r => (score r).toInt)

end Superpose.Choice
