import Superpose.Fault.Basic
import Superpose.Choice.Greatest

/-!
# Agreement

Two strategies look only at which results are equal. `validate` demands that every result equals the
first one. `vote` sorts the results into blocs of equals, each known by its first member, and takes
the largest bloc. Equality is whatever `==` says: nothing here assumes that a value equals itself.
-/

namespace Superpose.Choice

variable {α : Type} [BEq α]

/-- The position, counted from `next`, of the first result that differs from a given one. -/
def firstDeviation (model : α) : (next : Nat) → List α → Option Nat
  | _, [] => none
  | next, r :: rs => if r == model then firstDeviation model (next + 1) rs else some next

/-- Checks that every result equals the first one. -/
def validate : List α → Except CollapseFault Unit
  | [] => .ok ()
  | r :: rs =>
    match firstDeviation r 1 rs with
    | none => .ok ()
    | some index => .error (.mismatch index)

/-- Results that equal the first of them. -/
structure Bloc (α : Type) where
  /-- Where the first member stands. -/
  index : Nat
  member : α
  votes : Nat

/-- Adds a result to the first bloc whose first member equals it, or opens a bloc for it. -/
def enrol (index : Nat) (result : α) : List (Bloc α) → List (Bloc α)
  | [] => [⟨index, result, 1⟩]
  | b :: bs =>
    if b.member == result then { b with votes := b.votes + 1 } :: bs
    else b :: enrol index result bs

/-- Enrols results, the first of which stands at `next`. -/
def enrolAll : List (Bloc α) → (next : Nat) → List α → List (Bloc α)
  | blocs, _, [] => blocs
  | blocs, next, r :: rs => enrolAll (enrol next r blocs) (next + 1) rs

/-- The first member of the largest bloc; of two or more results, two at least must agree. -/
def vote (results : List α) : Except CollapseFault Nat :=
  let blocs := enrolAll [] 0 results
  match blocs[firstGreatest (blocs.map fun b => (b.votes : Int))]? with
  | none => .error .noResults
  | some winner =>
    if 1 < results.length ∧ winner.votes < 2 then
      .error (.noConsensus winner.votes results.length)
    else .ok winner.index

end Superpose.Choice
