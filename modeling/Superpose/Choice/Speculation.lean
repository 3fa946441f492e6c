import Superpose.Choice.Greatest

/-!
# Speculation

A speculative choice takes the first result for the answer and looks at the others for support. A
result that scores at least nine tenths of the guess confirms it, any other contradicts it. The
guess falls only to a majority of contradictions, and only in favour of a higher score.
-/

namespace Superpose.Choice

/-- A score as a binary64 number, which holds it exactly. -/
def scoreFloat (score : Int32) : Float :=
  if score < 0 then -(score.toInt.natAbs.toUInt64.toFloat) else score.toInt.natAbs.toUInt64.toFloat

/-- Whether a score supports the guess: it reaches nine tenths of the guess's score. -/
def confirms (guess score : Int32) : Bool :=
  decide (scoreFloat guess * 0.9 ≤ scoreFloat score)

/-- The scores that contradict the guess, each with its position; the first stands at `next`. -/
def contradictions (guess : Int32) (next : Nat) (scores : List Int32) : List (Int32 × Nat) :=
  (scores.zipIdx next).filter fun s => !confirms guess s.1

/-- The first of the contradicting scores that are greatest. -/
def strongest (contrary : List (Int32 × Nat)) : Option (Int32 × Nat) :=
  contrary[firstGreatest (contrary.map fun s => s.1.toInt)]?

/-- The choice between a guess and the scores of the other results. -/
def speculate (guess : Int32) (others : List Int32) : Nat :=
  let contrary := contradictions guess 1 others
  match strongest contrary with
  | none => 0
  | some (score, index) =>
    if others.length - contrary.length < contrary.length ∧ guess < score then index else 0

/-- The first result, unless the others outvote and outscore it. -/
def speculative {α : Type} (score : α → Int32) (results : List α) : Nat :=
  match results.map score with
  | [] => 0
  | guess :: others => speculate guess others

end Superpose.Choice
