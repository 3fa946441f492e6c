import Superpose.Choice.Greatest

/-!
# Trends

A temporal choice does not compare scores as they are but blends each one with its change since the
last choice. `Trend` keeps the scores of the last choice by position, in a window of fixed size. A
blend is taken on words that wrap around, without overflow checks (see `Superpose.Checked`); shares
from 0 to 100 percent never come to that.
-/

namespace Superpose.Choice

/-- The scores and times of earlier choices, by position. -/
structure Trend where
  /-- The score last recorded at each position. -/
  scores : List Int32
  times : List UInt64
  /-- The number of positions that hold a recorded score. -/
  recorded : Nat
  window : Nat
  /-- The share of the trend in a blended score, in percent. -/
  weight : Int32
  deriving DecidableEq

namespace Trend

def ofWindow (window : Nat) (weight : Int32) : Trend where
  scores := List.replicate window 0
  times := List.replicate window 0
  recorded := 0
  window := window
  weight := weight

/-- Blends the present score at a position with its change since the last record: the score and the
score continued by its change are weighed against each other. Where nothing is recorded the score
stays as it is. -/
def blend (t : Trend) (index : Nat) (current : Int32) : Int64 :=
  match t.scores[index]? with
  | none => current.toInt64
  | some past =>
    if t.recorded ≤ index then current.toInt64
    else
      let now := current.toInt64
      let change := now - past.toInt64
      (now * (100 - t.weight.toInt64) + (now + change) * t.weight.toInt64) / 100

/-- Overwrites the first positions with new scores, as far as the window reaches. -/
def record (t : Trend) (scores : List Int32) (now : UInt64) : Trend :=
  let stored := min scores.length t.window
  { t with
    scores := scores.take stored ++ t.scores.drop stored
    times := List.replicate stored now ++ t.times.drop stored
    recorded := max t.recorded stored }

/-- Forgets what was recorded; window and weight stay. -/
def clear (t : Trend) : Trend :=
  { t with
    scores := t.scores.map fun _ => 0
    times := t.times.map fun _ => 0
    recorded := 0 }

/-- The blended scores, the first of which stands at `next`. -/
def blendAll (t : Trend) : (next : Nat) → List Int32 → List Int
  | _, [] => []
  | next, s :: ss => (t.blend next s).toInt :: blendAll t (next + 1) ss

/-- The first score whose blend is greatest. -/
def choose (t : Trend) (scores : List Int32) : Nat := firstGreatest (t.blendAll 0 scores)

end Trend

end Superpose.Choice
