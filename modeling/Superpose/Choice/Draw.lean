import Superpose.Choice.Greatest

/-!
# Weighted draws

A fuzzy choice is a draw that depends on nothing but the scores: a congruential generator, seeded
with the score of the first result, gives a percentage. Most percentages take the best result, the
others walk over the scores until the drawn share of their total is reached. Totals are words that
wrap around, without overflow checks (see `Superpose.Checked`), which takes millions of scores.
-/

namespace Superpose.Choice

/-- One step of the congruential generator `1103515245 x + 12345` on 32-bit words. -/
def congruential (seed : Int32) : UInt32 :=
  seed.toUInt32 * 1103515245 + 12345

/-- The percentage drawn from a seed: the high half of the generated word modulo 100. -/
def percentage (seed : Int32) : Nat :=
  (congruential seed).toNat / 65536 % 100

/-- The percentages below this one take the best result outright. -/
def exploitBelow : Nat := 70

/-- The sum of the scores as a 64-bit word. -/
def total (scores : List Int32) : Int64 :=
  scores.foldl (fun sum s => sum + s.toInt64) 0

/-- The position of the first score at which the running sum reaches the target. -/
def reach? (target : Int64) : (sum : Int64) → (next : Nat) → List Int32 → Option Nat
  | _, _, [] => none
  | sum, next, s :: ss =>
    if target ≤ sum + s.toInt64 then some next else reach? target (sum + s.toInt64) (next + 1) ss

/-- The choice among scored results for a drawn percentage: the best result for a low draw, else
the result at which the drawn share of a positive total is reached, else the draw modulo the number
of results. -/
def drawn (draw : Nat) (scores : List Int32) : Nat :=
  if draw < exploitBelow then firstGreatest (scores.map Int32.toInt)
  else if 0 < total scores then
    (reach? (Int64.ofNat draw * total scores / 100) 0 0 scores).getD 0
  else draw % scores.length

/-- The draw among the results that the score of the first one seeds. -/
def fuzzy {α : Type} (score : α → Int32) (results : List α) : Nat :=
  match results.map score with
  | [] => 0
  | s :: ss => drawn (percentage s) (s :: ss)

end Superpose.Choice
