import Superpose.Choice.Draw
import Superpose.Toolkit

/-!
# Ballots of a panel

Each member of a panel names one result, by a choice of its own where its strategy has one and by
naming the first result otherwise. The result with the greatest weight of votes wins, the first one
among equals. A member whose strategy needs a piece that is not there names the first result too.
No member changes anything, so a temporal member reads the history and leaves it as it is.
-/

namespace Superpose.Choice

/-- The result that a simplified draw names: the best one, unless the percentage drawn from its
score leads elsewhere. -/
def simpleDraw {α : Type} (score : α → Int32) (results : List α) : Nat :=
  let top := best score results
  match results[top]? with
  | none => 0
  | some r =>
    let draw := (congruential (score r)).toNat % 100
    if exploitBelow ≤ draw then draw % results.length else top

/-- The result that a member of a panel names. -/
def nominee {α : Type} (tools : Toolkit α) (results : List α) : Strategy → Nat
  | .lastWins => results.length - 1
  | .best =>
    match tools.evaluator with
    | some score => best score results
    | none => 0
  | .fuzzy =>
    match tools.evaluator with
    | some score => simpleDraw score results
    | none => 0
  | .multiDim =>
    match tools.criteria with
    | some criteria => weighted criteria results
    | none => 0
  | .temporal =>
    match tools.evaluator, tools.trend with
    | some score, some trend => trend.choose (results.map score)
    | _, _ => 0
  | _ => 0

/-- The weight of the votes for each of so many results. -/
def tally (count : Nat) (ballots : List (Nat × Int32)) : List Int :=
  ballots.foldl (fun votes b => votes.modify b.1 (· + b.2.toInt)) (List.replicate count 0)

/-- The votes of the members of a panel. -/
def ballots {α : Type} (tools : Toolkit α) (panel : Panel) (results : List α) :
    List (Nat × Int32) :=
  panel.members.map fun m => (nominee tools results m.strategy, m.weight)

/-- The first result with the greatest weight of votes. -/
def elected {α : Type} (tools : Toolkit α) (panel : Panel) (results : List α) : Nat :=
  firstGreatest (tally results.length (ballots tools panel results))

end Superpose.Choice
