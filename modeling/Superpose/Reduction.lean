import Superpose.Choice.Agreement
import Superpose.Choice.Ballot
import Superpose.Choice.Speculation

/-!
# Reduction

`reduce` runs one strategy over the results of a register. Most strategies select one of the
results, which then becomes the output; a combiner and a custom rule compute the output from all of
them. Only a temporal choice that succeeds changes the history of scores. What is computed from
scores wraps around, as it does without overflow checks (see `Superpose.Checked`).
-/

namespace Superpose

open Choice

/-- What a strategy made of the results. -/
structure Reduced (α : Type) where
  /-- The result that was selected, if the strategy selects one, or why there is no value. -/
  verdict : Except CollapseFault (Option Nat)
  output : α
  trend : Option Trend

/-- How a strategy goes about choosing. -/
inductive Ruling (α : Type) where
  | refuse (fault : CollapseFault)
  | select (index : Nat)
  /-- The result at an index, with the scores to be recorded. -/
  | selectRecording (index : Nat) (trend : Trend)
  | compute (value : α)

/-- What a strategy rules on the results. -/
def ruling {α : Type} [BEq α] (strategy : Strategy) (results : List α) (output : α)
    (tools : Toolkit α) (now : UInt64) : Ruling α :=
  match strategy with
  | .firstWins => .select 0
  | .lastWins => .select (results.length - 1)
  | .best =>
    match tools.evaluator with
    | none => .refuse (.missing strategy .evaluator)
    | some score => .select (best score results)
  | .vote =>
    match vote results with
    | .error fault => .refuse fault
    | .ok index => .select index
  | .combine =>
    match tools.combiner with
    | none => .refuse (.missing strategy .combiner)
    | some combine => .compute (combine results output)
  | .validate =>
    match validate results with
    | .error fault => .refuse fault
    | .ok () => .select 0
  | .custom =>
    match tools.custom with
    | none => .refuse (.missing strategy .customCollapse)
    | some custom => .compute (custom results output)
  | .fuzzy =>
    match tools.evaluator with
    | none => .refuse (.missing strategy .evaluator)
    | some score => .select (fuzzy score results)
  | .progressive => .select (progressive tools.evaluator results)
  | .speculative =>
    match tools.evaluator with
    | none => .refuse (.missing strategy .evaluator)
    | some score => .select (speculative score results)
  | .multiDim =>
    match tools.criteria with
    | none => .refuse (.missing strategy .criteria)
    | some criteria => .select (weighted criteria results)
  | .temporal =>
    match tools.evaluator with
    | none => .refuse (.missing strategy .evaluator)
    | some score =>
      match tools.trend with
      | none => .refuse (.missing strategy .trend)
      | some trend =>
        .selectRecording (trend.choose (results.map score)) (trend.record (results.map score) now)
  | .ensemble =>
    match tools.panel with
    | none => .refuse (.missing strategy .panel)
    | some panel => .select (elected tools panel results)

/-- Runs a strategy over results: the output becomes the selected result or the computed value, and
on a refusal everything stays as it was. -/
def reduce {α : Type} [BEq α] (strategy : Strategy) (results : List α) (output : α)
    (tools : Toolkit α) (now : UInt64) : Reduced α :=
  if results.isEmpty then ⟨.error .noResults, output, tools.trend⟩
  else
    match ruling strategy results output tools now with
    | .refuse fault => ⟨.error fault, output, tools.trend⟩
    | .select index => ⟨.ok (some index), (results[index]?).getD output, tools.trend⟩
    | .selectRecording index trend => ⟨.ok (some index), (results[index]?).getD output, some trend⟩
    | .compute value => ⟨.ok none, value, tools.trend⟩

end Superpose
