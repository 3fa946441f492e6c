import Superpose.Fault.Basic
import Superpose.Choice.Criteria
import Superpose.Choice.Panel
import Superpose.Choice.Trend

/-!
# Toolkits

A strategy works with what its register is equipped with: the `Toolkit`. `Presence` records which
pieces are there, and `Presence.missing` is the first gap that keeps a strategy from running, found
without looking at any result.
-/

namespace Superpose

open Choice

/-- What a register is equipped with for collapsing its results. -/
structure Toolkit (α : Type) where
  evaluator : Option (α → Int32) := none
  /-- Reduces all results; it also gets the value that the output held before. -/
  combiner : Option (List α → α → α) := none
  /-- Reduces all results in a way of the caller's own. -/
  custom : Option (List α → α → α) := none
  criteria : Option (Criteria α) := none
  trend : Option Trend := none
  panel : Option Panel := none

/-- Which pieces of a toolkit are there. -/
structure Presence where
  evaluator : Bool := false
  combiner : Bool := false
  custom : Bool := false
  criteria : Bool := false
  trend : Bool := false
  panel : Bool := false
  deriving DecidableEq

/-- Which pieces a toolkit holds. -/
def Toolkit.presence {α : Type} (t : Toolkit α) : Presence where
  evaluator := t.evaluator.isSome
  combiner := t.combiner.isSome
  custom := t.custom.isSome
  criteria := t.criteria.isSome
  trend := t.trend.isSome
  panel := t.panel.isSome

namespace Presence

/-- Whether a requirement is met. -/
def has (p : Presence) : Requirement → Bool
  | .evaluator => p.evaluator
  | .combiner => p.combiner
  | .customCollapse => p.custom
  | .criteria => p.criteria
  | .trend => p.trend
  | .panel => p.panel

/-- The first requirement of a strategy itself that is not met. -/
def gap (p : Presence) (s : Strategy) : Option CollapseFault :=
  (s.requirements.find? fun r => !p.has r).map fun r => .missing s r

/-- The first gap among the members of a panel that make a choice of their own; a panel without
members is a gap itself. -/
def panelGap (p : Presence) (panel : Panel) : Option CollapseFault :=
  if panel.isEmpty then some (.missing .ensemble .panel)
  else (panel.members.filter fun m => m.strategy.votesInline).findSome? fun m => p.gap m.strategy

/-- What keeps a strategy from running: a gap of its own, or one of a member of the panel that it
would ask. -/
def missing (p : Presence) (panel? : Option Panel) (s : Strategy) : Option CollapseFault :=
  match p.gap s with
  | some fault => some fault
  | none => if s = .ensemble then panel?.bind p.panelGap else none

end Presence

/-- What keeps a strategy from running with a toolkit. -/
def Toolkit.missing {α : Type} (t : Toolkit α) (s : Strategy) : Option CollapseFault :=
  t.presence.missing t.panel s

/-- Whether a toolkit holds all that a strategy depends on. -/
def Toolkit.supports {α : Type} (t : Toolkit α) (s : Strategy) : Bool := (t.missing s).isNone

end Superpose
