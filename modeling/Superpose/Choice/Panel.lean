import Superpose.Strategy.Basic

/-!
# Panels

A panel is a short list of strategies, each with a positive weight, that vote on the result to
choose. How its members vote is the matter of `Superpose.Choice.Ballot`.
-/

namespace Superpose.Choice

/-- A strategy with the weight of its vote. -/
structure Member where
  strategy : Strategy
  weight : Int32
  deriving DecidableEq

/-- The strategies that vote on a result. -/
structure Panel where
  members : List Member
  deriving DecidableEq

namespace Panel

/-- The greatest number of members. -/
def seats : Nat := 3

/-- The panel of the first members of positive weight, as many as there are seats. -/
def ofMembers (members : List Member) : Panel where
  members := (members.filter fun m => decide (0 < m.weight)).take seats

/-- Whether the panel has no member. -/
def isEmpty (p : Panel) : Bool := p.members.isEmpty

end Panel

end Superpose.Choice
