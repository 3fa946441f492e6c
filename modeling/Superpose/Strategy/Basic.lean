/-!
# Collapse strategies

A register collapses the results of its completed qubits into one value. `Strategy` names the
thirteen ways of doing so, in a fixed order (`Strategy.all`, `Strategy.index`), and
`Strategy.requirements` says which pieces of configuration each one depends on.
-/

namespace Superpose

/-- A way of reducing the results of a register to one value. -/
inductive Strategy where
  /-- The result of the lowest completed qubit. -/
  | firstWins
  /-- The result of the highest completed qubit. -/
  | lastWins
  /-- The result of highest score. -/
  | best
  /-- The result that most others equal. -/
  | vote
  /-- A reduction of all results by the register's combiner. -/
  | combine
  /-- The first result, provided that all others equal it. -/
  | validate
  /-- A reduction of all results by the register's custom rule. -/
  | custom
  /-- The result of highest score, or now and then a draw weighted by score. -/
  | fuzzy
  /-- The result of highest score, found by climbing from the first one. -/
  | progressive
  /-- The first result, unless the others contradict it. -/
  | speculative
  /-- The result of highest weighted quality, speed and resource score. -/
  | multiDim
  /-- The result of highest score after blending in its trend. -/
  | temporal
  /-- The choice of a weighted panel of other strategies. -/
  | ensemble
  deriving DecidableEq, Inhabited

/-- A piece of configuration that a strategy may depend on. -/
inductive Requirement where
  /-- A function that scores a result. -/
  | evaluator
  /-- A reduction of all results. -/
  | combiner
  /-- A custom reduction of all results. -/
  | customCollapse
  /-- Three weighted scoring dimensions. -/
  | criteria
  /-- A history of scores. -/
  | trend
  | panel
  deriving DecidableEq, Inhabited

namespace Strategy

/-- All strategies in index order. -/
def all : List Strategy :=
  [firstWins, lastWins, best, vote, combine, validate, custom, fuzzy, progressive, speculative,
    multiDim, temporal, ensemble]

/-- The number of strategies. -/
def count : Nat := 13

/-- The position of a strategy in `all`. -/
def index : Strategy → Nat
  | firstWins => 0
  | lastWins => 1
  | best => 2
  | vote => 3
  | combine => 4
  | validate => 5
  | custom => 6
  | fuzzy => 7
  | progressive => 8
  | speculative => 9
  | multiDim => 10
  | temporal => 11
  | ensemble => 12

/-- The strategy at a position of `all`. -/
def ofIndex? (i : Nat) : Option Strategy := all[i]?

/-- The name under which messages and configuration texts know a strategy. -/
def name : Strategy → String
  | firstWins => "FirstWins"
  | lastWins => "LastWins"
  | best => "Best"
  | vote => "Vote"
  | combine => "Combine"
  | validate => "Validate"
  | custom => "Custom"
  | fuzzy => "Fuzzy"
  | progressive => "Progressive"
  | speculative => "Speculative"
  | multiDim => "MultiDim"
  | temporal => "Temporal"
  | ensemble => "Ensemble"

def ofName? (s : String) : Option Strategy := all.find? fun t => t.name == s

/-- What must be configured before a strategy can run, in the order in which gaps are reported. -/
def requirements : Strategy → List Requirement
  | firstWins | lastWins | vote | validate | progressive => []
  | best | fuzzy | speculative => [.evaluator]
  | combine => [.combiner]
  | custom => [.customCollapse]
  | multiDim => [.criteria]
  | temporal => [.evaluator, .trend]
  | ensemble => [.panel]

/-- Whether a panel asks a member of this strategy for a choice of its own. Any other member votes
for the first result. -/
def votesInline : Strategy → Bool
  | firstWins | lastWins | best | fuzzy | multiDim | temporal => true
  | vote | combine | validate | custom | progressive | speculative | ensemble => false

theorem length_all : all.length = count := rfl

theorem index_lt (s : Strategy) : s.index < count := by cases s <;> decide

theorem ofIndex?_index (s : Strategy) : ofIndex? s.index = some s := by cases s <;> rfl

theorem ofName?_name (s : Strategy) : ofName? s.name = some s := by cases s <;> decide

theorem mem_all (s : Strategy) : s ∈ all := by cases s <;> decide

end Strategy

namespace Requirement

def all : List Requirement := [evaluator, combiner, customCollapse, criteria, trend, panel]

/-- The name under which messages know a requirement. -/
def name : Requirement → String
  | evaluator => "Evaluator"
  | combiner => "Combiner"
  | customCollapse => "CustomCollapse"
  | criteria => "MultiDimCriteria"
  | trend => "TemporalHistory"
  | panel => "EnsembleConfig"

def ofName? (s : String) : Option Requirement := all.find? fun r => r.name == s

end Requirement

end Superpose
