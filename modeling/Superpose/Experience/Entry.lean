import Superpose.Strategy.Basic
import Superpose.Workload.Similarity

/-!
# What was learned about a workload

An `Entry` keeps, for one workload, a `Record` of how each strategy did on it, and how much it can
be relied on. The merit of a record is quality per time, scaled by the share of successes. Counters
and total times wrap around, as they do without overflow checks (see `Superpose.Checked`).
-/

namespace Superpose.Experience

variable {K : Type} [Scale K]

/-- How a strategy did on a workload. -/
structure Record (K : Type) where
  /-- How often it was used. -/
  uses : UInt32
  /-- How often it gave a value. -/
  successes : UInt32
  /-- The time that the runs took together, in milliseconds. -/
  totalTime : UInt64
  /-- A moving mean of the quality of the results. -/
  quality : K
  /-- The number of observations that came before its last use. -/
  lastUsed : UInt64

namespace Record

/-- The record of a strategy that was never used. -/
def empty : Record K := ⟨0, 0, 0, 0.0, 0⟩

/-- Quality per time, scaled by the share of successes. -/
def merit (r : Record K) : K :=
  if r.uses = 0 then 0.0
  else
    let uses : K := Scale.ofWord r.uses.toUInt64
    let successRate := Scale.ofWord r.successes.toUInt64 / uses
    let meanTime := Scale.ofWord r.totalTime / uses
    (r.quality * successRate) / (meanTime + 1.0)

/-- The record after one more use: `rate` is the share of the new quality in the moving mean. -/
def add (r : Record K) (rate : K) (success : Bool) (time : UInt64) (quality : K)
    (serial : UInt64) : Record K where
  uses := r.uses + 1
  successes := if success then r.successes + 1 else r.successes
  totalTime := r.totalTime + time
  quality := r.quality * (1.0 - rate) + quality * rate
  lastUsed := serial

end Record

/-- What was learned about one workload. -/
structure Entry (K : Type) where
  workload : Workload
  /-- The record of each strategy, by index. -/
  records : Vector (Record K) Strategy.count
  observations : UInt32
  /-- How far the records can be relied on, from 0 to 1. -/
  confidence : K

/-- How far so many observations can be relied on: a tenth for each of the first ten, and then all
but one part in their number. -/
def confidenceAfter (observations : UInt32) : K :=
  let n : K := Scale.ofWord observations.toUInt64
  if 10 ≤ observations then 1.0 - 1.0 / n else n / 10.0

namespace Entry

/-- An entry without observations. -/
def ofWorkload (w : Workload) : Entry K := ⟨w, Vector.replicate Strategy.count .empty, 0, 0.0⟩

def record (e : Entry K) (s : Strategy) : Record K := e.records.get ⟨s.index, s.index_lt⟩

/-- The entry with one strategy's record replaced, and one observation more. -/
def update (e : Entry K) (s : Strategy) (r : Record K) : Entry K where
  workload := e.workload
  records := e.records.set s.index r s.index_lt
  observations := e.observations + 1
  confidence := confidenceAfter (e.observations + 1)

/-- The strategy of greatest merit above a given one, among strategies in order. -/
def leader (e : Entry K) : Strategy × K → List Strategy → Strategy × K
  | top, [] => top
  | top, s :: ss =>
    e.leader (if top.2 < (e.record s).merit then (s, (e.record s).merit) else top) ss

/-- The strategy of greatest positive merit, and the first strategy if there is none. -/
def recommended (e : Entry K) : Strategy := (e.leader (.firstWins, 0.0) Strategy.all).1

end Entry

end Superpose.Experience
