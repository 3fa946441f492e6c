import Superpose.Scale
import Superpose.Workload.Basic

/-!
# Likeness of workloads

Two workloads are alike as far as their figures agree. Each figure that can be compared contributes
a closeness between 0 and 1 with a weight of its own, and the likeness is the weighted mean over the
figures that were compared: the number of qubits always, times and sizes if both sides have them,
and each flag if the two sides agree on it.
-/

namespace Superpose.Workload

variable {K : Type} [Scale K]

/-- The smaller of two numbers over the larger one. -/
def ratio (x y : K) : K := if y < x then y / x else x / y

/-- The closeness of two numbers of qubits falls from 1 to 0 over a difference of ten. -/
def qubitCloseness (m n : UInt32) : K :=
  let difference : K := Scale.ofWord (if m < n then (n - m).toUInt64 else (m - n).toUInt64)
  if difference < 10.0 then 1.0 - difference / 10.0 else 0.0

/-- The closeness of two figures that both sides have, with its weight. -/
def ratioTerm (weight : K) (x y : UInt64) : List (K × K) :=
  if 0 < x ∧ 0 < y then [(ratio (Scale.ofWord x) (Scale.ofWord y), weight)] else []

/-- Full closeness of two flags that agree, with its weight. -/
def flagTerm (weight : K) (x y : Bool) : List (K × K) :=
  if x == y then [(1.0, weight)] else []

/-- The closeness and weight of every figure that can be compared. -/
def terms (a b : Workload) : List (K × K) :=
  (qubitCloseness a.qubits b.qubits, 0.30) :: ratioTerm 0.25 a.meanTime b.meanTime
    ++ flagTerm 0.15 a.scored b.scored
    ++ flagTerm 0.15 a.waitsForAll b.waitsForAll
    ++ ratioTerm 0.15 a.dataSize b.dataSize

/-- The weighted mean of closenesses, summed up from the left. -/
def weightedMean (terms : List (K × K)) : K :=
  let score := terms.foldl (fun sum t => sum + t.1 * t.2) 0.0
  let weight := terms.foldl (fun sum t => sum + t.2) 0.0
  if 0.0 < weight then score / weight else 0.0

/-- How alike two workloads are, from 0 to 1. -/
def similarity (a b : Workload) : K := weightedMean (terms a b)

end Superpose.Workload
