import Superpose.Checked

/-!
# Workloads

A `Workload` is a small description of what a register has to do and how its last run went. It is
the key under which experience with strategies is stored. Its mean and its variance are taken on
64-bit words, which `mean` and `spread` wrap around; `mean?` and `spread?` break off where one
overflows.
-/

namespace Superpose

/-- What a register has to do, in a few figures. -/
structure Workload where
  qubits : UInt32 := 0
  /-- The mean duration of the completed qubits in milliseconds. -/
  meanTime : UInt64 := 0
  /-- The mean squared deviation of those durations from their mean. -/
  variance : UInt64 := 0
  scored : Bool := false
  waitsForAll : Bool := false
  /-- The declared size of the input. -/
  dataSize : UInt64 := 0
  deriving DecidableEq

namespace Workload

/-- The mean of durations, rounded down; 0 if there is none. -/
def mean (durations : List UInt64) : UInt64 :=
  durations.foldl (· + ·) 0 / UInt64.ofNat durations.length

/-- The mean squared deviation of durations from their rounded mean, rounded down; 0 if there is
none. -/
def spread (durations : List UInt64) : UInt64 :=
  mean (durations.map fun d => (d - mean durations) * (d - mean durations))

/-- The mean of durations in a build with overflow checks. -/
def mean? (durations : List UInt64) : Option UInt64 :=
  (Checked.sum durations).map fun sum => sum / UInt64.ofNat durations.length

/-- The squared deviation of a duration from a mean in a build with overflow checks, which takes
both for signed numbers. -/
def square? (mean duration : UInt64) : Option UInt64 := do
  let difference ← Checked.signed (duration.toInt64.toInt - mean.toInt64.toInt)
  let square ← Checked.signed (difference.toInt * difference.toInt)
  return square.toUInt64

/-- The mean squared deviation of durations from a mean in a build with overflow checks. -/
def spread? (mean : UInt64) (durations : List UInt64) : Option UInt64 :=
  (durations.mapM (square? mean)).bind mean?

end Workload

end Superpose
