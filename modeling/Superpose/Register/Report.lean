import Superpose.Register.Basic

/-!
# Reports on a register

The figures of the last run, and a summary to be read by people.
-/

namespace Superpose.Register

/-- The figures of a register at some moment. -/
structure Stats where
  total : Nat
  enabled : Nat
  completed : UInt32
  failed : UInt32
  /-- How long the last run took, in milliseconds. -/
  runTime : UInt64
  /-- How long the last collapse took, in milliseconds. -/
  collapseTime : UInt64
  timePerQubit : UInt64
  deriving DecidableEq

variable {α ω : Type}

/-- The figures of a register. -/
def stats (r : Register α ω) : Stats where
  total := r.count
  enabled := r.enabledCount
  completed := r.progress.completed
  failed := r.progress.failed
  runTime := r.runTime
  collapseTime := r.collapseTime
  timePerQubit := r.runTime / r.progress.completed.toUInt64

/-- The number of qubits that a summary lists. -/
def summaryLimit : Nat := 16

/-- The lines of a summary on the single qubits, the first of which has the given index. -/
def qubitLines : (next : Nat) → List (Qubit α ω) → List String
  | _, [] => []
  | next, q :: qs =>
    let switch := if q.enabled then "EN" else "DIS"
    s!"  [{next}] {switch} - {q.status.name}" :: qubitLines (next + 1) qs

/-- The lines of a summary of a register that is known under a label. -/
def summaryLines (label : String) (r : Register α ω) : List String :=
  let answer := if r.collapsed then "Yes" else "No"
  [s!"=== Quantum Register {label} ===", s!"Total qubits: {r.count}",
    s!"Completed: {r.progress.completed} Failed: {r.progress.failed}", s!"Collapsed: {answer}",
    s!"Strategy: {r.strategy.name}", "Qubit status:"]
    ++ qubitLines 0 (r.qubits.take summaryLimit)
    ++ if summaryLimit < r.count then [s!"  ... ({r.count - summaryLimit} more qubits)"] else []

/-- A summary of a register that is known under a label. -/
def summary (label : String) (r : Register α ω) : String :=
  String.join ((summaryLines label r).map fun line => line ++ "\n")

end Superpose.Register
