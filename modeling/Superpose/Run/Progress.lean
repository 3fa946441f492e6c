/-!
# Progress of a run

The counters that a run keeps and that others may watch while it is on: how many qubits have
completed and failed, and how many there are to wait for. Counters that several threads may change
wrap around in every build.
-/

namespace Superpose

/-- How far a run has come. -/
structure Progress where
  completed : UInt32 := 0
  failed : UInt32 := 0
  expected : UInt32 := 0
  executing : Bool := false
  /-- Whether a run has begun since the last reset. -/
  started : Bool := false
  deriving DecidableEq

namespace Progress

/-- The counters of a run that begins with so many qubits. -/
def start (expected : UInt32) : Progress := { expected, executing := true, started := true }

/-- Counts a qubit that completed. -/
def addCompleted (p : Progress) : Progress := { p with completed := p.completed + 1 }

/-- Counts a qubit that failed. -/
def addFailed (p : Progress) : Progress := { p with failed := p.failed + 1 }

/-- Notes that the run has ended. -/
def stop (p : Progress) : Progress := { p with executing := false }

def finished (p : Progress) : UInt32 := p.completed + p.failed

/-- Whether a run has begun and all its qubits have finished. -/
def isComplete (p : Progress) : Bool := p.started && decide (p.expected ≤ p.finished)

end Progress

end Superpose
