import Superpose.Strategy.Basic

/-!
# Faults

Every way in which an operation of the library can be refused, as a cause and not as a text. A
`CollapseFault`, `RegisterFault` or `BusFault` belongs to one part of the library; `Fault` joins
them with the faults of the surroundings. The wording of each fault is `message`.
-/

namespace Superpose

/-- Why the results of a register could not be collapsed. -/
inductive CollapseFault where
  /-- The strategy depends on a piece of configuration that is not there. -/
  | missing (strategy : Strategy) (requirement : Requirement)
  /-- The result at `index` differs from the first one. -/
  | mismatch (index : Nat)
  | noConsensus (largest total : Nat)
  | noResults
  deriving DecidableEq

/-- Why an operation on a register was refused. -/
inductive RegisterFault where
  | zeroCapacity
  /-- There is no qubit at `index`. -/
  | indexOutOfRange (index capacity : Nat)
  | alreadyExecuting
  | waitTimeout (milliseconds : Nat)
  | noSteering
  | invalidOrder (reason : String)
  | invalidSetting (reason : String)
  deriving DecidableEq

/-- Why a message was not queued. -/
inductive BusFault where
  | disabled
  | queueFull (capacity : Nat)
  deriving DecidableEq

/-- Any fault. -/
inductive Fault where
  | register (fault : RegisterFault)
  | collapse (fault : CollapseFault)
  | bus (fault : BusFault)
  | settings (text : String)
  | io (text : String)
  | serialization (text : String)
  /-- A broken invariant of the library itself. -/
  | internal (text : String)
  | exhausted (resource details : String)
  deriving DecidableEq

/-- The wording of a fault of collapsing. -/
def CollapseFault.message : CollapseFault → String
  | missing s r => s!"Strategy {s.name} requires {r.name} but none is configured"
  | mismatch i => s!"Validation failed: result {i} differs from result 0"
  | noConsensus largest total =>
    s!"No consensus: largest agreeing group has {largest} of {total} results"
  | noResults => "No completed qubit results to collapse"

/-- The wording of a fault of a register. -/
def RegisterFault.message : RegisterFault → String
  | zeroCapacity => "Register capacity must be greater than zero"
  | indexOutOfRange i capacity => s!"Qubit index {i} out of range (capacity {capacity})"
  | alreadyExecuting => "Register is already executing"
  | waitTimeout ms => s!"Timeout: qubits did not finish within {ms}ms"
  | noSteering => "Adaptive execution has not been initialized for this register"
  | invalidOrder reason => s!"Invalid execution order: {reason}"
  | invalidSetting reason => s!"Invalid configuration: {reason}"

def BusFault.message : BusFault → String
  | disabled => "Messaging is disabled"
  | queueFull capacity => s!"Message queue full ({capacity} messages), message dropped"

/-- The wording of a fault, which begins with the part of the library that it comes from. -/
def Fault.message : Fault → String
  | register f => s!"Register error: {f.message}"
  | collapse f => s!"Collapse error: {f.message}"
  | bus f => s!"Messaging error: {f.message}"
  | settings text => s!"Configuration error: {text}"
  | io text => s!"IO error: {text}"
  | serialization text => s!"Serialization error: {text}"
  | internal text => s!"Internal error: {text}"
  | exhausted resource details => s!"Resource exhaustion: {resource} - {details}"

end Superpose
