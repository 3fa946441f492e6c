import Superpose.Fault.Basic

/-!
# Handling faults

What a caller may want to know of a fault besides its wording: a code, how severe it is, whether it
makes sense to go on, what to try next, and what to tell a user. A fault can be wrapped in a
context; it then counts as an internal one.
-/

namespace Superpose

/-- How severe a fault is. -/
inductive Severity where
  | low
  /-- The result of a run cannot be used, but the register is still in order. -/
  | medium
  | high
  /-- An invariant of the library is broken. -/
  | critical
  deriving DecidableEq

def Severity.name : Severity → String
  | low => "Low"
  | medium => "Medium"
  | high => "High"
  | critical => "Critical"

/-- Whether a later attempt at the same collapse may succeed. -/
def CollapseFault.isRecoverable : CollapseFault → Bool
  | missing .. => false
  | mismatch _ | noConsensus .. | noResults => true

/-- Whether a later attempt at the same operation may succeed. -/
def RegisterFault.isRecoverable : RegisterFault → Bool
  | alreadyExecuting | waitTimeout _ => true
  | zeroCapacity | indexOutOfRange .. | noSteering | invalidOrder _ | invalidSetting _ => false

/-- Whether a later attempt to queue the message may succeed. -/
def BusFault.isRecoverable : BusFault → Bool
  | disabled => false
  | queueFull _ => true

namespace Fault

/-- A number for the kind of the fault. -/
def code : Fault → Nat
  | register _ => 1000
  | collapse _ => 2000
  | bus _ => 3000
  | settings _ => 5000
  | io _ => 7000
  | serialization _ => 8000
  | internal _ => 9000
  | exhausted .. => 9100

/-- Whether a later attempt may succeed. -/
def isRecoverable : Fault → Bool
  | register f => f.isRecoverable
  | collapse f => f.isRecoverable
  | bus f => f.isRecoverable
  | exhausted .. => true
  | settings _ | io _ | serialization _ | internal _ => false

def severity : Fault → Severity
  | internal _ => .critical
  | settings _ | collapse (.missing ..) => .high
  | register _ | collapse _ | exhausted .. | io _ => .medium
  | bus _ | serialization _ => .low

/-- What to try next. -/
def suggestions : Fault → List String
  | register (.waitTimeout _) =>
    ["Wait again with a longer timeout", "Check that execute was called"]
  | register .alreadyExecuting => ["Wait for the running dispatch to finish"]
  | collapse (.missing _ r) => [s!"Configure {r.name} before collapsing"]
  | collapse (.mismatch _) =>
    ["Reset and re-execute the register", "Switch to a tolerant strategy such as Vote"]
  | collapse .noResults => ["Enable and execute at least one qubit"]
  | bus (.queueFull _) =>
    ["Drain pending messages with receive", "Clear the bus between executions"]
  | exhausted .. => ["Free up memory"]
  | _ => ["Check logs for more details"]

/-- What to tell a user. -/
def userMessage : Fault → String
  | register (.waitTimeout _) => "Qubits did not finish in time."
  | collapse (.mismatch _) => "Qubit results disagree, validation failed."
  | collapse (.missing ..) => "Collapse strategy is not fully configured."
  | bus (.queueFull _) => "Message queue is full, message dropped."
  | f => s!"An error occurred: {f.message}"

/-- The fault as seen from a wider context. -/
def wrap (context : String) (f : Fault) : Fault := internal s!"{context}: {f.message}"

end Fault

end Superpose
