import Superpose.Time

/-!
# Qubits

A qubit is one unit of work of a register: a body, the data that it works on, and how its last run
went. `Qubit.run` runs the body once. A body may fail, which is an ordinary ending, or break off,
which leaves the qubit as it was at that moment: running, and without a time of ending.
-/

namespace Superpose

/-- Where a qubit stands. -/
inductive Status where
  /-- It was not run yet. -/
  | pending
  /-- It is being run, or its run broke off. -/
  | running
  | completed
  | failed
  | skipped
  deriving DecidableEq, Inhabited

namespace Status

def name : Status → String
  | pending => "Pending"
  | running => "Running"
  | completed => "Completed"
  | failed => "Failed"
  | skipped => "Skipped"

def all : List Status := [pending, running, completed, failed, skipped]

def ofName? (s : String) : Option Status := all.find? fun t => t.name == s

/-- Whether nothing more happens to the qubit in this run. -/
def isTerminal : Status → Bool
  | completed | failed | skipped => true
  | pending | running => false

end Status

/-- How a body ended. -/
inductive Ending where
  | returned
  | failed
  /-- Not at all: it broke off, and so does whatever runs it. -/
  | panicked
  deriving DecidableEq

/-- What a body did: how it ended, its data then and the world then. -/
structure Effect (α ω : Type) where
  ending : Ending
  data : α
  world : ω

/-- A unit of work on data, in a world that it may look at and change. -/
abbrev Body (α ω : Type) := α → ω → Effect α ω

/-- A unit of work with its data, and how its last run went. -/
structure Qubit (α ω : Type) where
  enabled : Bool := false
  status : Status := .pending
  body : Option (Body α ω) := none
  data : α
  resultSize : UInt64 := 0
  /-- When its last run began. -/
  started : UInt64 := 0
  ended : UInt64 := 0
  id : UInt32
  note : Option String := none

namespace Qubit

variable {α ω : Type}

/-- A qubit that was never given anything to do. -/
def blank [Inhabited α] (id : UInt32) : Qubit α ω := { data := default, id }

/-- How long the last run took, in milliseconds. -/
def duration (q : Qubit α ω) : UInt64 := elapsed q.started q.ended

/-- The data, if the last run completed. -/
def result? (q : Qubit α ω) : Option α := if q.status = .completed then some q.data else none

/-- What a run of a qubit came to. -/
structure Ran (α ω : Type) where
  ending : Ending
  qubit : Qubit α ω
  world : ω

/-- Notes the time at which a body ended, and whether it ended well. -/
def finish [Clocked ω] (q : Qubit α ω) (ending : Ending) (w : ω) : Ran α ω :=
  let now := Clocked.read w
  let status := if ending = .returned then Status.completed else Status.failed
  ⟨ending, { q with status, ended := now.1 }, now.2⟩

/-- Runs the body once. Without a body the run fails. -/
def run [Clocked ω] (q : Qubit α ω) (w : ω) : Ran α ω :=
  let now := Clocked.read w
  let q := { q with status := .running, started := now.1 }
  match q.body with
  | none => q.finish .failed now.2
  | some body =>
    let effect := body q.data now.2
    let q := { q with data := effect.data }
    if effect.ending = .panicked then ⟨.panicked, q, effect.world⟩
    else q.finish effect.ending effect.world

/-- Forgets how the last run went; what the qubit has to do stays. -/
def reset (q : Qubit α ω) : Qubit α ω := { q with status := .pending, started := 0, ended := 0 }

/-- Marks a qubit that is switched off as skipped. -/
def skipIfDisabled (q : Qubit α ω) : Qubit α ω :=
  if q.enabled then q else { q with status := .skipped }

/-- A one-line description. The data is written by `write`; which worker of a pool ran the qubit
last is known to the pool alone, and is 0 outside of one. -/
def describe (write : α → String) (worker : UInt32) (q : Qubit α ω) : String :=
  let fields :=
    [s!"id: {q.id}", s!"enabled: {q.enabled}", s!"status: {q.status.name}",
      s!"data: {write q.data}", s!"result_size: {q.resultSize}", s!"duration_ms: {q.duration}",
      s!"assigned_worker: {worker}"]
  "Qubit \x7b " ++ ", ".intercalate fields ++ " \x7d"

end Qubit

end Superpose
