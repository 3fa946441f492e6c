import Superpose.Time

/-!
# Steering policies

When a run that is on should change its strategy. A `Policy` names what is watched, `Thresholds` say
from where on it is unhealthy, and `Vitals` are the figures of the run at a checkpoint. `trigger`
tells whether, and why, they call for a change.
-/

namespace Superpose.Steering

/-- What is watched in a run. -/
inductive Policy where
  | none
  /-- Whether the run takes too long. -/
  | timeout
  /-- Whether too many qubits fail. -/
  | failureRate
  | quality
  | aggressive
  deriving DecidableEq, Inhabited

namespace Policy

def all : List Policy := [none, timeout, failureRate, quality, aggressive]

def name : Policy → String
  | none => "None"
  | timeout => "Timeout"
  | failureRate => "FailureRate"
  | quality => "Quality"
  | aggressive => "Aggressive"

def ofName? (s : String) : Option Policy := all.find? fun p => p.name == s

end Policy

/-- From where on a run is unhealthy. -/
structure Thresholds where
  /-- The time in milliseconds after which at least half of the qubits should have completed. -/
  timeout : UInt64 := 5000
  /-- The share of failures among finished qubits that is still acceptable. -/
  failureRate : Float := 0.3
  quality : Float := 0.5
  /-- The time in milliseconds between two looks. -/
  interval : UInt64 := 100

/-- The figures of a run at a checkpoint. -/
structure Vitals where
  /-- The time since the run began, in milliseconds. -/
  elapsed : UInt64
  completed : UInt32
  failed : UInt32
  qubits : Nat

namespace Vitals

/-- The share of all qubits that has completed. -/
def completionRate (v : Vitals) : Float :=
  v.completed.toUInt64.toFloat / (UInt64.ofNat v.qubits).toFloat

/-- The share of the finished qubits that has failed, 0 if none has finished. -/
def failureRate (v : Vitals) : Float :=
  if 0 < v.completed + v.failed then
    v.failed.toUInt64.toFloat / (v.completed + v.failed).toUInt64.toFloat
  else 0.0

end Vitals

/-- Why a run should change its strategy. -/
inductive Trigger where
  /-- It has run for too long. -/
  | timeout
  | failureRate
  | lowQuality
  /-- It is on its way to run for too long. -/
  | slowProgress
  /-- Failures are on their way to be too many. -/
  | elevatedFailures
  deriving DecidableEq

/-- Whether a run that shows these figures and this quality should change its strategy, and why. -/
def trigger (policy : Policy) (t : Thresholds) (quality : Float) (v : Vitals) : Option Trigger :=
  match policy with
  | .none => .none
  | .timeout => if t.timeout < v.elapsed ∧ v.completionRate < 0.5 then some .timeout else .none
  | .failureRate => if t.failureRate < v.failureRate then some .failureRate else .none
  | .quality => if quality < t.quality then some .lowQuality else .none
  | .aggressive =>
    if t.timeout.toFloat * 0.5 < v.elapsed.toFloat ∧ v.completionRate < 0.3 then some .slowProgress
    else if t.failureRate * 0.7 < v.failureRate then some .elevatedFailures
    else .none

end Superpose.Steering
