import Superpose.Steering.Policy
import Superpose.Strategy.Basic
import Superpose.Workload.Basic

/-!
# Steering

A `Steering` watches a run from checkpoint to checkpoint and may change the strategy once. It asks
an adviser first and otherwise goes on through the strategies in index order, the last of which it
never picks that way. Only a strategy that the register can collapse with is eligible.
-/

namespace Superpose

/-- What watches a run and may change its strategy. -/
structure Steering (ω : Type) where
  policy : Steering.Policy
  thresholds : Steering.Thresholds := {}
  started : UInt64 := 0
  /-- The last time that the figures were looked at. -/
  lastCheck : UInt64 := 0
  switches : UInt32 := 0
  initial : Strategy
  /-- The strategy that is in force as far as the steering knows. -/
  current : Strategy
  switched : Bool := false
  /-- The completed qubits at the last look that changed nothing. -/
  completedSeen : UInt32 := 0
  /-- The failed qubits at the last look that changed nothing. -/
  failedSeen : UInt32 := 0
  /-- The quality reported last, from 0 to 1. -/
  quality : Float := 1.0
  /-- What an adviser recommends for a workload, in the present world. -/
  advise : ω → Workload → Strategy

namespace Steering

variable {ω : Type}

/-- A steering for a register with a given strategy. -/
def ofPolicy (policy : Policy) (strategy : Strategy) (advise : ω → Workload → Strategy) :
    Steering ω :=
  { policy, initial := strategy, current := strategy, advise }

/-- Takes over a reported quality, brought into the range from 0 to 1. -/
def reportQuality (s : Steering ω) (quality : Float) : Steering ω :=
  let atLeast := if quality < 0.0 then 0.0 else quality
  { s with quality := if 1.0 < atLeast then 1.0 else atLeast }

/-- Notes that a run begins. Whether the strategy was changed before stays noted. -/
def beginRun (s : Steering ω) (strategy : Strategy) (now : UInt64) : Steering ω :=
  { s with
    started := now, lastCheck := now, current := strategy, completedSeen := 0, failedSeen := 0 }

/-- Goes back to the initial strategy and may change it once more. -/
def reset (s : Steering ω) : Steering ω :=
  { s with
    started := 0, lastCheck := 0, switches := 0, current := s.initial, switched := false
    completedSeen := 0, failedSeen := 0, quality := 1.0 }

def turns : Nat := Strategy.count - 1

/-- The strategies after a given one, in turn and back to it. -/
def rotation (s : Strategy) : List Strategy :=
  (List.range turns).filterMap fun k => Strategy.ofIndex? ((s.index + (k + 1)) % turns)

/-- The strategy to change to: the recommended one or the next one in turn, whichever first is
eligible and differs from the current one. -/
def alternative (s : Steering ω) (eligible : Strategy → Bool) (recommended : Strategy) :
    Option Strategy :=
  let candidate := fun t => t != s.current && eligible t
  if candidate recommended then some recommended else (rotation s.current).find? candidate

/-- Whether enough time has passed for another look. -/
def isDue (s : Steering ω) (now : UInt64) : Bool :=
  decide (s.thresholds.interval ≤ elapsed s.lastCheck now)

/-- The strategy to change to at a checkpoint, if any. -/
def decision (s : Steering ω) (v : Vitals) (eligible : Strategy → Bool) (recommended : Strategy) :
    Option Strategy :=
  if (trigger s.policy s.thresholds s.quality v).isSome && !s.switched then
    s.alternative eligible recommended
  else none

/-- Looks at the figures of a run, if it is time to, and answers the strategy to change to. -/
def check (s : Steering ω) (now : UInt64) (completed failed : UInt32) (qubits : Nat)
    (eligible : Strategy → Bool) (recommended : Strategy) : Option Strategy × Steering ω :=
  if s.isDue now then
    let s := { s with lastCheck := now }
    match s.decision ⟨elapsed s.started now, completed, failed, qubits⟩ eligible recommended with
    | some next =>
      (some next, { s with current := next, switched := true, switches := s.switches + 1 })
    | none => (none, { s with completedSeen := completed, failedSeen := failed })
  else (none, s)

end Steering

end Superpose
