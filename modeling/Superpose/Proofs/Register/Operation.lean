import Superpose.Register.Collapse
import Superpose.Register.Run

/-!
# Operations on a register

What users of a register can do to it, as data: an `Operation` is a setting, a launch, a collapse, a
reset, a look of the steering, or something that happens to the world outside. `Operation.perform`
does it with the functions of the register and gives its `Answer`, and `observe` does one operation
after the other and collects all that can be seen: the answers, and after each operation the world
and the register. Of the output a register shows only the value of its last run (`seen`).
-/

namespace Superpose.Register

variable {α ω : Type}

/-! ## Settings -/

/-- A change of what a register is equipped with, or of one of its qubits. -/
inductive Setting (α ω : Type) where
  | initQubit (i : Nat) (body : Body α ω) (data : α) (resultSize : UInt64)
  | setEnabled (i : Nat) (on : Bool)
  | setId (i : Nat) (id : UInt32)
  | setNote (i : Nat) (note : Option String)
  | setStrategy (s : Strategy)
  | setCustom (f : List α → α → α)
  | setEvaluator (f : α → Int32)
  | setCombiner (f : List α → α → α)
  | setWaitsForAll (on : Bool)
  | setDispatcher (d : Dispatcher)
  | setCriteria (c : Choice.Criteria α)
  | setDataSize (size : UInt64)
  | setTrend (window : Nat) (weight : Int32)
  | clearTrend
  | setPanel (members : List Choice.Member)
  | installSteering (policy : Steering.Policy) (advise : ω → Workload → Strategy)
  | setThresholds (t : Steering.Thresholds)
  | reportQuality (quality : Float)
  | resetSteering

/-- The register with a setting. -/
def Setting.apply (s : Setting α ω) (r : Register α ω) : Except RegisterFault (Register α ω) :=
  match s with
  | .initQubit i body data resultSize => r.initQubit i body data resultSize
  | .setEnabled i on => r.setEnabled i on
  | .setId i id => r.setId i id
  | .setNote i note => r.setNote i note
  | .setStrategy s => .ok (r.setStrategy s)
  | .setCustom f => .ok (r.setCustom f)
  | .setEvaluator f => .ok (r.setEvaluator f)
  | .setCombiner f => .ok (r.setCombiner f)
  | .setWaitsForAll on => .ok (r.setWaitsForAll on)
  | .setDispatcher d => .ok (r.setDispatcher d)
  | .setCriteria c => .ok (r.setCriteria c)
  | .setDataSize size => .ok (r.setDataSize size)
  | .setTrend window weight => r.setTrend window weight
  | .clearTrend => .ok r.clearTrend
  | .setPanel members => r.setPanel members
  | .installSteering policy advise => .ok (r.installSteering policy advise)
  | .setThresholds t => r.setThresholds t
  | .reportQuality quality => r.reportQuality quality
  | .resetSteering => r.resetSteering

/-! ## Launches -/

/-- A way of asking for a run. -/
inductive Launch where
  /-- By index. -/
  | execute
  /-- By index, asking whether all qubits have finished. -/
  | executeSync
  /-- In an order. -/
  | executeOrdered (order : List Nat)

/-- Runs a register. -/
def Launch.start [Clocked ω] (l : Launch) (r : Register α ω) (w : ω) :
    Outcome × Register α ω × ω :=
  match l with
  | .execute => r.execute w
  | .executeSync => r.executeSync w
  | .executeOrdered order => r.executeOrdered w order

/-- What can come of an attempt to run a register: it is refused and changes nothing, or the
register was ready, and ends where a run of it in some order leads. -/
inductive Launched [Clocked ω] (r : Register α ω) (w : ω) :
    Outcome × Register α ω × ω → Prop
  | refused (fault : Fault) : Launched r w (.refused fault, r, w)
  | ran {x : Outcome × Register α ω × ω} (order : List Nat) (hready : r.obstacle = none)
      (haccepted : ∀ fault, x.1 ≠ .refused fault) (hend : x.2 = (r.runInOrder w order).2) :
      Launched r w x

section Launched

variable [Clocked ω] (r : Register α ω) (w : ω)

theorem launched_runInOrder (order : List Nat) : Launched r w (r.runInOrder w order) := by
  cases hready : r.obstacle with
  | some fault =>
    unfold runInOrder
    rw [hready]
    exact .refused fault
  | none =>
    refine .ran order hready (fun fault h => ?_) rfl
    rw [runInOrder, hready] at h
    simp only at h
    split at h <;> cases h

theorem launched_executeOrdered (order : List Nat) : Launched r w (r.executeOrdered w order) := by
  unfold executeOrdered
  split
  · exact .refused _
  · exact launched_runInOrder r w _

/-- Asking whether all qubits have finished changes nothing but the answer. -/
theorem launched_executeSync : Launched r w (r.executeSync w) := by
  have hexecute : Launched r w (r.execute w) := launched_runInOrder r w _
  unfold executeSync
  split
  · rename_i r' w' h
    rw [h] at hexecute
    cases hexecute with
    | ran order hready haccepted hend =>
      exact .ran order hready (fun fault h => by cases h) hend
  · exact hexecute

/-- **What a launch can do.** -/
theorem Launch.launched_start (l : Launch) : Launched r w (l.start r w) := by
  cases l with
  | execute => exact launched_runInOrder r w _
  | executeSync => exact launched_executeSync r w
  | executeOrdered order => exact launched_executeOrdered r w order

end Launched

/-! ## Operations -/

/-- Something that is done to a register or to the world around it. -/
inductive Operation (α ω : Type) where
  | set (setting : Setting α ω)
  | setData (i : Nat) (data : α)
  | launch (launch : Launch)
  | collapse
  | reset
  | checkpoint
  | outside (f : ω → ω)

/-- What an operation answers. -/
inductive Answer (α : Type) where
  /-- It was done. -/
  | done
  /-- It was refused. -/
  | refused (fault : Fault)
  /-- There is no such qubit. -/
  | absent
  /-- The run or the look ended, with yes or no. -/
  | ended (yes : Bool)
  /-- A body broke off. -/
  | panicked
  /-- The value of the last run. -/
  | value (a : α)

/-- The answer to an attempt to run. -/
def Answer.ofOutcome : Outcome → Answer α
  | .refused fault => .refused fault
  | .finished yes => .ended yes
  | .panicked => .panicked

/-- The answer to a collapse. -/
def Answer.ofValue : Except Fault α → Answer α
  | .error fault => .refused fault
  | .ok a => .value a

variable [Inhabited α] [BEq α] [Clocked ω]

/-- Does an operation. -/
def Operation.perform (op : Operation α ω) (r : Register α ω) (w : ω) :
    Answer α × Register α ω × ω :=
  match op with
  | .set setting =>
    match setting.apply r with
    | .error fault => (.refused (.register fault), r, w)
    | .ok r => (.done, r, w)
  | .setData i data =>
    match r.setData i data with
    | none => (.absent, r, w)
    | some r => (.done, r, w)
  | .launch l =>
    let started := l.start r w
    (.ofOutcome started.1, started.2)
  | .collapse =>
    let collapsed := r.collapse w
    (.ofValue collapsed.1, collapsed.2)
  | .reset => (.done, r.reset, w)
  | .checkpoint =>
    let checked := r.checkpoint w
    (.ended checked.1, checked.2)
  | .outside f => (.done, r, f w)

/-- All that can be seen of a register: of its output only the value of the last run. -/
def seen (r : Register α ω) : Register α ω := { r with output := r.output? }

/-- All that can be seen while operations are done one after the other. -/
def observe : List (Operation α ω) → Register α ω → ω → List (Answer α × Register α ω × ω)
  | [], _, _ => []
  | op :: ops, r, w =>
    let done := op.perform r w
    (done.1, done.2.1.seen, done.2.2) :: observe ops done.2.1 done.2.2

end Superpose.Register
