import Superpose.Qubit
import Superpose.Run.Dispatcher
import Superpose.Run.Progress
import Superpose.Steering.Basic
import Superpose.Toolkit

/-!
# Registers

A register holds the qubits among which a piece of work is divided, what it is equipped with for
collapsing their results, and the state of its last run. This module has the register itself, how it
is made, and how it is configured between runs. A setting that makes no sense is refused and changes
nothing.
-/

namespace Superpose

/-- The qubits of a piece of work, and all that is needed to run them and to collapse their
results. -/
structure Register (α ω : Type) where
  qubits : List (Qubit α ω)
  strategy : Strategy := .firstWins
  toolkit : Toolkit α := {}
  /-- The value of the last collapse, which the next one may build upon. -/
  output : Option α := none
  /-- Whether the output is the value of the last run. -/
  collapsed : Bool := false
  waitsForAll : Bool := true
  /-- The declared size of the input. -/
  dataSize : UInt64 := 0
  progress : Progress := {}
  /-- How long the last run took, in milliseconds. -/
  runTime : UInt64 := 0
  /-- How long the last collapse took, in milliseconds. -/
  collapseTime : UInt64 := 0
  steering : Option (Steering ω) := none
  dispatcher : Dispatcher := .inline

namespace Register

/-- How a register is made by default. -/
structure Settings where
  strategy : Strategy := .firstWins
  waitsForAll : Bool := true
  dispatch : DispatchMode := .inline
  /-- The number of qubits in a wave, 0 for one to each thread. -/
  waveSize : UInt64 := 0
  deriving DecidableEq

variable {α ω : Type}

/-- A register of so many qubits, none of which has anything to do. -/
def ofCapacity [Inhabited α] (capacity : Nat) : Except RegisterFault (Register α ω) :=
  if capacity = 0 then .error .zeroCapacity
  else .ok { qubits := (List.range capacity).map fun i => .blank (UInt32.ofNat i) }

/-- A register of so many qubits with given settings, on a machine with so many threads. -/
def ofSettings [Inhabited α] (threads capacity : Nat) (s : Settings) :
    Except RegisterFault (Register α ω) :=
  (ofCapacity capacity).map fun r =>
    { r with
      strategy := s.strategy
      waitsForAll := s.waitsForAll
      dispatcher := s.dispatch.dispatcher threads s.waveSize.toNat }

/-! ## Figures -/

/-- The number of qubits. -/
def count (r : Register α ω) : Nat := r.qubits.length

/-- The number of qubits that take part in runs. -/
def enabledCount (r : Register α ω) : Nat := r.qubits.countP Qubit.enabled

/-- Whether as many qubits have finished as take part in runs. -/
def isComplete (r : Register α ω) : Bool :=
  decide (UInt32.ofNat r.enabledCount ≤ r.progress.finished)

/-- The value of the last run, if it was collapsed. -/
def output? (r : Register α ω) : Option α := if r.collapsed then r.output else none

/-- The data of a completed qubit. -/
def result? (r : Register α ω) (i : Nat) : Option α := r.qubits[i]?.bind Qubit.result?

/-- The results of the completed qubits, in index order. -/
def results (r : Register α ω) : List α := r.qubits.filterMap Qubit.result?

/-- Whether the register has all that a strategy depends on. -/
def supports (r : Register α ω) (s : Strategy) : Bool := r.toolkit.supports s

/-- The durations of the completed qubits, in index order. -/
def durations (r : Register α ω) : List UInt64 :=
  (r.qubits.filter fun q => q.status == .completed).map Qubit.duration

/-- What the register has to do, and how its last run went, in a few figures. -/
def workload (r : Register α ω) : Workload where
  qubits := UInt32.ofNat r.count
  meanTime := Workload.mean r.durations
  variance := Workload.spread r.durations
  scored := r.toolkit.evaluator.isSome
  waitsForAll := r.waitsForAll
  dataSize := r.dataSize

/-- The same figures in a build with overflow checks. -/
def workload? (r : Register α ω) : Option Workload := do
  let meanTime ← Workload.mean? r.durations
  let variance ← Workload.spread? meanTime r.durations
  return { r.workload with meanTime, variance }

/-! ## Qubits -/

def changeQubit (r : Register α ω) (i : Nat) (f : Qubit α ω → Qubit α ω) :
    Except RegisterFault (Register α ω) :=
  if r.count ≤ i then .error (.indexOutOfRange i r.count)
  else .ok { r with qubits := r.qubits.modify i f }

/-- Gives a qubit something to do, and switches it on. -/
def initQubit (r : Register α ω) (i : Nat) (body : Body α ω) (data : α) (resultSize : UInt64) :
    Except RegisterFault (Register α ω) :=
  r.changeQubit i fun q =>
    { q with body := some body, data, resultSize, enabled := true, status := .pending }

/-- Switches a qubit on or off. -/
def setEnabled (r : Register α ω) (i : Nat) (on : Bool) : Except RegisterFault (Register α ω) :=
  r.changeQubit i fun q => { q with enabled := on }

/-- Gives a qubit a number. -/
def setId (r : Register α ω) (i : Nat) (id : UInt32) : Except RegisterFault (Register α ω) :=
  r.changeQubit i fun q => { q with id }

/-- Gives a qubit a text, or takes it away. -/
def setNote (r : Register α ω) (i : Nat) (note : Option String) :
    Except RegisterFault (Register α ω) :=
  r.changeQubit i fun q => { q with note }

/-- Replaces the data of a qubit between runs, if there is such a qubit. -/
def setData (r : Register α ω) (i : Nat) (data : α) : Option (Register α ω) :=
  (r.changeQubit i fun q => { q with data }).toOption

/-! ## Configuration -/

/-- Chooses how results are collapsed. -/
def setStrategy (r : Register α ω) (s : Strategy) : Register α ω := { r with strategy := s }

/-- Installs a custom reduction, and chooses it. -/
def setCustom (r : Register α ω) (f : List α → α → α) : Register α ω :=
  { r with toolkit := { r.toolkit with custom := some f }, strategy := .custom }

/-- Installs a function that scores results. -/
def setEvaluator (r : Register α ω) (f : α → Int32) : Register α ω :=
  { r with toolkit := { r.toolkit with evaluator := some f } }

/-- Installs a reduction of all results. -/
def setCombiner (r : Register α ω) (f : List α → α → α) : Register α ω :=
  { r with toolkit := { r.toolkit with combiner := some f } }

/-- Chooses whether every qubit is waited for. -/
def setWaitsForAll (r : Register α ω) (on : Bool) : Register α ω := { r with waitsForAll := on }

/-- Replaces what runs the qubits. -/
def setDispatcher (r : Register α ω) (d : Dispatcher) : Register α ω := { r with dispatcher := d }

/-- Installs scoring dimensions. -/
def setCriteria (r : Register α ω) (c : Choice.Criteria α) : Register α ω :=
  { r with toolkit := { r.toolkit with criteria := some c } }

/-- Declares the size of the input. -/
def setDataSize (r : Register α ω) (size : UInt64) : Register α ω := { r with dataSize := size }

/-- Installs a history of scores. One of the same window is kept, and only its weight is changed. -/
def setTrend (r : Register α ω) (window : Nat) (weight : Int32) :
    Except RegisterFault (Register α ω) :=
  if window = 0 ∨ weight < 0 ∨ 100 < weight then
    .error (.invalidSetting
      s!"temporal window {window} / trend weight {weight} (window > 0, weight 0-100)")
  else
    let fresh := Choice.Trend.ofWindow window weight
    let trend :=
      match r.toolkit.trend with
      | none => fresh
      | some t => if t.window = window then { t with weight } else fresh
    .ok { r with toolkit := { r.toolkit with trend := some trend } }

/-- Forgets the scores of earlier choices. -/
def clearTrend (r : Register α ω) : Register α ω :=
  { r with toolkit := { r.toolkit with trend := r.toolkit.trend.map Choice.Trend.clear } }

/-- Installs a panel of strategies. -/
def setPanel (r : Register α ω) (members : List Choice.Member) :
    Except RegisterFault (Register α ω) :=
  if Choice.Panel.seats < members.length then
    .error (.invalidSetting s!"ensemble takes at most 3 members, got {members.length}")
  else if members.any fun m => m.strategy == .ensemble then
    .error (.invalidSetting "ensemble cannot contain itself")
  else if (Choice.Panel.ofMembers members).isEmpty then
    .error (.invalidSetting "ensemble needs at least one positively weighted member")
  else .ok { r with toolkit := { r.toolkit with panel := some (.ofMembers members) } }

/-! ## Steering -/

/-- Puts the register under a steering; the present strategy is the one to go back to. -/
def installSteering (r : Register α ω) (policy : Steering.Policy)
    (advise : ω → Workload → Strategy) : Register α ω :=
  { r with steering := some (.ofPolicy policy r.strategy advise) }

def changeSteering (r : Register α ω) (f : Steering ω → Steering ω) :
    Except RegisterFault (Register α ω) :=
  match r.steering with
  | none => .error .noSteering
  | some s => .ok { r with steering := some (f s) }

/-- Sets from where on a run is unhealthy. -/
def setThresholds (r : Register α ω) (t : Steering.Thresholds) :
    Except RegisterFault (Register α ω) :=
  r.changeSteering fun s => { s with thresholds := t }

def reportQuality (r : Register α ω) (quality : Float) : Except RegisterFault (Register α ω) :=
  r.changeSteering fun s => s.reportQuality quality

/-- Goes back to the initial strategy, and lets the steering change it once more. -/
def resetSteering (r : Register α ω) : Except RegisterFault (Register α ω) :=
  match r.steering with
  | none => .error .noSteering
  | some s => .ok { r with steering := some s.reset, strategy := s.initial }

/-! ## Reset -/

/-- Forgets the last run. Configuration, bodies and data stay, and so does the history of scores. -/
def reset (r : Register α ω) : Register α ω :=
  { r with
    progress := {}
    collapsed := false
    runTime := 0
    collapseTime := 0
    qubits := r.qubits.map Qubit.reset }

end Register

end Superpose
