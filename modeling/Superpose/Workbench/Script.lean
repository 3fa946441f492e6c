import Superpose.Bus.Basic
import Superpose.Experience.Basic
import Superpose.Qubit
import Superpose.Workbench.Value

/-!
# Scripts

The bodies of the workbench's qubits are scripts: lists of actions on the data, the clock and a
message bus. They run in a `World` that holds the clock, all buses, everything that was learned, and
how often each script was started. The first action that fails ends the script.
-/

namespace Superpose.Workbench

/-- What the bodies of qubits may look at and change. -/
structure World where
  /-- The time in milliseconds. -/
  clock : UInt64 := 0
  buses : Array Bus := #[]
  experiences : Array (Experience Float) := #[]
  starts : Array Nat := #[]

/-- The clock of a workbench moves by hand alone. -/
instance : Clocked World := ⟨fun w => (w.clock, w)⟩

namespace World

def bus (w : World) (number : Nat) : Bus := (w.buses[number]?).getD {}

/-- Replaces the bus of a given number. -/
def setBus (w : World) (number : Nat) (b : Bus) : World :=
  { w with buses := w.buses.setIfInBounds number b }

/-- What was learned under a given number. -/
def experience (w : World) (number : Nat) : Experience Float :=
  (w.experiences[number]?).getD (.ofSettings .standard)

/-- Replaces what was learned under a given number. -/
def setExperience (w : World) (number : Nat) (x : Experience Float) : World :=
  { w with experiences := w.experiences.setIfInBounds number x }

def started (w : World) (script : Nat) : Nat := (w.starts[script]?).getD 0

def start (w : World) (script : Nat) : World :=
  { w with starts := w.starts.setIfInBounds script (w.started script + 1) }

end World

/-- A step of a script. -/
inductive Action where
  | set (value : Val)
  | add (n : Int)
  | square
  | now
  /-- Takes the values of a list for data in turn, one at each start. -/
  | cycle (values : List Val)
  | advance (milliseconds : UInt64)
  | setClock (milliseconds : UInt64)
  | fail
  /-- Fails at the first few starts. -/
  | failFirst (starts : Nat)
  | panic
  | send (sender : UInt32) (topic : Bus.Topic) (payload : List UInt8) (target : Int32)
  | announce (sender : UInt32) (payload : List UInt8) (quality : UInt32)
  | share (sender tag : UInt32) (payload : List UInt8)
  | receive (receiver : UInt32)
  /-- Takes the number of the qubit with the best solution for data. -/
  | converged
  | helpful
  | ignored

/-- What a qubit of the workbench does. -/
structure Script where
  actions : List Action
  bus : Nat
  /-- The number under which starts are counted. -/
  number : Nat

def Val.ofBytes (bytes : List UInt8) : Val := .list (bytes.map fun b => .ofInt b.toNat)

/-- Does one action at a start of a given number. -/
def Action.perform (bus start : Nat) (data : Val) (w : World) : Action → Effect Val World
  | set value => ⟨.returned, value, w⟩
  | add n => ⟨.returned, .ofInt (data.magnitude + n), w⟩
  | square => ⟨.returned, .ofInt (data.magnitude * data.magnitude), w⟩
  | now => ⟨.returned, .int w.clock.toInt64, w⟩
  | cycle values => ⟨.returned, (values[start % values.length]?).getD .nil, w⟩
  | advance ms => ⟨.returned, data, { w with clock := w.clock + ms }⟩
  | setClock ms => ⟨.returned, data, { w with clock := ms }⟩
  | fail => ⟨.failed, data, w⟩
  | failFirst starts => ⟨if start < starts then .failed else .returned, data, w⟩
  | panic => ⟨.panicked, data, w⟩
  | send sender topic payload target =>
    let sent := (w.bus bus).send w.clock sender topic payload target
    ⟨if sent.1.isOk then .returned else .failed, data, w.setBus bus sent.2⟩
  | announce sender payload quality =>
    let sent := (w.bus bus).announce w.clock sender payload quality
    ⟨if sent.1.isOk then .returned else .failed, data, w.setBus bus sent.2⟩
  | share sender tag payload =>
    let sent := (w.bus bus).share w.clock sender tag payload
    ⟨if sent.1.isOk then .returned else .failed, data, w.setBus bus sent.2⟩
  | receive receiver =>
    let received := (w.bus bus).receive w.clock receiver
    let data :=
      match received.1 with
      | none => Val.nil
      | some message => .ofBytes message.payload
    ⟨.returned, data, w.setBus bus received.2⟩
  | converged =>
    let data :=
      match (w.bus bus).converged with
      | none => Val.nil
      | some qubit => .ofInt qubit.toNat
    ⟨.returned, data, w⟩
  | helpful => ⟨.returned, data, w.setBus bus (w.bus bus).markHelpful⟩
  | ignored => ⟨.returned, data, w.setBus bus (w.bus bus).markIgnored⟩

/-- Does actions until one of them does not end well. -/
def Action.performAll (bus start : Nat) : List Action → Val → World → Effect Val World
  | [], data, w => ⟨.returned, data, w⟩
  | a :: as, data, w =>
    let effect := a.perform bus start data w
    if effect.ending = .returned then performAll bus start as effect.data effect.world else effect

def Script.body (s : Script) : Body Val World := fun data w =>
  Action.performAll s.bus (w.started s.number) s.actions data (w.start s.number)

end Superpose.Workbench
