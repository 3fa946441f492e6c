import Superpose.Register.Collapse
import Superpose.Register.Report
import Superpose.Register.Run
import Superpose.Workbench.Script
import Superpose.Workbench.Shuffle

/-!
# The workbench

A `Bench` keeps registers, message buses, experiences and forecasts under names, all in one `World`
with one clock. A name can be given anew; whatever was connected with the thing that had it before,
such as a script with its bus or a watcher with its register, stays connected with that thing.
Buses, experiences and forecasts are made when they are first asked for.
-/

namespace Superpose.Workbench

/-- Things by name. -/
structure Names (β : Type) where
  entries : List (String × β) := []

namespace Names

variable {β : Type}

/-- What has a name. -/
def find (names : Names β) (name : String) : Option β :=
  (names.entries.find? fun entry => entry.1 == name).map Prod.snd

/-- Gives a name to something, and takes it away from whatever had it. -/
def put (names : Names β) (name : String) (thing : β) : Names β :=
  ⟨(name, thing) :: names.entries.filter fun entry => entry.1 != name⟩

end Names

/-- What was noted when a run began. -/
structure Ticket where
  time : UInt64
  strategy : Strategy
  workload : Workload

/-- Registers, buses, experiences and forecasts by name. -/
structure Bench where
  world : World
  registers : Array (Register Val World) := #[]
  registerNames : Names Nat := {}
  busNames : Names Nat := {}
  experienceNames : Names Nat := {}
  forecasts : Names (Forecast Stream) := {}
  watched : Names Nat := {}
  tickets : Names Ticket := {}
  /-- The bus and serial number of every message that was sent from outside, in order. -/
  sent : Array (Nat × Nat) := #[]
  shuffles : Array (List Nat) := #[]
  /-- The number of streams without a seed that were made. -/
  unseeded : Nat := 0

namespace Bench

/-- An empty bench at a given time. -/
def ofClock (clock : UInt64) : Bench := { world := { clock } }

/-! ## The clock -/

/-- Moves the clock on. -/
def advance (b : Bench) (milliseconds : UInt64) : Bench :=
  { b with world := { b.world with clock := b.world.clock + milliseconds } }

/-- Sets the clock. -/
def setClock (b : Bench) (milliseconds : UInt64) : Bench :=
  { b with world := { b.world with clock := milliseconds } }

/-! ## Registers -/

def register? (b : Bench) (name : String) : Option (Nat × Register Val World) :=
  (b.registerNames.find name).bind fun number =>
    (b.registers[number]?).map fun r => (number, r)

/-- Gives a name to a new register. -/
def addRegister (b : Bench) (name : String) (r : Register Val World) : Bench :=
  { b with
    registers := b.registers.push r
    registerNames := b.registerNames.put name b.registers.size }

def onRegister {ρ : Type} (b : Bench) (name : String)
    (f : Register Val World → World → ρ × Register Val World × World) : Option ρ × Bench :=
  match b.register? name with
  | none => (none, b)
  | some (number, r) =>
    let done := f r b.world
    (some done.1,
      { b with registers := b.registers.setIfInBounds number done.2.1, world := done.2.2 })

/-- Watches the register that has a name now. -/
def watch (b : Bench) (name : String) : Option Bench :=
  (b.registerNames.find name).map fun number => { b with watched := b.watched.put name number }

/-- How far the register has come that is watched under a name. -/
def progress? (b : Bench) (name : String) : Option Progress :=
  (b.watched.find name).bind fun number => (b.registers[number]?).map Register.progress

/-! ## Buses -/

/-- Gives a name to a new bus. -/
def addBus (b : Bench) (name : String) (s : Bus.Settings) : Bench :=
  { b with
    world := { b.world with buses := b.world.buses.push { settings := s } }
    busNames := b.busNames.put name b.world.buses.size }

/-- The number of the bus of a name, which is made if need be. -/
def busNumber (b : Bench) (name : String) : Nat × Bench :=
  match b.busNames.find name with
  | some number => (number, b)
  | none => (b.world.buses.size, b.addBus name {})

/-- Does something with a bus at the present time; answers also how many messages are queued then.
-/
def onBus {ρ : Type} (b : Bench) (name : String) (f : Bus → UInt64 → ρ × Bus) :
    ρ × Nat × Bench :=
  let found := b.busNumber name
  let b := found.2
  let done := f (b.world.bus found.1) b.world.clock
  (done.1, done.2.queue.length, { b with world := b.world.setBus found.1 done.2 })

/-- Sends a message from outside, and answers how many were sent that way before. -/
def send (b : Bench) (name : String) (sender : UInt32) (topic : Bus.Topic) (payload : List UInt8)
    (target : Int32) : Except BusFault Nat × Nat × Bench :=
  let number := (b.busNumber name).1
  let sent := b.onBus name fun bus now => bus.send now sender topic payload target
  match sent with
  | (.error fault, queued, b) => (.error fault, queued, b)
  | (.ok serial, queued, b) =>
    (.ok b.sent.size, queued, { b with sent := b.sent.push (number, serial) })

/-- How many messages were sent from outside before a given one of a bus, if it was sent so at
all. -/
def sentBefore (b : Bench) (name : String) (m : Bus.Message) : Option Nat :=
  b.sent.findIdx? fun key => key == ((b.busNumber name).1, m.serial)

/-- The messages that a receiver gets from a bus until there is none left for it, at most so many.
-/
def drainUpTo (now : UInt64) (receiver : UInt32) : Nat → Bus → List Bus.Message × Bus
  | 0, bus => ([], bus)
  | limit + 1, bus =>
    match bus.receive now receiver with
    | (none, bus) => ([], bus)
    | (some m, bus) =>
      let rest := drainUpTo now receiver limit bus
      (m :: rest.1, rest.2)

/-- All messages that a receiver gets from a bus until there is none left for it. -/
def drain (now : UInt64) (receiver : UInt32) (bus : Bus) : List Bus.Message × Bus :=
  drainUpTo now receiver (bus.queue.length + 1) bus

/-! ## Scripts -/

/-- Gives a qubit of a register a script on the bus of a name. -/
def initQubit (b : Bench) (name busName : String) (i : Nat) (actions : List Action) (data : Val)
    (size : UInt64) : Option (Except RegisterFault Unit) × Bench :=
  let found := b.busNumber busName
  let b := found.2
  let script : Script := ⟨actions, found.1, b.world.starts.size⟩
  let b := { b with world := { b.world with starts := b.world.starts.push 0 } }
  b.onRegister name fun r w =>
    match r.initQubit i script.body data size with
    | .error fault => (.error fault, r, w)
    | .ok r => (.ok (), r, w)

/-! ## Experiences -/

/-- Gives a name to a new experience. -/
def addExperience (b : Bench) (name : String) (s : Experience.Settings Float) : Bench :=
  { b with
    world := { b.world with experiences := b.world.experiences.push (.ofSettings s) }
    experienceNames := b.experienceNames.put name b.world.experiences.size }

/-- The number of the experience of a name, which is made if need be. -/
def experienceNumber (b : Bench) (name : String) : Nat × Bench :=
  match b.experienceNames.find name with
  | some number => (number, b)
  | none => (b.world.experiences.size, b.addExperience name .standard)

def onExperience {ρ : Type} (b : Bench) (name : String)
    (f : Experience Float → ρ × Experience Float) : ρ × Bench :=
  let found := b.experienceNumber name
  let done := f (found.2.world.experience found.1)
  (done.1, { found.2 with world := found.2.world.setExperience found.1 done.2 })

/-- Puts a register under a steering that is advised by the experience of a name, whatever that
comes to hold. -/
def installSteering (b : Bench) (name experienceName : String) (policy : Steering.Policy) :
    Option Unit × Bench :=
  let found := b.experienceNumber experienceName
  found.2.onRegister name fun r w =>
    ((), r.installSteering policy fun w workload => (w.experience found.1).recommend workload, w)

/-- A finished run of a register. -/
def observation {α ω K : Type} (r : Register α ω) (time : UInt64) (quality : K)
    (memory : Nat → Bool) : Experience.Observation K :=
  { strategy := r.strategy, workload := r.workload, collapsed := r.collapsed
    time, quality, memory }

/-- A bench has memory for what 47 bits of addresses hold at 464 bytes for each entry. -/
def memory (entries : Nat) : Bool := entries ≤ (1 <<< 47) / 464

/-- Notes that a run of a register begins. -/
def openTicket (b : Bench) (name : String) (r : Register Val World) : Ticket × Bench :=
  let ticket : Ticket := ⟨b.world.clock, r.strategy, r.workload⟩
  (ticket, { b with tickets := b.tickets.put name ticket })

/-! ## Forecasts -/

/-- A stream without a seed that differs from all others of the bench. -/
def freshStream (b : Bench) : Stream × Bench :=
  ({ key := #v[UInt32.ofNat b.unseeded, 0, 0, 0, 0, 0, 0, 0xffffffff] },
    { b with unseeded := b.unseeded + 1 })

/-- Gives a name to a new forecast. -/
def addForecast (b : Bench) (name : String) (s : Forecast.Settings) : Bench :=
  let fresh := b.freshStream
  { fresh.2 with forecasts := b.forecasts.put name (.ofSettings s fresh.1) }

/-- The forecast of a name, which is made if need be. -/
def forecast (b : Bench) (name : String) : Forecast Stream × Bench :=
  match b.forecasts.find name with
  | some f => (f, b)
  | none =>
    let b := b.addForecast name {}
    ((b.forecasts.find name).getD (.ofSettings {} b.freshStream.1), b)

def onForecast {ρ : Type} (b : Bench) (name : String)
    (f : Forecast Stream → ρ × Forecast Stream) : ρ × Bench :=
  let found := b.forecast name
  let done := f found.1
  (done.1, { found.2 with forecasts := found.2.forecasts.put name done.2 })

/-- Makes a forecast forget everything. -/
def resetForecast (b : Bench) (name : String) : Bench :=
  let fresh := b.freshStream
  (fresh.2.onForecast name fun f => ((), f.reset fresh.1)).2

/-- Runs a register in the order that a forecast proposes for it, and in index order if there is no
such order. -/
def runForecast (b : Bench) (name registerName : String) : Option Register.Outcome × Bench :=
  match b.register? registerName with
  | none => (none, b)
  | some (_, r) =>
    let ordered := b.onForecast name fun f => f.order r
    ordered.2.onRegister registerName fun r w =>
      match ordered.1 with
      | none => r.execute w
      | some order => r.executeOrdered w order

/-- Remembers a shuffled order that is shown, and answers the position of the first one before it
that is the same. -/
def noteShuffle (b : Bench) (order : List Nat) : Option Nat × Bench :=
  (b.shuffles.findIdx? fun o => o == order, { b with shuffles := b.shuffles.push order })

end Bench

end Superpose.Workbench
