import Superpose.Register.Basic
import Superpose.Run.Waves

/-!
# Running a register

A run marks the qubits that are switched off as skipped, hands the others to the dispatcher in
waves, and lets the steering look at the register after each wave. A body that breaks off breaks the
run off, unless the dispatcher contains it: everything done so far stays, and the register counts as
executing until it is reset. These are the runs of the build without overflow checks, in which the
workload that the steering is advised on never breaks one off (see `Superpose.Checked`).
-/

namespace Superpose.Register

variable {α ω : Type} [Clocked ω]

/-! ## One wave -/

/-- What the jobs of a wave change. -/
structure Scene (α ω : Type) where
  qubits : List (Qubit α ω)
  progress : Progress
  world : ω

/-- Counts the ending of a body; one that breaks off is not counted. -/
def tallyEnding (p : Progress) : Ending → Progress
  | .returned => p.addCompleted
  | .failed => p.addFailed
  | .panicked => p

/-- Runs the qubit at an index. Answers whether its body broke off. -/
def runJob (i : Nat) (s : Scene α ω) : Bool × Scene α ω :=
  match s.qubits[i]? with
  | none => (false, s)
  | some q =>
    let ran := q.run s.world
    (ran.ending == .panicked,
      ⟨s.qubits.set i ran.qubit, tallyEnding s.progress ran.ending, ran.world⟩)

/-- Runs the qubits at some indices one after the other. When a body breaks off, the others are only
run if the dispatcher is persistent. Answers whether a body broke off. -/
def runJobs (persistent : Bool) : List Nat → Scene α ω → Bool × Scene α ω
  | [], s => (false, s)
  | i :: is, s =>
    let first := runJob i s
    if first.1 then
      if persistent then (true, (runJobs persistent is first.2).2) else (true, first.2)
    else runJobs persistent is first.2

/-- The qubits that a dispatcher runs of a wave, in its order. -/
def dispatched (d : Dispatcher) (number : Nat) (wave : List Nat) : List Nat :=
  (d.order number wave.length).map wave.get

/-- A register and the world around it, and whether the run broke off. -/
structure Site (α ω : Type) where
  /-- Whether a body broke off and nothing contained it. -/
  panicked : Bool
  register : Register α ω
  world : ω

/-- Hands a wave to the dispatcher. -/
def runWave (r : Register α ω) (w : ω) (number : Nat) (wave : List Nat) : Site α ω :=
  let ran := runJobs r.dispatcher.persistent (dispatched r.dispatcher number wave)
    ⟨r.qubits, r.progress, w⟩
  ⟨ran.1 && !r.dispatcher.contained,
    { r with qubits := ran.2.qubits, progress := ran.2.progress }, ran.2.world⟩

/-! ## Checkpoints -/

/-- Lets a steering look at the register, and changes the strategy if it says so. Answers whether
the strategy was changed. -/
def steer (r : Register α ω) (s : Steering ω) (now : UInt64) (w : ω) : Bool × Register α ω :=
  match s.check now r.progress.completed r.progress.failed r.count r.supports
      (s.advise w r.workload) with
  | (none, s) => (false, { r with steering := some s })
  | (some next, s) => (true, { r with steering := some s, strategy := next })

/-- Lets the steering look at a run that is on. Answers whether the strategy was changed. -/
def checkpoint (r : Register α ω) (w : ω) : Bool × Register α ω × ω :=
  match r.steering with
  | none => (false, r, w)
  | some s =>
    if r.progress.executing && s.policy != .none then
      let now := Clocked.read w
      let steered := r.steer s now.1 now.2
      (steered.1, steered.2, now.2)
    else (false, r, w)

/-- Runs waves, the first of which has the given number, with a checkpoint after each of them. -/
def runWaves : (number : Nat) → List (List Nat) → Register α ω → ω → Site α ω
  | _, [], r, w => ⟨false, r, w⟩
  | number, wave :: waves, r, w =>
    let site := r.runWave w number wave
    if site.panicked then site
    else
      let checked := site.register.checkpoint site.world
      runWaves (number + 1) waves checked.2.1 checked.2.2

/-! ## Whole runs -/

/-- What came of an attempt to run a register. -/
inductive Outcome where
  | refused (fault : Fault)
  /-- It ended; `dispatched` tells whether there was anything to run. -/
  | finished (dispatched : Bool)
  /-- A body broke it off. -/
  | panicked
  deriving DecidableEq

/-- What keeps a register from running. -/
def obstacle (r : Register α ω) : Option Fault :=
  if r.progress.executing then some (.register .alreadyExecuting)
  else (r.toolkit.missing r.strategy).map .collapse

/-- Whether the qubit at an index takes part in runs. -/
def isEnabled (r : Register α ω) (i : Nat) : Bool := (r.qubits[i]?).any Qubit.enabled

def waves (r : Register α ω) (order : List Nat) : List (List Nat) :=
  Run.chunks (max r.dispatcher.waveSize 1) (order.filter r.isEnabled)

def begin (r : Register α ω) (now : UInt64) : Register α ω :=
  { r with
    qubits := r.qubits.map Qubit.skipIfDisabled
    collapsed := false
    progress := .start (UInt32.ofNat r.enabledCount)
    steering := r.steering.map fun s => s.beginRun r.strategy now }

/-- The register at the end of a run that took so long. -/
def finish (r : Register α ω) (time : UInt64) : Register α ω :=
  { r with runTime := time, progress := r.progress.stop }

/-- Runs the qubits in an order of all of them. -/
def runInOrder (r : Register α ω) (w : ω) (order : List Nat) : Outcome × Register α ω × ω :=
  match r.obstacle with
  | some fault => (.refused fault, r, w)
  | none =>
    let start := Clocked.read w
    let waves := r.waves order
    let site := runWaves 0 waves (r.begin start.1) start.2
    if site.panicked then (.panicked, site.register, site.world)
    else
      let stop := Clocked.read site.world
      (.finished !waves.isEmpty, site.register.finish (elapsed start.1 stop.1), stop.2)

/-- Runs the qubits in index order. -/
def execute (r : Register α ω) (w : ω) : Outcome × Register α ω × ω :=
  r.runInOrder w (List.range r.count)

/-- Looks for an index that is out of range or was seen before. -/
def orderFault (count : Nat) : (seen : List Nat) → List Nat → Option RegisterFault
  | _, [] => none
  | seen, i :: is =>
    if count ≤ i then some (.invalidOrder s!"index {i} out of range ({count} qubits)")
    else if seen.contains i then some (.invalidOrder s!"index {i} listed twice")
    else orderFault count (i :: seen) is

/-- Some indices, and all others after them in ascending order. -/
def completeOrder (count : Nat) (order : List Nat) : List Nat :=
  order ++ (List.range count).filter fun i => !order.contains i

/-- Runs the listed qubits in the order of the list, and then the others in index order. -/
def executeOrdered (r : Register α ω) (w : ω) (order : List Nat) : Outcome × Register α ω × ω :=
  match orderFault r.count [] order with
  | some fault => (.refused (.register fault), r, w)
  | none => r.runInOrder w (completeOrder r.count order)

/-- Runs the qubits in index order, and answers whether all of them have finished. -/
def executeSync (r : Register α ω) (w : ω) : Outcome × Register α ω × ω :=
  match r.execute w with
  | (.finished true, r, w) => (.finished r.isComplete, r, w)
  | other => other

/-- Waits until the register is complete, for so many milliseconds or, if that is 0, for ever.
Nobody else changes the register meanwhile, so the answer is known at once; there is none to a wait
that does not end. -/
def waitFor (complete : Bool) (milliseconds : UInt64) : Option (Except RegisterFault Unit) :=
  if complete then some (.ok ())
  else if milliseconds = 0 then none
  else some (.error (.waitTimeout milliseconds.toNat))

end Superpose.Register
