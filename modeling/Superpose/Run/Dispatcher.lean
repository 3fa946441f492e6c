/-!
# Dispatchers

A register hands the qubits of a run over in waves, and a `Dispatcher` runs the jobs of a wave. It
may run them in any order, which may depend on the wave, and it may leave some of them out, but it
runs no job twice. Dispatchers also differ in what becomes of a wave in which a body breaks off, and
in whether they let the break-off out to the run.
-/

namespace Superpose

/-- A way of running the jobs of a wave. -/
structure Dispatcher where
  /-- The name under which it is known. -/
  name : String
  /-- The number of jobs that it takes at once; 0 is taken for 1. -/
  waveSize : Nat
  /-- Which of so many jobs it runs, and in which order, in the wave of a given number. -/
  order : (wave jobs : Nat) → List (Fin jobs)
  /-- No job is run twice. -/
  order_nodup : ∀ wave jobs, (order wave jobs).Nodup
  /-- Whether the other jobs of a wave are still run after one broke off. -/
  persistent : Bool
  /-- Whether a job that breaks off is kept from breaking off the run. -/
  contained : Bool

namespace Dispatcher

/-- All jobs of a wave as they come. -/
def forward (jobs : Nat) : List (Fin jobs) := List.finRange jobs

theorem nodup_forward (jobs : Nat) : (forward jobs).Nodup := by
  simp only [forward, List.Nodup, List.pairwise_iff_getElem]
  intro i j hi hj hij h
  simp only [List.getElem_finRange, Fin.ext_iff, Fin.val_cast] at h
  omega

/-- All jobs of a wave, from its beginning or from its end. -/
def directed (reverse : Bool) (jobs : Nat) : List (Fin jobs) :=
  if reverse then (forward jobs).reverse else forward jobs

theorem nodup_directed (reverse : Bool) (jobs : Nat) : (directed reverse jobs).Nodup := by
  unfold directed
  split
  · exact List.pairwise_reverse.2 ((nodup_forward jobs).imp Ne.symm)
  · exact nodup_forward jobs

/-- The first jobs of a wave from either end, at most `limit` of them if there is a limit. -/
def portion (reverse : Bool) (limit : Option Nat) (jobs : Nat) : List (Fin jobs) :=
  match limit with
  | none => directed reverse jobs
  | some limit => (directed reverse jobs).take limit

theorem nodup_portion (reverse : Bool) (limit : Option Nat) (jobs : Nat) :
    (portion reverse limit jobs).Nodup := by
  unfold portion
  split
  · exact nodup_directed reverse jobs
  · exact (nodup_directed reverse jobs).sublist (List.take_sublist _ _)

/-- Runs one job after the other on the spot. -/
def inline : Dispatcher where
  name := "inline"
  waveSize := 1
  order _ jobs := forward jobs
  order_nodup _ jobs := nodup_forward jobs
  persistent := false
  contained := false

/-- Runs waves of a given size on the spot, perhaps in reverse order, and perhaps only the first few
jobs of each wave. -/
def waves (size : Nat) (reverse : Bool) (limit : Option Nat) : Dispatcher where
  name := "wave"
  waveSize := size
  order _ jobs := portion reverse limit jobs
  order_nodup _ jobs := nodup_portion reverse limit jobs
  persistent := false
  contained := false

/-- The number of threads of a pool, at least one. -/
def poolThreads (threads : Nat) : Nat := max threads 1

/-- Runs waves on a pool of threads, by default one job for each thread. A thread takes up the job
that was added last, and the pool finishes a wave whatever happens to one of its jobs. -/
def pool (threads waveSize : Nat) : Dispatcher where
  name := "parallel"
  waveSize := if waveSize = 0 then poolThreads threads else waveSize
  order _ jobs := portion true none jobs
  order_nodup _ jobs := nodup_portion true none jobs
  persistent := true
  contained := false

end Dispatcher

/-- How the registers of a program run their qubits. -/
inductive DispatchMode where
  | inline
  | parallel
  deriving DecidableEq, Inhabited

namespace DispatchMode

def all : List DispatchMode := [inline, parallel]

def name : DispatchMode → String
  | inline => "inline"
  | parallel => "parallel"

def ofName? (s : String) : Option DispatchMode := all.find? fun m => m.name == s

/-- The dispatcher of a mode, on a machine with so many threads. -/
def dispatcher (threads waveSize : Nat) : DispatchMode → Dispatcher
  | inline => .inline
  | parallel => .pool threads waveSize

end DispatchMode

end Superpose
