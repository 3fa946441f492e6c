import Superpose.Experience.Entry

/-!
# Experience

An `Experience` learns from finished runs which strategy suits which workload. An observation is
added to the entry of the most similar workload if that is similar enough, and opens an entry of its
own otherwise. A recommendation comes from the entry of the most similar workload, if that is
similar and reliable enough, and from a rule of thumb otherwise. Nothing is checked for overflow
here (see `Superpose.Checked`).
-/

namespace Superpose

variable {K : Type} [Scale K]

namespace Experience

/-- How an experience learns. -/
structure Settings (K : Type) where
  enabled : Bool
  /-- How similar a workload has to be to count as the same. -/
  matchThreshold : K
  learningRate : K
  /-- The number of entries to make room for at first. -/
  initialCapacity : UInt64
  /-- How reliable an entry has to be to give a recommendation. -/
  confidenceGate : K
  /-- The variance of durations below which the first result will do. -/
  lowVariance : UInt64

/-- The usual settings. -/
def Settings.standard : Settings K where
  enabled := true
  matchThreshold := 0.8
  learningRate := 0.3
  initialCapacity := 32
  confidenceGate := 0.5
  lowVariance := 100

/-- A finished run. -/
structure Observation (K : Type) where
  strategy : Strategy
  workload : Workload
  collapsed : Bool
  /-- How long it took, in milliseconds. -/
  time : UInt64
  quality : K
  /-- Whether there is memory for so many entries when it comes in. -/
  memory : Nat → Bool

end Experience

/-- What was learned from finished runs. -/
structure Experience (K : Type) where
  settings : Experience.Settings K
  /-- What was learned, in the order in which the workloads came up. -/
  entries : List (Experience.Entry K)
  capacity : Nat
  enabled : Bool
  observations : UInt64

namespace Experience

/-- An experience that has learned nothing. -/
def ofSettings (s : Settings K) : Experience K := ⟨s, [], 0, s.enabled, 0⟩

/-- Switches learning and recommending on or off. -/
def setEnabled (x : Experience K) (on : Bool) : Experience K := { x with enabled := on }

/-- Forgets what was learned. -/
def reset (x : Experience K) : Experience K :=
  { x with entries := [], capacity := 0, observations := 0 }

/-- The most similar workload so far and that of the entries from `next` on: its position and its
likeness, which is above 0. -/
def nearestFrom (w : Workload) : Option (Nat × K) → (next : Nat) → List (Entry K) → Option (Nat × K)
  | best, _, [] => best
  | best, next, e :: es =>
    let likeness : K := w.similarity e.workload
    let bound : K :=
      match best with
      | none => 0.0
      | some (_, likeness) => likeness
    nearestFrom w (if bound < likeness then some (next, likeness) else best) (next + 1) es

/-- The first entry of greatest likeness, if any is like the workload at all. -/
def nearest (x : Experience K) (w : Workload) : Option (Nat × K) := nearestFrom w none 0 x.entries

/-- The nearest entry if it counts as the same workload. -/
def matching (x : Experience K) (w : Workload) : Option Nat :=
  match x.nearest w with
  | none => none
  | some (index, likeness) => if x.settings.matchThreshold ≤ likeness then some index else none

/-- The room after one more entry: full room is doubled, or made at first; nothing if there is no
memory for that much. -/
def room (x : Experience K) (memory : Nat → Bool) : Option Nat :=
  if x.entries.length = x.capacity then
    let more := if x.capacity = 0 then max x.settings.initialCapacity.toNat 1 else x.capacity
    if memory (x.capacity + more) then some (x.capacity + more) else none
  else some x.capacity

/-- The entry that an observation of a workload goes to, which is opened if need be; nothing if
there is no room for it. -/
def place (x : Experience K) (w : Workload) (memory : Nat → Bool) : Option (Nat × Experience K) :=
  match x.matching w with
  | some index => some (index, x)
  | none =>
    match x.room memory with
    | none => none
    | some capacity =>
      some (x.entries.length, { x with entries := x.entries ++ [.ofWorkload w], capacity })

/-- Adds an observation to an entry. -/
def fold (x : Experience K) (o : Observation K) (e : Entry K) : Entry K :=
  e.update o.strategy
    ((e.record o.strategy).add x.settings.learningRate o.collapsed o.time o.quality x.observations)

/-- Learns from a finished run, unless it is switched off or out of room. -/
def observe (x : Experience K) (o : Observation K) : Experience K :=
  if x.enabled then
    match x.place o.workload o.memory with
    | none => x
    | some (index, y) =>
      { y with
        entries := y.entries.modify index (x.fold o)
        observations := x.observations + 1 }
  else x

/-- The rule of thumb for a workload that nothing is known about. -/
def ruleOfThumb (x : Experience K) (w : Workload) : Strategy :=
  if w.scored then .best
  else if w.waitsForAll then .combine
  else if w.variance < x.settings.lowVariance then .firstWins
  else .validate

/-- The entry that a recommendation for a workload may rely on. -/
def reliable (x : Experience K) (w : Workload) : Option (Entry K) :=
  match x.matching w with
  | none => none
  | some index =>
    (x.entries[index]?).filter fun e => decide (x.settings.confidenceGate ≤ e.confidence)

/-- The strategy to use for a workload. -/
def recommend (x : Experience K) (w : Workload) : Strategy :=
  if x.enabled then
    match x.reliable w with
    | none => x.ruleOfThumb w
    | some e => e.recommended
  else .firstWins

/-- How far experience with a strategy on such a workload can be relied on: the confidence of the
first entry that counts as the same workload and has used the strategy. -/
def confidence (x : Experience K) (w : Workload) (s : Strategy) : K :=
  if x.enabled then
    match x.entries.find? fun e =>
        decide (x.settings.matchThreshold ≤ w.similarity e.workload) && (e.record s).uses != 0 with
    | none => 0.0
    | some e => e.confidence
  else 0.0

end Experience

end Superpose
