import Superpose.Register.Basic

/-!
# Forecasts

A `Forecast` estimates how long each qubit of a register will run, proposes an order to run them in,
and learns from the durations of finished runs. What it learns is kept under the declared size of a
qubit's result: qubits of one size are expected to take the same time. Products, sums and counts are
taken on words, which `predict` and `learn` wrap around; `predict?` and `learn?` break off where one
overflows.
-/

namespace Superpose

/-- What lists are shuffled with: a source of chance, which every shuffle leaves in another state.
-/
class Shuffler (ρ : Type) where
  ofSeed : UInt64 → ρ
  shuffle : List Nat → ρ → List Nat × ρ

namespace Forecast

/-- How an order is chosen. -/
inductive Plan where
  | sequential
  | random
  | longestFirst
  | shortestFirst
  | balanced
  /-- Long runs first. -/
  | predicted
  deriving DecidableEq, Inhabited

namespace Plan

def all : List Plan := [sequential, random, longestFirst, shortestFirst, balanced, predicted]

def name : Plan → String
  | sequential => "Sequential"
  | random => "Random"
  | longestFirst => "LongestFirst"
  | shortestFirst => "ShortestFirst"
  | balanced => "Balanced"
  | predicted => "AiPredicted"

def ofName? (s : String) : Option Plan := all.find? fun p => p.name == s

end Plan

/-- How durations are estimated and orders are chosen. -/
structure Settings where
  /-- How an order is chosen at first. -/
  plan : Plan := .predicted
  patternCapacity : UInt64 := 32
  /-- The relative error below which an estimate counts as accurate. -/
  tolerance : Float := 0.2
  smoothing : Float := 0.7
  learnedConfidence : Float := 0.8
  heuristicConfidence : Float := 0.3
  /-- The units of work to a byte of result. -/
  complexityFactor : UInt64 := 10
  randomize : Bool := false
  seed : Option UInt64 := none

/-- An estimate for one qubit. -/
structure Prediction where
  index : Nat
  /-- How long it will run, in milliseconds. -/
  time : UInt64
  confidence : Float
  complexity : UInt64

/-- What was learned about results of one size. -/
structure Pattern where
  size : UInt64
  /-- The mean duration, in milliseconds. -/
  meanTime : UInt64
  samples : UInt32
  deriving DecidableEq

end Forecast

/-- Estimates of durations, and what they are made from. -/
structure Forecast (ρ : Type) where
  /-- How durations are estimated and orders are chosen. -/
  settings : Forecast.Settings
  plan : Forecast.Plan
  predictions : List Forecast.Prediction
  /-- What was learned, in the order in which the sizes came up. -/
  patterns : List Forecast.Pattern
  scheduled : UInt64
  /-- The number of estimates that turned out accurate. -/
  accurate : UInt64
  meanError : Float
  shuffler : ρ

namespace Forecast

variable {α ω ρ : Type}

/-- A forecast that has learned nothing; without a seed it shuffles with the given shuffler. -/
def ofSettings [Shuffler ρ] (s : Settings) (unseeded : ρ) : Forecast ρ where
  settings := s
  plan := s.plan
  predictions := []
  patterns := []
  scheduled := 0
  accurate := 0
  meanError := 0.0
  shuffler :=
    match s.seed with
    | none => unseeded
    | some seed => Shuffler.ofSeed seed

/-- Forgets everything, the plan included. -/
def reset [Shuffler ρ] (f : Forecast ρ) (unseeded : ρ) : Forecast ρ :=
  ofSettings f.settings unseeded

/-- Chooses how orders are chosen. -/
def setPlan (f : Forecast ρ) (p : Plan) : Forecast ρ := { f with plan := p }

/-! ## Estimates -/

/-- The positive duration that was learned for a size. -/
def learnedTime (patterns : List Pattern) (size : UInt64) : Option UInt64 :=
  ((patterns.find? fun p => p.size == size).map Pattern.meanTime).filter fun t => decide (0 < t)

/-- The estimate for a qubit: what was learned for its size, or else one millisecond for every
hundred units of work, but at least one. -/
def predictQubit (s : Settings) (patterns : List Pattern) (index : Nat) (q : Qubit α ω) :
    Prediction :=
  let complexity := q.resultSize * s.complexityFactor
  match learnedTime patterns q.resultSize with
  | some time => ⟨index, time, s.learnedConfidence, complexity⟩
  | none => ⟨index, max (complexity / 100) 1, s.heuristicConfidence, complexity⟩

/-- The estimates for qubits, the first of which has the given index. -/
def predictFrom (s : Settings) (patterns : List Pattern) :
    (next : Nat) → List (Qubit α ω) → List Prediction
  | _, [] => []
  | next, q :: qs => predictQubit s patterns next q :: predictFrom s patterns (next + 1) qs

/-- Estimates the duration of every qubit of a register. -/
def predict (f : Forecast ρ) (r : Register α ω) : Forecast ρ :=
  { f with
    predictions := predictFrom f.settings f.patterns 0 r.qubits
    scheduled := f.scheduled + UInt64.ofNat r.count }

/-! ## Orders -/

/-- Puts an index in front of the first one that need not come before it. -/
def insertBy (before : Nat → Nat → Bool) (i : Nat) : List Nat → List Nat
  | [] => [i]
  | j :: js => if before j i then j :: insertBy before i js else i :: j :: js

/-- Sorts indices; those neither of which comes before the other keep their order. -/
def sortBy (before : Nat → Nat → Bool) (is : List Nat) : List Nat :=
  is.foldr (insertBy before) []

/-- The estimated duration of the qubit at an index. -/
def timeOf (f : Forecast ρ) (i : Nat) : UInt64 :=
  match f.predictions[i]? with
  | none => 0
  | some p => p.time

/-- The order in which the plan would run the qubits of a register, if there are estimates for just
as many qubits. -/
def order [Shuffler ρ] (f : Forecast ρ) (r : Register α ω) : Option (List Nat) × Forecast ρ :=
  if f.predictions.isEmpty || f.predictions.length != r.count then (none, f)
  else
    let indices := List.range r.count
    match f.plan with
    | .longestFirst | .predicted =>
      (some (sortBy (fun i j => decide (f.timeOf j < f.timeOf i)) indices), f)
    | .shortestFirst => (some (sortBy (fun i j => decide (f.timeOf i < f.timeOf j)) indices), f)
    | .random =>
      if f.settings.randomize then
        let shuffled := Shuffler.shuffle indices f.shuffler
        (some shuffled.1, { f with shuffler := shuffled.2 })
      else (some indices, f)
    | .sequential | .balanced => (some indices, f)

/-! ## Learning -/

/-- The relative error of an estimate, 0 if the run took no time at all. -/
def relativeError (actual predicted : UInt64) : Float :=
  if 0 < actual then
    let error := actual.toFloat - predicted.toFloat
    (if error < 0.0 then -error else error) / actual.toFloat
  else 0.0

/-- The pattern with one more duration in its mean, which is rounded down. -/
def Pattern.add (p : Pattern) (time : UInt64) : Pattern :=
  let samples := p.samples.toUInt64
  { p with
    meanTime := (p.meanTime * samples + time) / (samples + 1)
    samples := p.samples + 1 }

/-- Adds a duration to the first pattern of its size; a size that is new gets a pattern of its own
while there is room for it. -/
def learnTime (capacity : Nat) (size time : UInt64) (patterns : List Pattern) : List Pattern :=
  match patterns.findIdx? fun p => p.size == size with
  | some i => patterns.modify i fun p => p.add time
  | none => if patterns.length < capacity then patterns ++ [⟨size, time, 1⟩] else patterns

/-- What has been learned so far in going over a register. -/
structure Lesson where
  patterns : List Pattern
  error : Float := 0.0
  accurate : UInt64 := 0

/-- Learns from a qubit if it has completed and there is an estimate for it. -/
def Lesson.add (s : Settings) (l : Lesson) (q : Qubit α ω) (p : Prediction) : Lesson :=
  if q.status = .completed then
    let error := relativeError q.duration p.time
    { patterns := learnTime s.patternCapacity.toNat q.resultSize q.duration l.patterns
      error := l.error + error
      accurate := if error < s.tolerance then l.accurate + 1 else l.accurate }
  else l

/-- Learns from qubits and the estimates for them. -/
def Lesson.addAll (s : Settings) (l : Lesson) (rows : List (Qubit α ω × Prediction)) : Lesson :=
  rows.foldl (fun l row => l.add s row.1 row.2) l

/-- Takes over what was learned from so many qubits. -/
def conclude (f : Forecast ρ) (count : Nat) (lesson : Lesson) : Forecast ρ :=
  let meanError := lesson.error / (UInt64.ofNat count).toFloat
  { f with
    patterns := lesson.patterns
    meanError := f.meanError * f.settings.smoothing + meanError * (1.0 - f.settings.smoothing)
    accurate := f.accurate + lesson.accurate }

/-- Compares the estimates with the durations of a register's last run, and learns those. -/
def learn (f : Forecast ρ) (r : Register α ω) : Forecast ρ :=
  if f.predictions.isEmpty then f
  else
    f.conclude r.count
      (Lesson.addAll f.settings { patterns := f.patterns } (r.qubits.zip f.predictions))

/-! ## Overflow checks -/

/-- Estimates the duration of every qubit in a build with overflow checks, which changes nothing if
it breaks off. -/
def predict? (f : Forecast ρ) (r : Register α ω) : Option (Forecast ρ) := do
  let _ ← r.qubits.mapM fun q =>
    Checked.word (q.resultSize.toNat * f.settings.complexityFactor.toNat)
  let _ ← Checked.word (f.scheduled.toNat + r.count)
  return f.predict r

/-- The pattern with one more duration in its mean in a build with overflow checks, and whether that
was got through: the mean has changed by the time at which the number of durations overflows. -/
def Pattern.add? (p : Pattern) (time : UInt64) : Bool × Pattern :=
  let total := do
    let product ← Checked.word (p.meanTime.toNat * p.samples.toNat)
    Checked.word (product.toNat + time.toNat)
  match total with
  | none => (false, p)
  | some total =>
    let p := { p with meanTime := total / (p.samples.toUInt64 + 1) }
    match Checked.shortWord (p.samples.toNat + 1) with
    | none => (false, p)
    | some samples => (true, { p with samples })

/-- Adds a duration to the first pattern of its size, or opens one, in a build with overflow checks.
Answers whether that was got through. -/
def learnTime? (capacity : Nat) (size time : UInt64) (patterns : List Pattern) :
    Bool × List Pattern :=
  match patterns.findIdx? fun p => p.size == size with
  | some i =>
    ((patterns[i]?).all fun p => (p.add? time).1, patterns.modify i fun p => (p.add? time).2)
  | none => (true, learnTime capacity size time patterns)

/-- Learns from a qubit in a build with overflow checks, and answers whether that was got through.
-/
def Lesson.add? (s : Settings) (l : Lesson) (q : Qubit α ω) (p : Prediction) : Bool × Lesson :=
  if q.status = .completed then
    let learned := learnTime? s.patternCapacity.toNat q.resultSize q.duration l.patterns
    (learned.1, { l.add s q p with patterns := learned.2 })
  else (true, l)

/-- Learns from qubits until an overflow breaks it off. -/
def Lesson.addAll? (s : Settings) : Lesson → List (Qubit α ω × Prediction) → Bool × Lesson
  | l, [] => (true, l)
  | l, row :: rows =>
    let added := l.add? s row.1 row.2
    if added.1 then added.2.addAll? s rows else added

/-- Learns from a register's last run in a build with overflow checks, and answers whether that was
got through. If it breaks off, the patterns keep what they have learned by then. -/
def learn? (f : Forecast ρ) (r : Register α ω) : Bool × Forecast ρ :=
  if f.predictions.isEmpty then (true, f)
  else
    let lesson :=
      Lesson.addAll? f.settings { patterns := f.patterns } (r.qubits.zip f.predictions)
    if lesson.1 then
      let concluded := f.conclude r.count lesson.2
      match Checked.word (f.accurate.toNat + lesson.2.accurate.toNat) with
      | none => (false, { concluded with accurate := f.accurate })
      | some _ => (true, concluded)
    else (false, { f with patterns := lesson.2.patterns })

end Forecast

end Superpose
