import Superpose.Forecast.Basic

/-!
# Calls of a forecast

What can be asked of a forecast, as data, and what it learns from: a `Sample` for each completed
qubit that there is an estimate for. The patterns are a function of the samples since the last reset
(`patterns_performAll`), so all that holds of them is proved by going through a list of samples.
-/

namespace Superpose.Forecast

variable {ρ : Type}

inductive Operation (ρ : Type) : Type 1 where
  | predict {α ω : Type} (r : Register α ω)
  | order {α ω : Type} (r : Register α ω)
  | learn {α ω : Type} (r : Register α ω)
  | setPlan (p : Plan)
  | reset (unseeded : ρ)

namespace Operation

def perform [Shuffler ρ] (f : Forecast ρ) : Operation ρ → Forecast ρ
  | predict r => f.predict r
  | order r => (f.order r).2
  | learn r => f.learn r
  | setPlan p => f.setPlan p
  | reset unseeded => f.reset unseeded

def isReset : Operation ρ → Bool
  | reset _ => true
  | _ => false

end Operation

/-- A source without chance, which leaves every list as it is. -/
instance : Shuffler Unit := ⟨fun _ => (), fun is source => (is, source)⟩

/-- The forecast after a number of calls. -/
def performAll [Shuffler ρ] (f : Forecast ρ) : List (Operation ρ) → Forecast ρ
  | [] => f
  | c :: calls => (c.perform f).performAll calls

/-! ## Samples -/

/-- A duration, and the size that it is learned for. -/
structure Sample where
  size : UInt64
  time : UInt64
  deriving DecidableEq

/-- What a row of a lesson tells. -/
def sample? {α ω : Type} (row : Qubit α ω × Prediction) : Option Sample :=
  if row.1.status = .completed then some ⟨row.1.resultSize, row.1.duration⟩ else none

/-- What a forecast learns from a register. -/
def samples {α ω : Type} (f : Forecast ρ) (r : Register α ω) : List Sample :=
  (r.qubits.zip f.predictions).filterMap sample?

/-- The samples since the last reset after one more call, if there were some before. -/
def Operation.note (f : Forecast ρ) (log : List Sample) : Operation ρ → List Sample
  | learn r => log ++ f.samples r
  | reset _ => []
  | _ => log

/-- The samples since the last reset after a number of calls, if there were some before. -/
def logged [Shuffler ρ] (f : Forecast ρ) (log : List Sample) : List (Operation ρ) → List Sample
  | [] => log
  | c :: calls => (c.perform f).logged (c.note f log) calls

/-- The patterns after a number of samples. -/
def teach (capacity : Nat) (patterns : List Pattern) (log : List Sample) : List Pattern :=
  log.foldl (fun ps s => learnTime capacity s.size s.time ps) patterns

theorem patterns_addAll {α ω : Type} (s : Settings) (l : Lesson)
    (rows : List (Qubit α ω × Prediction)) :
    (l.addAll s rows).patterns =
      teach s.patternCapacity.toNat l.patterns (rows.filterMap sample?) := by
  induction rows generalizing l with
  | nil => rfl
  | cons row rows ih =>
    have hstep : l.addAll s (row :: rows) = (l.add s row.1 row.2).addAll s rows := rfl
    rw [hstep, ih, List.filterMap_cons]
    by_cases hcompleted : row.1.status = .completed
    · simp [Lesson.add, sample?, hcompleted, teach]
    · simp [Lesson.add, sample?, hcompleted]

theorem patterns_learn {α ω : Type} (f : Forecast ρ) (r : Register α ω) :
    (f.learn r).patterns = teach f.settings.patternCapacity.toNat f.patterns (f.samples r) := by
  unfold learn
  split
  · next hnone =>
    rw [samples, List.isEmpty_iff.mp hnone, List.zip_nil_right]
    rfl
  · exact patterns_addAll f.settings _ _

theorem settings_perform [Shuffler ρ] (f : Forecast ρ) (c : Operation ρ) :
    (c.perform f).settings = f.settings := by
  cases c with
  | predict | setPlan | reset => rfl
  | order r =>
    simp only [Operation.perform, order]
    repeat' split
    all_goals rfl
  | learn r =>
    simp only [Operation.perform, learn]
    split <;> rfl

theorem patterns_order {α ω : Type} [Shuffler ρ] (f : Forecast ρ) (r : Register α ω) :
    (f.order r).2.patterns = f.patterns := by
  unfold order
  repeat' split
  all_goals rfl

/-- A call adds its samples to the patterns. -/
theorem patterns_perform [Shuffler ρ] {f : Forecast ρ} {log : List Sample}
    (h : f.patterns = teach f.settings.patternCapacity.toNat [] log) (c : Operation ρ) :
    (c.perform f).patterns = teach f.settings.patternCapacity.toNat [] (c.note f log) := by
  cases c with
  | learn r => rw [Operation.perform, patterns_learn, h, Operation.note, teach, teach, teach,
      List.foldl_append]
  | order r => exact (patterns_order f r).trans h
  | reset => rfl
  | predict | setPlan => exact h

theorem patterns_performAll [Shuffler ρ] {f : Forecast ρ} {log : List Sample}
    (h : f.patterns = teach f.settings.patternCapacity.toNat [] log) (calls : List (Operation ρ)) :
    (f.performAll calls).patterns =
      teach f.settings.patternCapacity.toNat [] (f.logged log calls) := by
  induction calls generalizing f log with
  | nil => exact h
  | cons c calls ih =>
    have hstep := patterns_perform h c
    rw [← settings_perform f c] at hstep ⊢
    exact ih hstep

/-! ## One sample -/

/-- What becomes of a sample: it goes into the pattern of its size, or opens one, or finds the table
full. -/
inductive Learning (capacity : Nat) (s : Sample) (ps : List Pattern) : List Pattern → Prop
  | added {front p back} (hwhole : ps = front ++ p :: back) (hknown : p.size = s.size) :
      Learning capacity s ps (front ++ p.add s.time :: back)
  | stored (hnew : ∀ p ∈ ps, p.size ≠ s.size) (hroom : ps.length < capacity) :
      Learning capacity s ps (ps ++ [⟨s.size, s.time, 1⟩])
  | passed (hnew : ∀ p ∈ ps, p.size ≠ s.size) (hfull : capacity ≤ ps.length) :
      Learning capacity s ps ps

theorem learning (capacity : Nat) (s : Sample) (ps : List Pattern) :
    Learning capacity s ps (learnTime capacity s.size s.time ps) := by
  unfold learnTime
  split
  · next i hfound =>
    obtain ⟨hlt, hknown, -⟩ := List.findIdx?_eq_some_iff_getElem.mp hfound
    obtain ⟨front, p, back, hwhole, rfl, hmodified⟩ :=
      List.exists_of_modify (fun p => Pattern.add p s.time) hlt
    rw [hmodified]
    exact .added hwhole (by simpa [hwhole] using hknown)
  · next hmissing =>
    have hnew : ∀ p ∈ ps, p.size ≠ s.size := by simpa using hmissing
    split
    · next hroom => exact .stored hnew hroom
    · next hfull => exact .passed hnew (Nat.not_lt.mp hfull)

end Superpose.Forecast
