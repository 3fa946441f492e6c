import Superpose.Proofs.Forecast.Order
import Superpose.Proofs.Forecast.Steady
import Superpose.Proofs.Register.History
import Superpose.Proofs.Run.Fields

/-!
# Cycles of foreseeing, running and learning

In a `Cycle` a forecast estimates how long the qubits of a register will run, proposes an order of
them, and learns from the run. If every result of one size always takes the same time, one cycle
tells all there is to learn: `Trained` is what the forecast has learned after a number of cycles,
and it says the same from the first one on (`Trained.means_eq`). So from then on the estimates are
the true durations, and an order that puts long runs first puts the truly longest first.
-/

namespace Superpose

namespace Register

variable {α ω : Type}

/-- The declared sizes of the results, in index order. -/
def sizes (r : Register α ω) : List UInt64 := r.qubits.map Qubit.resultSize

/-- How long the qubit at an index takes if results of one size always take the same time. -/
def takes (d : UInt64 → UInt64) (r : Register α ω) (i : Nat) : UInt64 :=
  ((r.sizes[i]?).map d).getD 0

theorem length_sizes (r : Register α ω) : r.sizes.length = r.count := List.length_map _

theorem sizes_start [Clocked ω] (l : Launch) (r : Register α ω) (w : ω) :
    (l.start r w).2.1.sizes = r.sizes := by
  have hlaunched := l.launched_start r w
  generalize l.start r w = x at hlaunched ⊢
  cases hlaunched with
  | refused => rfl
  | ran order hready _ hends =>
    rw [hends]
    exact Qubit.kept_resultSize.map_runInOrder hready w order

end Register

namespace Forecast

/-! ## Cycles -/

/-- A forecast, the register that it is used for, and the world around them. -/
structure Situation (α ω ρ : Type) where
  forecast : Forecast ρ
  register : Register α ω
  world : ω

/-- One round in the use of a forecast. -/
structure Cycle (α ω : Type) where
  /-- What is done to the register before its run is foreseen. -/
  before : List (Register.Operation α ω)
  plan : Plan
  /-- How the run is asked for, given the proposed order. -/
  launch : Option (List Nat) → Register.Launch

section Cycles

variable {α ω ρ : Type} [Inhabited α] [BEq α] [Clocked ω] [Shuffler ρ]

namespace Cycle

/-- Prepares the register, and foresees its run. -/
def foresee (c : Cycle α ω) (x : Situation α ω ρ) : Situation α ω ρ :=
  let prepared := Register.performAll c.before x.register x.world
  ⟨(x.forecast.setPlan c.plan).predict prepared.1, prepared.1, prepared.2⟩

/-- The proposed order, and the forecast once it has proposed it. -/
def propose (c : Cycle α ω) (x : Situation α ω ρ) : Option (List Nat) × Forecast ρ :=
  (c.foresee x).forecast.order (c.foresee x).register

/-- Foresees a run, runs the register, and learns from the run. -/
def perform (c : Cycle α ω) (x : Situation α ω ρ) : Situation α ω ρ :=
  let foreseen := c.foresee x
  let proposed := c.propose x
  let ran := (c.launch proposed.1).start foreseen.register foreseen.world
  ⟨proposed.2.learn ran.2.1, ran.2.1, ran.2.2⟩

def performAll : List (Cycle α ω) → Situation α ω ρ → Situation α ω ρ
  | [], x => x
  | c :: cs, x => performAll cs (c.perform x)

/-- A cycle of a register with results of these sizes in which all qubits complete, and take the
time that is given for their size. -/
structure Regular (d : UInt64 → UInt64) (sizes : List UInt64) (c : Cycle α ω)
    (x : Situation α ω ρ) : Prop where
  sizes_eq : (c.foresee x).register.sizes = sizes
  completed : ∀ q ∈ (c.perform x).register.qubits,
    q.status = .completed ∧ q.duration = d q.resultSize

/-- All of these cycles are regular in the situations that they find. -/
def AllRegular (d : UInt64 → UInt64) (sizes : List UInt64) :
    List (Cycle α ω) → Situation α ω ρ → Prop
  | [], _ => True
  | c :: cs, x => c.Regular d sizes x ∧ AllRegular d sizes cs (c.perform x)

end Cycle

end Cycles

/-! ## One cycle -/

variable {α ω ρ : Type} {d : UInt64 → UInt64}

theorem length_predictFrom (s : Settings) (ps : List Pattern) (next : Nat)
    (qs : List (Qubit α ω)) : (predictFrom s ps next qs).length = qs.length := by
  induction qs generalizing next with
  | nil => rfl
  | cons q qs ih => rw [predictFrom, List.length_cons, ih, List.length_cons]

theorem predictions_order [Shuffler ρ] (f : Forecast ρ) (r : Register α ω) :
    (f.order r).2.predictions = f.predictions := by
  unfold order
  repeat' split
  all_goals rfl

/-- What a regular run of a register with results of these sizes tells. -/
def lesson (d : UInt64 → UInt64) (sizes : List UInt64) : List Sample :=
  sizes.map fun size => ⟨size, d size⟩

theorem samples_eq_lesson {f : Forecast ρ} {r : Register α ω}
    (hforeseen : f.predictions.length = r.count)
    (hcompleted : ∀ q ∈ r.qubits, q.status = .completed ∧ q.duration = d q.resultSize) :
    f.samples r = lesson d r.sizes := by
  have htold : ∀ row ∈ r.qubits.zip f.predictions,
      sample? row = some ⟨row.1.resultSize, d row.1.resultSize⟩ := by
    intro row hrow
    obtain ⟨hcomplete, htime⟩ := hcompleted _ (List.of_mem_zip hrow).1
    rw [sample?, if_pos hcomplete, htime]
  calc f.samples r
    _ = (r.qubits.zip f.predictions).map fun row => ⟨row.1.resultSize, d row.1.resultSize⟩ := by
      rw [samples, List.filterMap_congr htold, ← Function.comp_def some, List.filterMap_eq_map]
    _ = ((r.qubits.zip f.predictions).map Prod.fst).map
        fun q => ⟨q.resultSize, d q.resultSize⟩ := by rw [List.map_map]; rfl
    _ = lesson d r.sizes := by
      rw [List.map_fst_zip (Nat.le_of_eq hforeseen.symm), lesson, Register.sizes, List.map_map]
      rfl

/-- What a number of regular runs of a register tell. -/
def lessons (d : UInt64 → UInt64) (sizes : List UInt64) (rounds : Nat) : List Sample :=
  (List.replicate rounds (lesson d sizes)).flatten

theorem lessons_add_one (d : UInt64 → UInt64) (sizes : List UInt64) (rounds : Nat) :
    lessons d sizes (rounds + 1) = lesson d sizes ++ lessons d sizes rounds := by
  rw [lessons, lessons, List.replicate_succ, List.flatten_cons]

theorem lessons_concat (d : UInt64 → UInt64) (sizes : List UInt64) (rounds : Nat) :
    lessons d sizes (rounds + 1) = lessons d sizes rounds ++ lesson d sizes := by
  rw [lessons, lessons, List.replicate_succ', List.flatten_append, List.flatten_singleton]

/-- What a forecast has learned in a number of regular cycles. -/
structure Trained (d : UInt64 → UInt64) (s : Settings) (sizes : List UInt64) (rounds : Nat)
    (f : Forecast ρ) : Prop where
  settings_eq : f.settings = s
  patterns_eq : f.patterns = teach s.patternCapacity.toNat [] (lessons d sizes rounds)

variable {s : Settings} {sizes : List UInt64} {rounds : Nat}

section Cycles

variable [Inhabited α] [BEq α] [Clocked ω] [Shuffler ρ]

theorem Cycle.Regular.samples_eq {c : Cycle α ω} {x : Situation α ω ρ}
    (hregular : c.Regular d sizes x) :
    (c.propose x).2.samples (c.perform x).register = lesson d sizes := by
  have hsizes_ran : (c.perform x).register.sizes = (c.foresee x).register.sizes :=
    Register.sizes_start _ _ _
  -- no qubit is without an estimate: a run keeps their number, and so does proposing an order
  have hforeseen : (c.propose x).2.predictions.length = (c.perform x).register.count := by
    rw [← Register.length_sizes, hsizes_ran, Register.length_sizes, propose, predictions_order]
    exact length_predictFrom _ _ _ _
  rw [samples_eq_lesson hforeseen hregular.completed, hsizes_ran, hregular.sizes_eq]

/-- **A regular cycle teaches one lesson more.** -/
theorem Trained.perform {x : Situation α ω ρ} (htrained : Trained d s sizes rounds x.forecast)
    {c : Cycle α ω} (hregular : c.Regular d sizes x) :
    Trained d s sizes (rounds + 1) (c.perform x).forecast := by
  have hsettings : (c.propose x).2.settings = s :=
    (settings_perform (c.foresee x).forecast (.order _)).trans htrained.settings_eq
  have hpatterns : (c.propose x).2.patterns =
      teach s.patternCapacity.toNat [] (lessons d sizes rounds) :=
    (patterns_order _ _).trans htrained.patterns_eq
  have hlearned : (c.perform x).forecast.patterns = teach s.patternCapacity.toNat
      (c.propose x).2.patterns ((c.propose x).2.samples (c.perform x).register) :=
    hsettings ▸ patterns_learn _ _
  refine ⟨(settings_perform (c.propose x).2 (.learn _)).trans hsettings, ?_⟩
  rw [hlearned, hregular.samples_eq, hpatterns, lessons_concat, teach, teach, teach,
    List.foldl_append]

theorem Trained.performAll {cs : List (Cycle α ω)} {x : Situation α ω ρ}
    (htrained : Trained d s sizes rounds x.forecast) (hregular : Cycle.AllRegular d sizes cs x) :
    Trained d s sizes (rounds + cs.length) (Cycle.performAll cs x).forecast := by
  induction cs generalizing x rounds with
  | nil => exact htrained
  | cons c cs ih =>
    rw [List.length_cons, ← Nat.succ_add_eq_add_succ]
    exact ih (htrained.perform hregular.1) hregular.2

end Cycles

/-! ## What the cycles lead to -/

theorem lessons_subset : lessons d sizes rounds ⊆ lesson d sizes := by
  intro sample htold
  obtain ⟨round, hround, hmember⟩ := List.mem_flatten.mp htold
  rwa [List.eq_of_mem_replicate hround] at hmember

theorem steady_lesson : Steady d (lesson d sizes) := by
  intro sample htold
  obtain ⟨size, -, rfl⟩ := List.mem_map.mp htold
  rfl

theorem steady_lessons : Steady d (lessons d sizes rounds) :=
  fun sample htold => steady_lesson sample (lessons_subset htold)

theorem sizes_lesson : (lesson d sizes).map Sample.size = sizes := by
  rw [lesson, List.map_map]
  exact List.map_id sizes

theorem sampled_lessons (size : UInt64) :
    sampled size (lessons d sizes rounds) = rounds * sizes.count size := by
  rw [sampled, lessons, List.map_flatten, List.map_replicate, sizes_lesson, List.count_flatten,
    List.map_replicate, List.sum_replicate_nat]

section Settled

variable (hroom : sizes.dedup.length ≤ s.patternCapacity.toNat)
  (hpos : ∀ size ∈ sizes, 0 < d size)
  (hsmall : ∀ size, (d size).toNat * min ((rounds + 1) * sizes.count size) (2 ^ 32) < 2 ^ 64)

include hsmall in
theorem small_lessons : Small d (lessons d sizes (rounds + 1)) := by
  intro size
  rw [sampled_lessons]
  exact hsmall size

include hsmall in
theorem Trained.meanTime_eq {f : Forecast ρ} (htrained : Trained d s sizes (rounds + 1) f)
    {p : Pattern} (hknown : p ∈ f.patterns) : p.meanTime = d p.size := by
  rw [htrained.patterns_eq] at hknown
  exact ((tabulates_nil _).teach _).meanTime_eq steady_lessons (small_lessons hsmall) hknown

include hroom hsmall in
/-- **One cycle tells all**: further ones change no mean. -/
theorem Trained.means_eq {f : Forecast ρ} (htrained : Trained d s sizes (rounds + 1) f) :
    means f.patterns = means (teach s.patternCapacity.toNat [] (lesson d sizes)) := by
  have hsteady : Steady d (lesson d sizes ++ lessons d sizes rounds) :=
    lessons_add_one d sizes rounds ▸ steady_lessons
  have hfits : Small d (lesson d sizes ++ lessons d sizes rounds) :=
    lessons_add_one d sizes rounds ▸ small_lessons hsmall
  rw [htrained.patterns_eq, lessons_add_one]
  exact means_teach_append (by rwa [sizes_lesson]) hsteady hfits (List.map_subset _ lessons_subset)

include hroom hpos hsmall in
theorem Trained.learnedTime_eq {f : Forecast ρ} (htrained : Trained d s sizes (rounds + 1) f)
    {size : UInt64} (hknown : size ∈ sizes) : learnedTime f.patterns size = some (d size) := by
  have hfits : Small d (lesson d sizes) :=
    (lessons_add_one d sizes rounds ▸ small_lessons hsmall).of_append
  rw [learnedTime_congr (htrained.means_eq hroom hsmall)]
  refine learnedTime_teach (by rwa [sizes_lesson]) steady_lesson hfits ?_ (hpos size hknown)
  rwa [sizes_lesson]

end Settled

/-! ## Estimates and orders -/

theorem times_predictFrom {ps : List Pattern} {qs : List (Qubit α ω)}
    (hlearned : ∀ q ∈ qs, learnedTime ps q.resultSize = some (d q.resultSize)) (next : Nat) :
    (predictFrom s ps next qs).map Prediction.time = qs.map fun q => d q.resultSize := by
  induction qs generalizing next with
  | nil => rfl
  | cons q qs ih =>
    obtain ⟨hhere, hthere⟩ := List.forall_mem_cons.mp hlearned
    rw [predictFrom, List.map_cons, List.map_cons, ih hthere, predictQubit, hhere]

section Estimates

variable {f : Forecast ρ} {r : Register α ω}
  (htimes : f.predictions.map Prediction.time = r.sizes.map d)

include htimes

theorem timeOf_eq_takes (i : Nat) : f.timeOf i = r.takes d i := by
  have hsame : (f.predictions[i]?).map Prediction.time = (r.sizes[i]?).map d := by
    rw [← List.getElem?_map, htimes, List.getElem?_map]
  rw [Register.takes, ← hsame, timeOf]
  cases f.predictions[i]? <;> rfl

/-- True estimates put the truly longest runs first. -/
theorem order_of_times [Shuffler ρ] (hplan : f.plan = .longestFirst ∨ f.plan = .predicted) :
    ((f.order r).1 = none ↔ r.count = 0) ∧ ∀ order, (f.order r).1 = some order →
      order.Perm (List.range r.count) ∧ order.Pairwise fun i j =>
        r.takes d j < r.takes d i ∨ r.takes d i = r.takes d j ∧ i < j := by
  have hcounts : f.predictions.length = r.count := by
    have hlengths := congrArg List.length htimes
    rwa [List.length_map, List.length_map, Register.length_sizes] at hlengths
  refine ⟨?_, fun order hproposed => ⟨(arranged_order hproposed).perm fun hrandom => ?_, ?_⟩⟩
  · rw [order_eq_none_iff, ← List.length_eq_zero_iff, hcounts]
    simp
  · rcases hplan with hplan | hplan <;> exact absurd (hplan.symm.trans hrandom) nofun
  · have hlongest := (arranged_order hproposed).longest_first hplan
    simpa only [timeOf_eq_takes htimes] using hlongest

end Estimates

/-- **One cycle settles a forecast.** Let all qubits of a register complete in every run, in a
positive time given by their declared sizes, and let a fresh forecast have room for these sizes.
After one cycle and any number of others, as far as the products fit into words, every mean is the
true duration, and none has changed since the first cycle; every estimate is the true duration; and
a plan that puts long runs first lists the qubits by their true durations, longest first, with
equally long ones by index. -/
theorem settled_after_one_cycle [Inhabited α] [BEq α] [Clocked ω] [Shuffler ρ] (s : Settings)
    (unseeded : ρ) (r : Register α ω) (w : ω) (first : Cycle α ω) (more : List (Cycle α ω))
    (hpos : ∀ size ∈ r.sizes, 0 < d size)
    (hroom : r.sizes.dedup.length ≤ s.patternCapacity.toNat)
    (hregular : Cycle.AllRegular d r.sizes (first :: more) ⟨ofSettings s unseeded, r, w⟩)
    (hsmall : ∀ size,
      (d size).toNat * min ((more.length + 1) * r.sizes.count size) (2 ^ 32) < 2 ^ 64) :
    let once := first.perform ⟨ofSettings s unseeded, r, w⟩
    let f := (Cycle.performAll more once).forecast
    (∀ p ∈ f.patterns, p.meanTime = d p.size) ∧
      means f.patterns = means once.forecast.patterns ∧
      ∀ r' : Register α ω, r'.sizes = r.sizes →
        (f.predict r').predictions.map Prediction.time = r'.sizes.map d ∧
        ∀ plan : Plan, plan = .longestFirst ∨ plan = .predicted →
          let proposed := (((f.setPlan plan).predict r').order r').1
          (proposed = none ↔ r'.count = 0) ∧
          ∀ order, proposed = some order →
            order.Perm (List.range r'.count) ∧ order.Pairwise fun i j =>
              r'.takes d j < r'.takes d i ∨ r'.takes d i = r'.takes d j ∧ i < j := by
  intro once f
  have hfresh : Trained d s r.sizes 0 (ofSettings s unseeded) := ⟨rfl, rfl⟩
  have htrained_once : Trained d s r.sizes (0 + 1) once.forecast := hfresh.perform hregular.1
  have htrained : Trained d s r.sizes (more.length + 1) f := by
    rw [Nat.add_comm]
    exact htrained_once.performAll hregular.2
  have hfewer (n : Nat) : min ((0 + 1) * n) (2 ^ 32) ≤ min ((more.length + 1) * n) (2 ^ 32) := by
    have hfold : (0 + 1) * n ≤ (more.length + 1) * n := Nat.mul_le_mul_right n (by omega)
    omega
  have hsmall_once (size : UInt64) :
      (d size).toNat * min ((0 + 1) * r.sizes.count size) (2 ^ 32) < 2 ^ 64 :=
    Nat.lt_of_le_of_lt (Nat.mul_le_mul_left _ (hfewer _)) (hsmall size)
  refine ⟨fun p hknown => htrained.meanTime_eq hsmall hknown,
    (htrained.means_eq hroom hsmall).trans (htrained_once.means_eq hroom hsmall_once).symm,
    fun r' hsame => ?_⟩
  have htimes : (f.predict r').predictions.map Prediction.time = r'.sizes.map d := by
    rw [Register.sizes, List.map_map]
    refine times_predictFrom (fun q hq => htrained.learnedTime_eq hroom hpos hsmall ?_) 0
    exact hsame ▸ List.mem_map_of_mem hq
  exact ⟨htimes, fun plan hlongest =>
    order_of_times (f := (f.setPlan plan).predict r') htimes hlongest⟩

section Paced

open Workbench

/-- Larger results need not take longer. -/
def pace (size : UInt64) : UInt64 := if size = 8 then 5 else if size = 16 then 40 else 20

theorem pace_bounds (size : UInt64) : 0 < pace size ∧ (pace size).toNat ≤ 40 := by
  unfold pace
  repeat' split
  all_goals decide

def paced : Register Val World where
  qubits := [8, 16, 8, 32].map fun size =>
    { scripted 0 [.advance (pace size)] with resultSize := size }

/-- The register is reset, and runs in the order that is proposed. -/
def lap (plan : Plan) : Cycle Val World where
  before := [.reset]
  plan := plan
  launch
    | none => .execute
    | some order => .executeOrdered order

def untrained : Situation Val World Stream :=
  ⟨ofSettings { patternCapacity := 3 } (.ofSeed 0), paced, {}⟩

/-- The table has just room for the sizes, and the longest run is that of a small result. -/
theorem settled_after_one_cycle_paced :
    let cycles := [lap .predicted, lap .shortestFirst]
    let f := (Cycle.performAll cycles untrained).forecast
    Cycle.AllRegular pace paced.sizes cycles untrained ∧
      ((untrained.forecast.predict paced).order paced).1 = some [3, 0, 1, 2] ∧
      means f.patterns = [(8, 5), (16, 40), (32, 20)] ∧
      (f.predict paced).predictions.map Prediction.time = [5, 40, 5, 20] ∧
      (((f.setPlan .longestFirst).predict paced).order paced).1 = some [1, 3, 0, 2] ∧
      [1, 3, 0, 2].Pairwise fun i j => paced.takes pace j < paced.takes pace i ∨
        paced.takes pace i = paced.takes pace j ∧ i < j := by
  intro cycles f
  have hregular : Cycle.AllRegular pace paced.sizes cycles untrained :=
    ⟨⟨rfl, by decide +kernel⟩, ⟨rfl, by decide +kernel⟩, trivial⟩
  have hsmall : ∀ size,
      (pace size).toNat * min ((1 + 1) * paced.sizes.count size) (2 ^ 32) < 2 ^ 64 := fun size =>
    Nat.lt_of_le_of_lt (Nat.mul_le_mul (pace_bounds size).2 (Nat.min_le_right _ _)) (by decide)
  have hsettled := settled_after_one_cycle { patternCapacity := 3 } (Stream.ofSeed 0) paced {}
    (lap .predicted) [lap .shortestFirst] (fun size _ => (pace_bounds size).1) (by decide) hregular
    hsmall
  obtain ⟨-, hmeans_eq, hlater⟩ := hsettled
  obtain ⟨htimes, horders⟩ := hlater paced rfl
  have hproposed :
      (((f.setPlan .longestFirst).predict paced).order paced).1 = some [1, 3, 0, 2] := by
    decide +kernel
  refine ⟨hregular, by decide +kernel, hmeans_eq.trans (by decide +kernel), htimes, hproposed, ?_⟩
  exact ((horders .longestFirst (.inl rfl)).2 _ hproposed).2

end Paced

end Forecast

end Superpose
