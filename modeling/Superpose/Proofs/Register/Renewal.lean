import Superpose.Proofs.Register.Disguise
import Superpose.Proofs.Register.Furnishing
import Superpose.Proofs.Register.LatestRun
import Superpose.Proofs.Register.Refusal

/-!
# A reset forgets the past

A register that is reset has nothing left of its runs but its output, which cannot be seen, and the
history of scores. A register that was made anew and given the same things differs from it only in
these, so both look the same behind the disguise that hides them (`disguised_reset`). No run sees
through it, and no collapse does whose strategy is memoryless, that is, does not look at the old
output or the history (`collapse_of_memoryless`). Hence the two registers behave alike.
-/

namespace Superpose

open Choice

variable {α ω : Type}

/-! ## Strategies without a memory -/

/-- A strategy that, with a toolkit, looks neither at what the output held before nor at the history
of scores. -/
structure Toolkit.Memoryless (t : Toolkit α) (s : Strategy) : Prop where
  direct : s ∉ [Strategy.combine, .custom, .temporal]
  panel : s = .ensemble → ∀ p ∈ t.panel, ∀ m ∈ p.members, m.strategy ≠ .temporal

theorem nominee_withTrend {s : Strategy} (hs : s ≠ .temporal) (tools : Toolkit α)
    (trend : Option Trend) (results : List α) :
    nominee { tools with trend } results s = nominee tools results s := by
  cases s with
  | temporal => exact absurd rfl hs
  | _ => rfl

theorem elected_withTrend {panel : Panel} (hpanel : ∀ m ∈ panel.members, m.strategy ≠ .temporal)
    (tools : Toolkit α) (trend : Option Trend) (results : List α) :
    elected { tools with trend } panel results = elected tools panel results := by
  have hballots : ballots { tools with trend } panel results = ballots tools panel results :=
    List.map_congr_left fun m hm => by rw [nominee_withTrend (hpanel m hm)]
  rw [elected, hballots, elected]

section Reduction

variable [BEq α]

/-- A strategy without a memory rules alike whatever there is to be remembered. -/
theorem ruling_of_memoryless {tools : Toolkit α} {s : Strategy} (h : tools.Memoryless s)
    (results : List α) (output output' : α) (trend : Option Trend) (now : UInt64) :
    ruling s results output' { tools with trend } now = ruling s results output tools now := by
  cases s with
  | combine | custom | temporal => exact absurd (by decide) h.direct
  | ensemble =>
    simp only [ruling]
    cases hpanel : tools.panel with
    | none => rfl
    | some panel => exact congrArg Ruling.select (elected_withTrend (h.panel rfl panel hpanel) ..)
  | _ => rfl

theorem reduce_of_memoryless {tools : Toolkit α} {s : Strategy} (h : tools.Memoryless s)
    {results : List α} (hne : results.isEmpty = false) (output output' : α) (trend : Option Trend)
    (now : UInt64) :
    (reduce s results output' { tools with trend } now).verdict =
        (reduce s results output tools now).verdict ∧
      ∀ choice, (reduce s results output tools now).verdict = .ok choice →
        (reduce s results output' { tools with trend } now).output =
          (reduce s results output tools now).output := by
  have hsound := sound_ruling s (by simpa using hne) output tools now
  unfold reduce
  rw [ruling_of_memoryless h results output output' trend now]
  generalize ruling s results output tools now = x at hsound
  simp only [hne, Bool.false_eq_true, ↓reduceIte]
  cases hsound with
  | refuse fault => exact ⟨rfl, nofun⟩
  | select hi =>
    simp only [List.getElem?_eq_getElem hi, Option.getD_some]
    exact ⟨trivial, fun _ _ => trivial⟩
  | selectRecording hs => exact absurd (by rw [hs]; decide) h.direct
  | compute hs => exact absurd (by rcases hs with rfl | rfl <;> decide) h.direct

end Reduction

/-! ## The disguise -/

/-- A toolkit is what was given, and what is recorded in its history. -/
theorem Toolkit.eq_of_outfit_eq {t t' : Toolkit α} (h : t'.outfit = t.outfit) :
    t' = { t with trend := t'.trend } := by
  obtain ⟨evaluator, combiner, custom, criteria, trend, panel⟩ := t
  obtain ⟨evaluator', combiner', custom', criteria', trend', panel'⟩ := t'
  simp only [outfit, mk.injEq] at h
  obtain ⟨rfl, rfl, rfl, rfl, -, rfl⟩ := h
  rfl

namespace Register

section Disguised

variable [Clocked ω]

/-- Hides what a register was not given: the numbers and texts of its qubits, its output, and what
is recorded in its history. -/
def outfitting : Disguise α ω where
  qubit q := { q with id := 0, note := none }
  toolkit := Toolkit.outfit
  output _ := none
  enabled_qubit _ := rfl
  status_qubit _ := rfl
  duration_qubit _ := rfl
  skipIfDisabled_qubit q := by
    unfold Qubit.skipIfDisabled
    simp only
    split <;> rfl
  run_qubit q w := by
    obtain ⟨enabled, status, body, data, size, started, ended, id, note⟩ := q
    cases body with
    | none => rfl
    | some body =>
      simp only [Qubit.run]
      split <;> rfl
  presence_toolkit t := by
    obtain ⟨evaluator, combiner, custom, criteria, _ | h, panel⟩ := t <;> rfl
  panel_toolkit _ := rfl

/-- Registers in which the same can be seen of how the last run went: the statuses, data and times
of the qubits, the counters, what they tell of completion, and how long the run took. -/
structure SameCourse (a b : Register α ω) : Prop where
  qubits : (b.qubits.map fun q => (q.status, q.data, q.started, q.ended)) =
    a.qubits.map fun q => (q.status, q.data, q.started, q.ended)
  progress : b.progress = a.progress
  complete : b.isComplete = a.isComplete
  awaited : b.progress.isComplete = a.progress.isComplete
  runTime : b.runTime = a.runTime

variable {a b r f : Register α ω}

theorem sameCourse_of_disguised (h : b.disguised outfitting = a.disguised outfitting) :
    SameCourse a b where
  qubits := by
    have hqubits : b.qubits.map outfitting.qubit = a.qubits.map outfitting.qubit :=
      congrArg Register.qubits h
    have hseen := congrArg (List.map fun q => (q.status, q.data, q.started, q.ended)) hqubits
    rw [List.map_map, List.map_map] at hseen
    exact hseen
  progress := by
    have hprogress := congrArg Register.progress h
    exact hprogress
  complete := by rw [← isComplete_disguised outfitting b, h, isComplete_disguised]
  awaited := by
    have hprogress := congrArg Register.progress h
    exact congrArg Progress.isComplete hprogress
  runTime := by
    have htime := congrArg Register.runTime h
    exact htime

theorem results_of_disguised (h : b.disguised outfitting = a.disguised outfitting) :
    b.results = a.results := by
  have hqubits : b.qubits.map outfitting.qubit = a.qubits.map outfitting.qubit :=
    congrArg Register.qubits h
  have hresults := congrArg (List.filterMap Qubit.result?) hqubits
  rw [List.filterMap_map, List.filterMap_map] at hresults
  exact hresults

variable [Inhabited α]

/-- **Behind the disguise a register that is reset is as new.** -/
theorem disguised_reset (h : Furnished f) (hsame : SameOutfit r f) :
    f.disguised outfitting = r.reset.disguised outfitting := by
  have hunused := h.unused
  let dressed (o : Bool × Option (Body α ω) × α × UInt64) : Qubit α ω :=
    { enabled := o.1, body := o.2.1, data := o.2.2.1, resultSize := o.2.2.2, id := 0 }
  have hnew : f.qubits.map outfitting.qubit = (f.qubits.map Qubit.outfit).map dressed := by
    rw [List.map_map]
    refine List.map_congr_left fun q hq => ?_
    obtain ⟨hstatus, hstarted, hended⟩ := hunused.qubits q hq
    obtain ⟨enabled, status, body, data, size, started, ended, id, note⟩ := q
    cases hstatus
    cases hstarted
    cases hended
    rfl
  have hreset : (r.qubits.map Qubit.reset).map outfitting.qubit =
      (r.qubits.map Qubit.outfit).map dressed := by
    rw [List.map_map, List.map_map]
    rfl
  have hqubits :
      f.qubits.map outfitting.qubit = (r.qubits.map Qubit.reset).map outfitting.qubit := by
    rw [hnew, hreset, hsame.qubits]
  have htoolkit : ∀ t : Toolkit α, (outfitting : Disguise α ω).toolkit t = t.outfit := fun _ => rfl
  simp only [disguised, reset, hqubits, htoolkit, hsame.toolkit, hsame.strategy,
    hsame.waitsForAll, hsame.dataSize, hsame.dispatcher, hsame.steering, hunused.progress,
    hunused.collapsed, hunused.runTime, hunused.collapseTime]
  rfl

end Disguised

/-! ## Collapses behind the disguise -/

section Collapse

variable [Clocked ω] [Inhabited α] [BEq α] {a b : Register α ω}

/-- **A collapse whose strategy is memoryless does not see through the disguise.** -/
theorem collapse_of_memoryless (hsame : b.disguised outfitting = a.disguised outfitting)
    (hopen : a.collapsed = false) (h : a.toolkit.Memoryless a.strategy) (w : ω) :
    (b.collapse w).1 = (a.collapse w).1 := by
  have hopen' : b.collapsed = false := by
    have hcollapsed := congrArg Register.collapsed hsame
    exact hcollapsed.trans hopen
  have hstrategy : b.strategy = a.strategy := by
    have hstrategy := congrArg Register.strategy hsame
    exact hstrategy
  have htoolkit : b.toolkit = { a.toolkit with trend := b.toolkit.trend } := by
    have houtfit := congrArg Register.toolkit hsame
    exact Toolkit.eq_of_outfit_eq houtfit
  have hmissing : b.toolkit.missing a.strategy = a.toolkit.missing a.strategy := by
    rw [← missing_disguised outfitting b, hsame, missing_disguised]
  rw [collapse_fst_of_open hopen, collapse_fst_of_open hopen', hstrategy, hmissing,
    results_of_disguised hsame]
  split
  · rfl
  · split
    · rfl
    · rename_i hne
      obtain ⟨hverdict, houtput⟩ := reduce_of_memoryless h (Bool.eq_false_iff.mpr hne)
        (a.output.getD default) (b.output.getD default) b.toolkit.trend (Clocked.read w).1
      rw [← htoolkit] at hverdict houtput
      simp only [hverdict]
      split
      · rfl
      · rename_i choice hchoice
        rw [houtput choice hchoice]

/-! ## After a reset -/

omit [Inhabited α] [BEq α] in
/-- A run without a steering keeps the strategy. -/
theorem Launch.strategy_start {r : Register α ω} (h : r.steering = none) (l : Launch) (w : ω) :
    (l.start r w).2.1.strategy = r.strategy := by
  have hlaunched := l.launched_start r w
  generalize l.start r w = x at hlaunched
  cases hlaunched with
  | refused => rfl
  | ran order hready _ hend =>
    rw [hend]
    exact strategy_runInOrder_of_unwatched hready (by simp [h]) w order

/-- **A reset forgets the past.** What a register has that can be reached and is under no steering
can be given to a new one. A new register that was given the same, and the register after a reset,
look alike. Whatever is launched then in whatever world, both answer the same and leave the same
world, the same statuses, data and times of the qubits, the same counters and the same answers on
completion. And a collapse after it answers the same, the value or the fault, unless its strategy
looks at the old output or at the history of scores. -/
theorem reset_forgets :
    (∀ r : Register α ω, Reachable r → r.steering = none →
      ∃ f : Register α ω, Furnished f ∧ SameOutfit r f) ∧
    ∀ r f : Register α ω, r.steering = none → Furnished f → SameOutfit r f →
      SameCourse r.reset f ∧
      ∀ (l : Launch) (w : ω),
        (l.start f w).1 = (l.start r.reset w).1 ∧
        (l.start f w).2.2 = (l.start r.reset w).2.2 ∧
        SameCourse (l.start r.reset w).2.1 (l.start f w).2.1 ∧
        (r.toolkit.Memoryless r.strategy → ∀ w' : ω,
          ((l.start f w).2.1.collapse w').1 = ((l.start r.reset w).2.1.collapse w').1) := by
  refine ⟨fun r hr hfree => hr.exists_furnished hfree, fun r f hfree hf hsame => ?_⟩
  have hdisguised := disguised_reset hf hsame
  refine ⟨sameCourse_of_disguised hdisguised, fun l w => ?_⟩
  have hstart := congrArg (fun r => l.start r w) hdisguised
  simp only [Launch.start_disguised, Prod.mk.injEq] at hstart
  obtain ⟨houtcome, hregister, hworld⟩ := hstart
  refine ⟨houtcome, hworld, sameCourse_of_disguised hregister, fun hmemoryless w' => ?_⟩
  refine collapse_of_memoryless hregister ?_ ?_ w'
  · exact Bool.eq_false_iff.mpr fun hkept => Bool.false_ne_true (l.collapsed_start hkept)
  · have hstrategy : (l.start r.reset w).2.1.strategy = r.strategy :=
      Launch.strategy_start (r := r.reset) hfree l w
    have htoolkit : (l.start r.reset w).2.1.toolkit = r.toolkit := l.toolkit_start r.reset w
    rw [hstrategy, htoolkit]
    exact hmemoryless

end Collapse

section Sample

open Workbench

/-- Two runs, the first of which is collapsed and the second of which breaks off. -/
def eventful : List (Operation Val World) :=
  [assign 0 [.add 1], assign 1 [.add 2], .launch .execute, .collapse, .set (.setNote 1 "second"),
    assign 0 [.panic], .launch .execute, assign 0 [.add 4]]

/-- What the register of these runs has, given to a new one. -/
def furnishing : List (Operation Val World) :=
  [assign 0 [.add 4], assign 1 [.add 2], .setData 1 (.int 3)]

/-- After a reset both registers come to the same value. -/
theorem reset_forgets_eventful :
    let r := (performAll eventful blankPair {}).1
    let f := (performAll furnishing blankPair {}).1
    Reachable r ∧ r.progress.executing = true ∧ r.steering = none ∧
      (∃ f : Register Val World, Furnished f ∧ SameOutfit r f) ∧ Furnished f ∧ SameOutfit r f ∧
      (Launch.execute.start r.reset {}).1 = .finished true ∧
      SameCourse (Launch.execute.start r.reset {}).2.1 (Launch.execute.start f {}).2.1 ∧
      ((Launch.execute.start r.reset {}).2.1.collapse {}).1 = .ok (.int 5) := by
  intro r f
  have hnew : IsNew blankPair := ⟨1, 2, {}, rfl⟩
  have hr : Reachable r := Reachable.performAll eventful {} (.new hnew)
  have hfirst : Furnished _ :=
    (Furnished.new hnew).set (.initQubit 0 (Script.body ⟨[.add 4], 0, 0⟩) (.ofInt 1) 0) rfl
  have hsecond : Furnished _ :=
    hfirst.set (.initQubit 1 (Script.body ⟨[.add 2], 0, 0⟩) (.ofInt 1) 0) rfl
  have hf : Furnished f := hsecond.setData 1 (.int 3) rfl
  have hsame : SameOutfit r f := ⟨rfl, rfl, rfl, rfl, rfl, rfl, rfl⟩
  have hmemoryless : r.toolkit.Memoryless r.strategy := ⟨by decide, nofun⟩
  obtain ⟨houtcome, -, hcourse, hcollapse⟩ := (reset_forgets.2 r f rfl hf hsame).2 .execute {}
  refine ⟨hr, rfl, rfl, reset_forgets.1 r hr rfl, hf, hsame, houtcome.symm.trans rfl, hcourse, ?_⟩
  exact (hcollapse hmemoryless {}).symm.trans rfl

end Sample

end Register

end Superpose
