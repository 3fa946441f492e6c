import Superpose.Proofs.Register.LatestRun

/-!
# Runs that break off

The flag that a run is on is taken back at the end of the run, and a body that breaks off keeps the
run from its end (`ended_executeOrdered`). A run that does not break off leaves no qubit running
(`still_runWaves`), while the qubit whose body broke off stays so, which is why with a dispatcher
that contains nothing no break-off goes unnoticed: the flag is left set exactly if there was one
(`executing_executeOrdered`). Which launches are refused for the flag, the end of the module says.
-/

namespace Superpose.Register

variable {α ω : Type}

/-- None of some qubits counts as running. -/
def Still (qubits : List (Qubit α ω)) : Prop := ∀ q ∈ qubits, q.status ≠ .running

section Runs

variable [Clocked ω]

/-! ## Runs that do not break off -/

theorem still_runJob {i : Nat} {s : Scene α ω} (h : Still s.qubits)
    (hcalm : (runJob i s).1 = false) : Still (runJob i s).2.qubits := by
  cases hq : s.qubits[i]? with
  | none =>
    rw [runJob, hq]
    exact h
  | some q =>
    rw [runJob_of_getElem? hq] at hcalm ⊢
    intro q' hq'
    rcases List.mem_or_eq_of_mem_set hq' with hmem | rfl
    · exact h q' hmem
    · rw [Qubit.run_status]
      cases hend : (q.run s.world).ending with
      | returned | failed => decide
      | panicked => simp [hend] at hcalm

theorem still_runJobs (persistent : Bool) : ∀ {is : List Nat} {s : Scene α ω}, Still s.qubits →
    (runJobs persistent is s).1 = false → Still (runJobs persistent is s).2.qubits := by
  intro is
  induction is with
  | nil => exact fun h _ => h
  | cons i is ih =>
    intro s h hcalm
    rw [runJobs] at hcalm ⊢
    split at hcalm
    · split at hcalm <;> cases hcalm
    · rename_i hfirst
      rw [if_neg hfirst]
      exact ih (still_runJob h (Bool.eq_false_iff.mpr hfirst)) hcalm

theorem still_runWave {r : Register α ω} (hopen : r.dispatcher.contained = false) {w : ω}
    {number : Nat} {wave : List Nat} (h : Still r.qubits)
    (hcalm : (r.runWave w number wave).panicked = false) :
    Still (r.runWave w number wave).register.qubits := by
  unfold runWave at hcalm ⊢
  simp only [hopen, Bool.not_false, Bool.and_true] at hcalm
  exact still_runJobs r.dispatcher.persistent h hcalm

/-- **A run that does not break off leaves no qubit running.** -/
theorem still_runWaves : ∀ {waves : List (List Nat)} (number : Nat) {r : Register α ω} {w : ω},
    r.dispatcher.contained = false → Still r.qubits →
      (runWaves number waves r w).panicked = false →
        Still (runWaves number waves r w).register.qubits := by
  intro waves
  induction waves with
  | nil => exact fun _ _ _ _ h _ => h
  | cons wave waves ih =>
    intro number r w hopen h hcalm
    rw [runWaves] at hcalm ⊢
    simp only at hcalm ⊢
    split at hcalm
    · rename_i hpanicked
      rw [hpanicked] at hcalm
      cases hcalm
    · rename_i hwave
      rw [if_neg hwave]
      refine ih (number + 1) ?_ ?_ hcalm
      · rw [checkpoint_dispatcher]
        exact hopen
      · rw [checkpoint_qubits]
        exact still_runWave hopen h (Bool.eq_false_iff.mpr hwave)

/-! ## The flag in a run -/

omit [Clocked ω] in
theorem executing_tallyEnding (p : Progress) (e : Ending) :
    (tallyEnding p e).executing = p.executing := by
  cases e <;> rfl

theorem executing_runJob (i : Nat) (s : Scene α ω) :
    (runJob i s).2.progress.executing = s.progress.executing := by
  unfold runJob
  split
  · rfl
  · exact executing_tallyEnding _ _

theorem executing_runJobs (persistent : Bool) : ∀ (is : List Nat) (s : Scene α ω),
    (runJobs persistent is s).2.progress.executing = s.progress.executing := by
  intro is
  induction is with
  | nil => exact fun _ => rfl
  | cons i is ih =>
    intro s
    rw [runJobs]
    split
    · split
      · exact (ih _).trans (executing_runJob i s)
      · exact executing_runJob i s
    · exact (ih _).trans (executing_runJob i s)

/-- The flag stays until the end of the run. -/
theorem executing_course (r : Register α ω) (w : ω) (order : List Nat) :
    (r.course w order).register.progress.executing = true :=
  runWaves_preserves (P := fun r => r.progress.executing = true)
    (fun _ _ _ _ h => (executing_runJobs _ _ _).trans h)
    (fun r w h => (congrArg Progress.executing (r.checkpoint_progress w)).trans h) _ _ _ _ rfl

omit [Clocked ω] in
theorem still_begin {r : Register α ω} (h : Still r.qubits) (now : UInt64) :
    Still (r.begin now).qubits := by
  intro q' hq'
  obtain ⟨q, hq, rfl⟩ := List.mem_map.mp hq'
  unfold Qubit.skipIfDisabled
  split
  · exact h q hq
  · nofun

/-- **The end of a run**: it breaks off and the flag stays, or the flag is taken back and no qubit
is running. -/
theorem ended_executeOrdered {r : Register α ω} {order : List Nat} (hready : r.obstacle = none)
    (horder : IsOrder r.count order) (hopen : r.dispatcher.contained = false)
    (h : Still r.qubits) (w : ω) :
    ((r.executeOrdered w order).1 = .panicked ∧
        (r.executeOrdered w order).2.1.progress.executing = true) ∨
      ((r.executeOrdered w order).1 ≠ .panicked ∧
        (r.executeOrdered w order).2.1.progress.executing = false ∧
        Still (r.executeOrdered w order).2.1.qubits) := by
  rw [executeOrdered_of_isOrder horder, runInOrder_of_ready hready]
  split
  · exact Or.inl ⟨rfl, executing_course r w _⟩
  · rename_i hcalm
    have hquiet := Bool.eq_false_iff.mpr hcalm
    exact Or.inr ⟨nofun, rfl, still_runWaves 0 hopen (still_begin h _) hquiet⟩

/-- A start that broke off has left its qubit running. -/
theorem exists_running_of_panicked {r : Register α ω} {first : Scene α (Diary ω)} {d : Diary ω}
    {starts : List (Start (Diary ω))} (h : Accounted first starts (r.noting.scene d))
    {s : Start (Diary ω)} (hs : s ∈ starts) (hend : endingOf first.qubits s = some .panicked) :
    ∃ q ∈ r.qubits, q.status = .running := by
  obtain ⟨p, s', hs', -, hindex, hend', hget⟩ :=
    h.exists_run_of_mem (List.mem_map.mpr ⟨s, hs, rfl⟩)
  obtain rfl : s' = s := List.inj_on_of_nodup_map h.nodup hs' hs hindex
  have hpanicked : (p.run s'.world).ending = .panicked := Option.some.inj (hend'.symm.trans hend)
  have hnow : (r.qubits.mapIdx Qubit.noting)[s'.index]? = some (p.run s'.world).qubit := hget
  rw [List.getElem?_mapIdx, Option.map_eq_some_iff] at hnow
  obtain ⟨q, hq, hsame⟩ := hnow
  refine ⟨q, List.mem_of_getElem? hq, ?_⟩
  have hstatus : q.status = (p.run s'.world).qubit.status :=
    congrArg (fun p : Qubit α (Diary ω) => p.status) hsame
  rw [hstatus, Qubit.run_status, hpanicked]
  rfl

/-- **The flag tells of a break-off**: after a run it is set exactly if a body broke off in it. -/
theorem executing_executeOrdered {r : Register α ω} {order : List Nat} (hready : r.obstacle = none)
    (horder : IsOrder r.count order) (hopen : r.dispatcher.contained = false)
    (hstill : Still r.qubits) (w : ω) :
    ((r.executeOrdered w order).2.1.progress.executing = true ↔
        ∃ run ∈ r.runsOf w order, run.2 = .panicked) ∧
      ((r.executeOrdered w order).2.1.progress.executing = false →
        Still (r.executeOrdered w order).2.1.qubits) := by
  have hended := ended_executeOrdered hready horder hopen hstill w
  obtain ⟨starts, h⟩ := exists_advanced_noting hready horder w
  have hruns : r.runsOf w order = _ := h.history
  have hacc := h.accounted
  rw [List.nil_append] at hruns hacc
  refine ⟨⟨fun hon => ?_, fun ⟨⟨i, e⟩, hrun, he⟩ => ?_⟩, fun hoff => ?_⟩
  · by_contra hnone
    have hquiet := endingOf_ne_panicked fun run hrun he => hnone ⟨run, hruns ▸ hrun, he⟩
    have hcalm := of_decide_eq_false (h.calm hquiet).1
    rcases hended with ⟨hpanicked, -⟩ | ⟨-, hoff, -⟩
    · exact hcalm hpanicked
    · rw [hoff] at hon
      cases hon
  · -- the qubit whose body broke off is still running
    cases he
    rw [hruns] at hrun
    obtain ⟨s, hs, rfl, hend, -⟩ := mem_flatMap_entriesOf.mp hrun
    obtain ⟨q', hq', hrunning⟩ := exists_running_of_panicked hacc hs hend
    rcases hended with ⟨-, hon⟩ | ⟨-, -, hstill⟩
    · exact hon
    · exact absurd hrunning (hstill q' hq')
  · rcases hended with ⟨-, hon⟩ | ⟨-, -, hstill⟩
    · rw [hon] at hoff
      cases hoff
    · exact hstill

/-! ## Launches -/

/-- No body is run in a launch that is refused. -/
theorem runsOf_of_refused {r : Register α ω} {w : ω} {order : List Nat} {fault : Fault}
    (h : (r.executeOrdered w order).1 = .refused fault) : r.runsOf w order = [] := by
  have hlaunched := launched_executeOrdered r.noting ⟨w, []⟩ order
  have hrefused : (r.noting.executeOrdered ⟨w, []⟩ order).1 = .refused fault := by
    rw [executeOrdered_noting]
    exact h
  unfold runsOf
  generalize r.noting.executeOrdered ⟨w, []⟩ order = x at hlaunched hrefused
  cases hlaunched with
  | refused => rfl
  | ran order hready haccepted => exact absurd hrefused (haccepted fault)

/-- A launch is refused as the run in its order is. -/
theorem Launch.executeOrdered_of_refused {l : Launch} {r : Register α ω} {w : ω} {fault : Fault}
    (h : (l.start r w).1 = .refused fault) : (r.executeOrdered w l.order).1 = .refused fault := by
  have hsame : (r.execute w).1 = (r.executeOrdered w []).1 :=
    congrArg Prod.fst (execute_eq_executeOrdered_nil r w)
  cases l with
  | execute => exact hsame.symm.trans h
  | executeSync =>
    have hsync : (r.executeSync w).1 = .refused fault := h
    unfold Register.executeSync at hsync
    split at hsync
    · cases hsync
    · exact hsame.symm.trans hsync
  | executeOrdered order => exact h

theorem Launch.runs_of_refused {l : Launch} {r : Register α ω} {w : ω} {fault : Fault}
    (h : (l.start r w).1 = .refused fault) : l.runs r w = [] :=
  runsOf_of_refused (executeOrdered_of_refused h)

theorem runInOrder_refused_iff {r : Register α ω} {w : ω} {order : List Nat} {fault : Fault} :
    (r.runInOrder w order).1 = .refused fault ↔ r.obstacle = some fault := by
  cases hready : r.obstacle with
  | some obstacle => rw [runInOrder, hready, Outcome.refused.injEq, Option.some.injEq]
  | none =>
    rw [runInOrder_of_ready hready]
    split <;> simp

/-- While a run is on, no other is begun. -/
theorem Launch.start_of_executing {r : Register α ω} (h : r.progress.executing = true) (l : Launch)
    (w : ω) (horder : IsOrder r.count l.order) :
    l.start r w = (.refused (.register .alreadyExecuting), r, w) := by
  have hrun : ∀ order, r.runInOrder w order = (.refused (.register .alreadyExecuting), r, w) := by
    intro order
    rw [runInOrder, obstacle, h]
    rfl
  cases l with
  | execute => exact hrun _
  | executeSync =>
    rw [start, Register.executeSync, Register.execute, hrun]
  | executeOrdered order => exact (executeOrdered_of_isOrder horder w).trans (hrun _)

/-- Where no run is on, none is the reason for a refusal. -/
theorem Launch.start_ne_alreadyExecuting {r : Register α ω} (h : r.progress.executing = false)
    (l : Launch) (w : ω) : (l.start r w).1 ≠ .refused (.register .alreadyExecuting) := by
  intro hrefused
  have hordered := executeOrdered_of_refused hrefused
  cases horder : orderFault r.count [] l.order with
  | some fault =>
    obtain ⟨reason, rfl⟩ := invalidOrder_of_orderFault horder
    rw [Register.executeOrdered, horder] at hordered
    cases hordered
  | none =>
    rw [executeOrdered_of_isOrder (orderFault_nil_eq_none_iff.mp horder)] at hordered
    have hobstacle := runInOrder_refused_iff.mp hordered
    rw [obstacle, h] at hobstacle
    obtain ⟨missing, -, hfault⟩ := Option.map_eq_some_iff.mp hobstacle
    cases hfault

/-- Where no run is on, a launch is accepted if the strategy is supported and the order is one. -/
theorem Launch.start_accepted {r : Register α ω} (h : r.progress.executing = false)
    (hsupported : r.supports r.strategy = true) {l : Launch} (horder : IsOrder r.count l.order)
    (w : ω) (fault : Fault) : (l.start r w).1 ≠ .refused fault := by
  intro hrefused
  have hordered := executeOrdered_of_refused hrefused
  rw [executeOrdered_of_isOrder horder, runInOrder_refused_iff,
    obstacle_eq_none_iff.mpr ⟨h, hsupported⟩] at hordered
  cases hordered

end Runs

end Superpose.Register
