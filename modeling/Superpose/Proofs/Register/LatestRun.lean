import Superpose.Proofs.Register.ExactlyOnce
import Superpose.Proofs.Register.History
import Superpose.Register.Collapse

/-!
# Whose results are collapsed

A collapse gathers the results of the qubits that are completed. After a run that left nobody out
these are results of that run. A run does not touch the status of a qubit that takes part in it
before its turn comes, so where the turn never comes, because the dispatcher leaves the job out or a
body breaks the run off, a result of an earlier run stays among them (`LeftOver`).
`completed_cases` says so for the end of a run, and `result_of_latest_run` at any time after it.
-/

namespace Superpose.Register

variable {α ω : Type} [Clocked ω]

/-- The bodies that a launch runs, each with the index of its qubit and its ending. -/
def Launch.runs (l : Launch) (r : Register α ω) (w : ω) : List (Nat × Ending) :=
  r.runsOf w l.order

/-! ## The end of a run -/

/-- A qubit that was to take part in a run, that was completed already when it began, and whose turn
did not come. -/
structure LeftOver (r : Register α ω) (runs : List (Nat × Ending)) (i : Nat) : Prop where
  enabled : r.isEnabled i = true
  completed : r.result? i ≠ none
  notRun : i ∉ runs.map Prod.fst
  /-- Its turn comes if nothing is left out and nothing breaks off. -/
  cause : ¬ r.dispatcher.Complete ∨ ∃ run ∈ runs, run.2 = .panicked

omit [Clocked ω] in
theorem result?_eq_some {r : Register α ω} {i : Nat} {a : α} (h : r.result? i = some a) :
    ∃ q, r.qubits[i]? = some q ∧ q.status = .completed := by
  obtain ⟨q, hq, hresult⟩ := Option.bind_eq_some_iff.mp h
  unfold Qubit.result? at hresult
  split at hresult
  · rename_i hstatus
    exact ⟨q, hq, hstatus⟩
  · cases hresult

omit [Clocked ω] in
theorem result?_ne_none {r : Register α ω} {i : Nat} {q : Qubit α ω} (hq : r.qubits[i]? = some q)
    (hstatus : q.status = .completed) : r.result? i ≠ none := by
  rw [result?, hq, Option.bind_some, Qubit.result?, if_pos hstatus]
  exact Option.some_ne_none q.data

/-- What a qubit was at the beginning of a run in which its turn did not come. -/
theorem leftOver_of_notMem {r : Register α ω} {w : ω} {order : List Nat}
    {starts : List (Start (Diary ω))} {now : Scene α (Diary ω)} {broke : Bool}
    (horder : IsOrder r.count order)
    (h : Advanced (r.noting.opening ⟨w, []⟩)
      (fun starts d => d.runs = starts.flatMap (entriesOf (r.noting.opening ⟨w, []⟩).qubits)) []
      ((completeOrder r.count order).filter r.isEnabled) r.dispatcher.Complete now broke starts)
    {i : Nat} {q : Qubit α ω} (hq : r.qubits[i]? = some q) (hi : i ∉ starts.map Start.index)
    (hstatus : q.skipIfDisabled.status = .completed) :
    LeftOver r (starts.flatMap (entriesOf (r.noting.opening ⟨w, []⟩).qubits)) i := by
  have hon : q.enabled = true := by
    by_contra hoff
    rw [Qubit.skipIfDisabled, if_neg hoff] at hstatus
    cases hstatus
  rw [Qubit.skipIfDisabled, if_pos hon] at hstatus
  have henabled : r.isEnabled i = true := by rw [isEnabled, hq, Option.any_some, hon]
  refine ⟨henabled, result?_ne_none hq hstatus, ?_, ?_⟩
  · intro hmem
    obtain ⟨⟨j, e⟩, hrun, rfl⟩ := List.mem_map.mp hmem
    obtain ⟨s, hs, hsi, -⟩ := mem_flatMap_entriesOf.mp hrun
    exact hi (List.mem_map.mpr ⟨s, hs, hsi⟩)
  · by_contra hcause
    rw [not_or, not_not] at hcause
    have hcalm := endingOf_ne_panicked fun run hrun hpanicked => hcause.2 ⟨run, hrun, hpanicked⟩
    exact hi ((h.mem_map_index_iff hcause.1 hcalm i).mpr
      ((mem_filter_isEnabled horder i).mpr henabled))

/-- **Who is completed at the end of a run**: whose body returned in it, or who was completed before
and was left over. -/
theorem completed_cases {r : Register α ω} {w : ω} {order : List Nat} (hready : r.obstacle = none)
    (horder : IsOrder r.count order) {i : Nat} {q' : Qubit α ω}
    (hq' : (r.executeOrdered w order).2.1.qubits[i]? = some q') (hstatus : q'.status = .completed) :
    (i, .returned) ∈ r.runsOf w order ∨ LeftOver r (r.runsOf w order) i := by
  obtain ⟨starts, h⟩ := exists_advanced_noting hready horder w
  have hruns : r.runsOf w order = _ := h.history
  have hacc := h.accounted
  rw [List.nil_append] at hruns hacc
  have hnow : ((r.executeOrdered w order).2.1.noting.scene
      (⟨(r.executeOrdered w order).2.2, r.runsOf w order⟩ : Diary ω)).qubits[i]? =
        some (q'.noting i) := by
    show ((r.executeOrdered w order).2.1.qubits.mapIdx Qubit.noting)[i]? = _
    rw [List.getElem?_mapIdx, hq', Option.map_some]
  rw [hruns]
  by_cases hi : i ∈ starts.map Start.index
  · left
    obtain ⟨p, s, hs, hfirst, hsi, hend, hget⟩ := hacc.exists_run_of_mem hi
    rw [hnow, Option.some.injEq] at hget
    have hcompleted : Qubit.statusAfter (p.run s.world).ending = Qubit.statusAfter .returned := by
      rw [← Qubit.run_status, ← hget]
      exact hstatus
    have hreturned := statusAfter_injective hcompleted
    -- only a body can return, so this ending is in the diary
    refine mem_flatMap_entriesOf.mpr ⟨s, hs, hsi, hend.trans (congrArg some hreturned), _, hfirst,
      fun hbody => ?_⟩
    rw [Qubit.run_ending_of_body_eq_none hbody] at hreturned
    cases hreturned
  · -- its turn did not come, so it is as the beginning of the run left it
    right
    have hget := hacc.getElem?_of_notMem hi
    rw [hnow, getElem?_opening_noting] at hget
    obtain ⟨q, hq, hsame⟩ := Option.map_eq_some_iff.mp hget.symm
    have hsameStatus : q.skipIfDisabled.status = q'.status :=
      congrArg (fun p : Qubit α (Diary ω) => p.status) hsame
    exact leftOver_of_notMem horder h hq hi (hsameStatus.trans hstatus)

/-! ## After the run -/

variable [Inhabited α] [BEq α]

/-- Nobody is completed but in a run. -/
theorem Operation.completed_of_perform {op : Operation α ω} {r : Register α ω} {w : ω}
    (hstarts : ¬ op.StartsRun r w) {i : Nat} {q' : Qubit α ω}
    (hq' : (op.perform r w).2.1.qubits[i]? = some q') (hstatus : q'.status = .completed) :
    ∃ q, r.qubits[i]? = some q ∧ q.status = .completed := by
  have heffect := op.effect_perform r w
  generalize (op.perform r w).2.1 = r' at heffect hq'
  cases heffect with
  | idle | equipment | collapsed => exact ⟨q', hq', hstatus⟩
  | qubit j f hf =>
    simp only [List.getElem?_modify, Option.map_eq_map, Option.map_eq_some_iff] at hq'
    obtain ⟨q, hq, rfl⟩ := hq'
    refine ⟨q, hq, ?_⟩
    split at hstatus
    · rcases hf q with hkept | hpending
      · rw [← hkept]
        exact hstatus
      · rw [hpending] at hstatus
        cases hstatus
    · exact hstatus
  | ran order hran => exact absurd hran hstarts
  | reset =>
    obtain ⟨q, hq, rfl⟩ := Option.map_eq_some_iff.mp ((List.getElem?_map ..).symm.trans hq')
    cases hstatus
  | checked =>
    rw [checkpoint_qubits] at hq'
    exact ⟨q', hq', hstatus⟩

theorem completed_of_performAll {ops : List (Operation α ω)} {r : Register α ω} {w : ω}
    (hops : Throughout (fun op r w => ¬ op.StartsRun r w) ops r w) {i : Nat} {q' : Qubit α ω}
    (hq' : (performAll ops r w).1.qubits[i]? = some q') (hstatus : q'.status = .completed) :
    ∃ q, r.qubits[i]? = some q ∧ q.status = .completed := by
  refine performAll_preserves (P := fun op r w => ¬ op.StartsRun r w)
    (Q := fun now => ∀ q', now.qubits[i]? = some q' → q'.status = .completed →
      ∃ q, r.qubits[i]? = some q ∧ q.status = .completed)
    (fun op now w hop ih q' hq' hstatus => ?_) hops (fun q hq hstatus => ⟨q, hq, hstatus⟩)
    q' hq' hstatus
  obtain ⟨q, hq, hbefore⟩ := op.completed_of_perform hop hq' hstatus
  exact ih q hq hbefore

omit [Clocked ω] [Inhabited α] [BEq α] in
/-- What a collapse gathers are the results of the qubits, by index. -/
theorem results_eq_filterMap (r : Register α ω) :
    r.results = (List.range r.count).filterMap r.result? := by
  unfold results count result?
  induction r.qubits with
  | nil => rfl
  | cons q qubits ih =>
    rw [List.length_cons, List.range_succ_eq_map, List.filterMap_cons, List.filterMap_cons,
      List.filterMap_map, ih]
    rfl

/-- **Whose results are collapsed.** What a collapse gathers are the results of the qubits. A new
register has none until a run begins. After a launch that was accepted, and any later operations
among which no run begins, every result belongs to a qubit whose body was run by that launch and
returned, or to one that was completed before the launch and was left over by it: its turn did not
come, and the dispatcher is one that leaves jobs out or a body broke the run off. -/
theorem result_of_latest_run :
    (∀ r : Register α ω, r.results = (List.range r.count).filterMap r.result?) ∧
    (∀ (r : Register α ω) (w : ω) (ops : List (Operation α ω)), IsNew r →
      Throughout (fun op r w => ¬ op.StartsRun r w) ops r w →
        ∀ i, (performAll ops r w).1.result? i = none) ∧
    ∀ (l : Launch) (r : Register α ω) (w : ω), (∀ fault, (l.start r w).1 ≠ .refused fault) →
      ∀ later : List (Operation α ω),
        Throughout (fun op r w => ¬ op.StartsRun r w) later (l.start r w).2.1 (l.start r w).2.2 →
          ∀ i a, (performAll later (l.start r w).2.1 (l.start r w).2.2).1.result? i = some a →
            (i, .returned) ∈ l.runs r w ∨ LeftOver r (l.runs r w) i := by
  refine ⟨results_eq_filterMap, fun r w ops hnew hops i => ?_,
    fun l r w haccepted later hlater i a hresult => ?_⟩
  · cases hresult : (performAll ops r w).1.result? i with
    | none => rfl
    | some a =>
      obtain ⟨q', hq', hstatus⟩ := result?_eq_some hresult
      obtain ⟨q, hq, hcompleted⟩ := completed_of_performAll hops hq' hstatus
      obtain ⟨ids, strategy, waitsForAll, dispatcher, rfl⟩ := hnew.eq
      obtain ⟨id, -, rfl⟩ := Option.map_eq_some_iff.mp ((List.getElem?_map ..).symm.trans hq)
      cases hcompleted
  · obtain ⟨hready, horder, hend⟩ := Launch.of_accepted haccepted
    obtain ⟨q', hq', hstatus⟩ := result?_eq_some hresult
    obtain ⟨q, hq, hcompleted⟩ := completed_of_performAll hlater hq' hstatus
    rw [hend] at hq
    exact completed_cases hready horder hq hcompleted

section BrokenOff

open Workbench

/-- Two qubits that have nothing to do yet. -/
def blankPair : Register Val World := { qubits := [.blank 0, .blank 1] }

/-- Gives a qubit of the workbench something to do. -/
def assign (i : Nat) (actions : List Action) : Operation Val World :=
  .set (.initQubit i (Script.body ⟨actions, 0, 0⟩) (.ofInt 1) 0)

/-- Both qubits are run, and then the first is given a body that breaks off. -/
def rerun : List (Operation Val World) :=
  [assign 0 [.add 1], assign 1 [.add 2], .launch .execute, assign 0 [.panic]]

/-- The second run breaks off before the second qubit, whose result of the first run is left
over. -/
theorem result_of_latest_run_brokenOff :
    LeftOver (performAll rerun blankPair {}).1
      (Launch.execute.runs (performAll rerun blankPair {}).1 (performAll rerun blankPair {}).2)
      1 := by
  have hresult := result_of_latest_run.2.2 .execute (performAll rerun blankPair {}).1
    (performAll rerun blankPair {}).2 nofun [] trivial 1 (.int 3) rfl
  exact hresult.resolve_left (by decide +kernel)

/-- A collapse then answers the result of the earlier run. -/
theorem earlier_result_collapsed :
    IsNew blankPair ∧
      (Launch.execute.start (performAll rerun blankPair {}).1 (performAll rerun blankPair {}).2).1 =
        .panicked ∧
      Launch.execute.runs (performAll rerun blankPair {}).1 (performAll rerun blankPair {}).2 =
        [(0, .panicked)] ∧
      (performAll (rerun ++ [.launch .execute]) blankPair {}).1.results = [.int 3] ∧
      ((performAll (rerun ++ [.launch .execute]) blankPair {}).1.collapse {}).1 = .ok (.int 3) :=
  ⟨⟨1, 2, {}, rfl⟩, rfl, by decide +kernel, rfl, rfl⟩

end BrokenOff

end Superpose.Register
