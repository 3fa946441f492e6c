import Superpose.Proofs.Register.Collapse
import Superpose.Proofs.Register.ExactlyOnce

/-!
# The order of a run does not matter

Self-contained qubits come to the same whenever they are run. So two accounts of them agree in all
qubits and both counters as soon as the same qubits were started (`Accounted.eq_of_still`), which
every complete dispatcher does in every order. Two ways of running a register, which may differ in
order, wave size and dispatcher, cannot be told apart afterwards (`run_alike`).
-/

namespace Superpose

variable {α ω : Type} [Clocked ω] {time : UInt64} {S : ω → Prop}

namespace Register

/-! ## Accounts of the same starts -/

theorem selfContained_opening {r : Register α ω}
    (h : ∀ q ∈ r.qubits, q.SelfContained S) (w : ω) :
    ∀ q ∈ (r.opening w).qubits, q.SelfContained S := by
  intro q hq
  obtain ⟨q₀, hq₀, rfl⟩ := List.mem_map.mp (show q ∈ r.qubits.map Qubit.skipIfDisabled from hq)
  have hbody : q₀.skipIfDisabled.body = q₀.body := by
    unfold Qubit.skipIfDisabled
    split <;> rfl
  intro body hb
  exact h q₀ hq₀ body (hbody ▸ hb)

/-- Self-contained qubits are always started in worlds of `S`. -/
theorem history_still (hstill : StandsStill time S) {qubits : List (Qubit α ω)}
    (h : ∀ q ∈ qubits, q.SelfContained S) :
    History qubits fun starts w => S w ∧ ∀ s ∈ starts, S s.world where
  job := by
    intro starts w i q hq hhist
    obtain ⟨ending, after, -, hrun⟩ :=
      Qubit.exists_run_eq hstill (h q (List.mem_of_getElem? hq))
    refine ⟨(hrun w hhist.1).2.2, fun s hs => ?_⟩
    rcases List.mem_append.mp hs with hs | hs
    · exact hhist.2 s hs
    · rw [List.mem_singleton.mp hs]
      exact hhist.1
  read := fun hhist => ⟨hstill.kept hhist.1, hhist.2⟩

/-- How a start ends depends on its index alone. -/
theorem endingOf_eq_of_still (hstill : StandsStill time S) {qubits : List (Qubit α ω)}
    (h : ∀ q ∈ qubits, q.SelfContained S) (i : Nat) {w w' : ω} (hw : S w) (hw' : S w') :
    endingOf qubits ⟨i, w⟩ = endingOf qubits ⟨i, w'⟩ := by
  unfold endingOf
  cases hq : qubits[i]? with
  | none => rfl
  | some q =>
    obtain ⟨ending, after, -, hrun⟩ :=
      Qubit.exists_run_eq hstill (h q (List.mem_of_getElem? hq))
    rw [Option.map_some, Option.map_some, (hrun w hw).1, (hrun w' hw').1]

/-- **Accounts agree when the same qubits were started**, in whatever order and worlds of `S`. -/
theorem Accounted.eq_of_still (hstill : StandsStill time S) {first now now' : Scene α ω}
    {starts starts' : List (Start ω)} (h : Accounted first starts now)
    (h' : Accounted first starts' now') (hfirst : ∀ q ∈ first.qubits, q.SelfContained S)
    {w₀ : ω} (hw₀ : S w₀) (hS : ∀ s ∈ starts, S s.world) (hS' : ∀ s ∈ starts', S s.world)
    (hmem : ∀ i, i ∈ starts.map Start.index ↔ i ∈ starts'.map Start.index) :
    now.qubits = now'.qubits ∧ now.progress.completed = now'.progress.completed ∧
      now.progress.failed = now'.progress.failed := by
  have hperm : (starts.map Start.index).Perm (starts'.map Start.index) :=
    (List.perm_ext_iff_of_nodup h.nodup h'.nodup).mpr hmem
  have hqubits : now.qubits = now'.qubits := by
    refine List.ext_getElem? fun i => ?_
    rw [h.qubits i, h'.qubits i]
    cases hq : first.qubits[i]? with
    | none => rfl
    | some q =>
      refine congrArg some ?_
      by_cases hi : i ∈ starts.map Start.index
      · obtain ⟨ending, after, -, hrun⟩ :=
          Qubit.exists_run_eq hstill (hfirst q (List.mem_of_getElem? hq))
        obtain ⟨s, hs, -, heq⟩ := exists_afterStarts_of_mem hi q
        obtain ⟨s', hs', -, heq'⟩ := exists_afterStarts_of_mem ((hmem i).mp hi) q
        rw [heq, heq', (hrun _ (hS s hs)).2.1, (hrun _ (hS' s' hs')).2.1]
      · rw [afterStarts_of_notMem hi, afterStarts_of_notMem (mt (hmem i).mpr hi)]
  have htally : ∀ {l : List (Start ω)} (e : Ending), (∀ s ∈ l, S s.world) →
      tallyOf first.qubits e l =
        (l.map Start.index).countP fun i => endingOf first.qubits ⟨i, w₀⟩ = some e := by
    intro l e hl
    rw [tallyOf, List.countP_map]
    refine List.countP_congr fun s hs => ?_
    rw [Function.comp_apply, ← endingOf_eq_of_still hstill hfirst s.index (hl s hs) hw₀]
  refine ⟨hqubits, ?_, ?_⟩
  · rw [h.completed, h'.completed, htally _ hS, htally _ hS', hperm.countP_eq]
  · rw [h.failed, h'.failed, htally _ hS, htally _ hS', hperm.countP_eq]

/-! ## Ways of running a register -/

/-- A dispatcher, and the order that it is given, if there is one. -/
structure Way where
  dispatcher : Dispatcher
  order : Option (List Nat)

namespace Way

/-- Every job is run, and what is listed are distinct qubits. -/
structure Proper (count : Nat) (way : Way) : Prop where
  complete : way.dispatcher.Complete
  isOrder : ∀ order ∈ way.order, IsOrder count order

/-- Runs a register with the dispatcher, in the order or by index. -/
def run (way : Way) (r : Register α ω) (w : ω) : Outcome × Register α ω × ω :=
  match way.order with
  | none => (r.setDispatcher way.dispatcher).execute w
  | some order => (r.setDispatcher way.dispatcher).executeOrdered w order

/-- Without an order nothing is listed. -/
theorem run_eq (way : Way) (r : Register α ω) (w : ω) :
    way.run r w = (r.setDispatcher way.dispatcher).executeOrdered w (way.order.getD []) := by
  unfold run
  cases way.order with
  | none => exact execute_eq_executeOrdered_nil _ w
  | some order => rfl

theorem Proper.isOrder_getD {count : Nat} {way : Way} (h : way.Proper count) :
    IsOrder count (way.order.getD []) := by
  cases horder : way.order with
  | none => exact ⟨List.nodup_nil, by simp⟩
  | some order => exact h.isOrder order horder

end Way

/-- A run of a register from a world that came to its end: it started the qubits that take part, in
worlds of `S`, and left the setup alone. -/
structure Ended (S : ω → Prop) (r : Register α ω) (w : ω) (starts : List (Start ω))
    (x : Outcome × Register α ω × ω) : Prop where
  account : Accounted (r.opening w) starts (x.2.1.scene x.2.2)
  worlds : ∀ s ∈ starts, S s.world
  started : ∀ i, i ∈ starts.map Start.index ↔ r.isEnabled i = true
  world : S x.2.2
  outcome : x.1 = .finished (decide (0 < r.enabledCount))
  strategy : x.2.1.strategy = r.strategy
  toolkit : x.2.1.toolkit = r.toolkit
  output : x.2.1.output = r.output
  collapsed : x.2.1.collapsed = false

/-- Every run of a register that is ready comes to its end. -/
theorem exists_ended {r : Register α ω} (hready : r.obstacle = none)
    (hunwatched : ∀ s ∈ r.steering, s.policy = .none) (hstill : StandsStill time S)
    (hbodies : ∀ q ∈ r.qubits, q.SelfContained S) {w : ω} (hw : S w) (hd : r.dispatcher.Complete)
    {order : List Nat} (horder : IsOrder r.count order) :
    ∃ starts, Ended S r w starts (r.executeOrdered w order) := by
  have hfirst := selfContained_opening hbodies w
  obtain ⟨starts, h⟩ := exists_advanced_executeOrdered hready w horder
    (history_still hstill hfirst) ⟨hstill.kept hw, by simp⟩
  obtain ⟨hS, hstarts⟩ := h.history
  rw [List.nil_append] at hstarts
  have hcalm : ∀ s ∈ starts, endingOf (r.opening w).qubits s ≠ some .panicked := by
    intro s hs hend
    obtain ⟨q, hq, hpanicked⟩ := Option.map_eq_some_iff.mp hend
    obtain ⟨ending, after, hne, heq⟩ :=
      Qubit.exists_run_eq hstill (hfirst q (List.mem_of_getElem? hq))
    exact hne ((heq _ (hstarts s hs)).1.symm.trans hpanicked)
  obtain ⟨hbroke, -⟩ := h.calm hcalm
  have hstarted : ∀ i, i ∈ starts.map Start.index ↔ r.isEnabled i = true := fun i =>
    (h.mem_map_index_iff hd hcalm i).trans (mem_filter_isEnabled horder i)
  have hsetup := sameSetup_runInOrder hready w (completeOrder r.count order)
  have hstrategy := strategy_runInOrder_of_unwatched hready hunwatched w
    (completeOrder r.count order)
  rw [← executeOrdered_of_isOrder horder] at hsetup hstrategy
  exact ⟨starts, h.accounted, hstarts, hstarted, hS,
    outcome_eq_finished hready horder (of_decide_eq_false hbroke), hstrategy, hsetup.toolkit,
    hsetup.output, hsetup.collapsed⟩

/-! ## Alike runs -/

variable [Inhabited α] [BEq α]

/-- Two attempts at a run that cannot be told apart by their outcome, by the qubits and figures that
they leave, nor by a collapse with whatever strategy. -/
structure Alike (x y : Outcome × Register α ω × ω) : Prop where
  outcome : x.1 = y.1
  qubits : x.2.1.qubits = y.2.1.qubits
  completed : x.2.1.progress.completed = y.2.1.progress.completed
  failed : x.2.1.progress.failed = y.2.1.progress.failed
  isComplete : x.2.1.isComplete = y.2.1.isComplete
  strategy : x.2.1.strategy = y.2.1.strategy
  collapse : ∀ s, ((x.2.1.setStrategy s).collapse x.2.2).1 =
    ((y.2.1.setStrategy s).collapse y.2.2).1

/-- What makes two attempts alike. -/
theorem Alike.of_eq {x y : Outcome × Register α ω × ω} (houtcome : x.1 = y.1)
    (hqubits : x.2.1.qubits = y.2.1.qubits)
    (hcompleted : x.2.1.progress.completed = y.2.1.progress.completed)
    (hfailed : x.2.1.progress.failed = y.2.1.progress.failed)
    (hstrategy : x.2.1.strategy = y.2.1.strategy) (htoolkit : x.2.1.toolkit = y.2.1.toolkit)
    (houtput : x.2.1.output = y.2.1.output) (hcollapsed : x.2.1.collapsed = y.2.1.collapsed)
    (hnow : (Clocked.read x.2.2).1 = (Clocked.read y.2.2).1) : Alike x y where
  outcome := houtcome
  qubits := hqubits
  completed := hcompleted
  failed := hfailed
  isComplete := by
    unfold Register.isComplete Register.enabledCount Progress.finished
    rw [hqubits, hcompleted, hfailed]
  strategy := hstrategy
  collapse s := collapse_fst_congr hqubits rfl htoolkit hcollapsed
    (congrArg (Option.getD · default) houtput) (fun _ => houtput) hnow

/-- **The order does not matter.** Take a register that no policy watches, with self-contained
bodies, while the clock stands still. Any two ways of running it, with any dispatchers that run
every job, in any orders and waves, are alike. -/
theorem run_alike {r : Register α ω} (hunwatched : ∀ s ∈ r.steering, s.policy = .none)
    (hstill : StandsStill time S) (hbodies : ∀ q ∈ r.qubits, q.SelfContained S) {w : ω} (hw : S w)
    {a b : Way} (ha : a.Proper r.count) (hb : b.Proper r.count) :
    Alike (a.run r w) (b.run r w) := by
  rw [a.run_eq, b.run_eq]
  cases hready : r.obstacle with
  | some fault =>
    have hrefused : ∀ (d : Dispatcher) {order : List Nat}, IsOrder r.count order →
        (r.setDispatcher d).executeOrdered w order = (.refused fault, r.setDispatcher d, w) := by
      intro d order horder
      have hobstacle : (r.setDispatcher d).obstacle = some fault := hready
      rw [executeOrdered_of_isOrder (r := r.setDispatcher d) horder, runInOrder, hobstacle]
    rw [hrefused a.dispatcher ha.isOrder_getD, hrefused b.dispatcher hb.isOrder_getD]
    exact Alike.of_eq rfl rfl rfl rfl rfl rfl rfl rfl rfl
  | none =>
    obtain ⟨starts, h⟩ := exists_ended (r := r.setDispatcher a.dispatcher) hready hunwatched
      hstill hbodies hw ha.complete ha.isOrder_getD
    obtain ⟨starts', h'⟩ := exists_ended (r := r.setDispatcher b.dispatcher) hready hunwatched
      hstill hbodies hw hb.complete hb.isOrder_getD
    -- both runs open with the same scene, and start the same qubits
    obtain ⟨hqubits, hcompleted, hfailed⟩ := h.account.eq_of_still hstill h'.account
      (selfContained_opening hbodies w) hw h.worlds h'.worlds
      fun i => (h.started i).trans (h'.started i).symm
    exact Alike.of_eq (h.outcome.trans h'.outcome.symm) hqubits hcompleted hfailed
      (h.strategy.trans h'.strategy.symm) (h.toolkit.trans h'.toolkit.symm)
      (h.output.trans h'.output.symm) (h.collapsed.trans h'.collapsed.symm)
      ((hstill.now h.world).trans (hstill.now h'.world).symm)

/-! ## An example -/

open Workbench

theorem selfContained_sample : ∀ q ∈ sample.qubits, q.SelfContained fun w => w.clock = 0 := by
  simp only [sample, List.forall_mem_cons]
  refine ⟨selfContained_scripted 0 ?_ 0, selfContained_scripted 1 ?_ 0,
    selfContained_scripted 2 ?_ 0, fun body hb => ?_, by simp⟩
  · simp [Action.IsPlain]
  · simp [Action.IsPlain]
  · simp [Action.IsPlain]
  · cases hb

/-- The sample, one qubit after the other and in waves of three from their ends. -/
theorem run_alike_sample :
    (∀ s ∈ sample.steering, s.policy = .none) ∧
      (Way.run ⟨.inline, none⟩ sample {}).1 = .finished true ∧
      Alike (Way.run ⟨.inline, none⟩ sample {})
        (Way.run ⟨.waves 3 true none, some [3, 0]⟩ sample {}) := by
  have hunwatched : ∀ s ∈ sample.steering, s.policy = .none := fun s hs => by cases hs
  refine ⟨hunwatched, by decide +kernel, run_alike hunwatched (standsStill 0) selfContained_sample
    rfl ⟨Dispatcher.complete_inline, fun order h => by cases h⟩
    ⟨Dispatcher.complete_waves 3 true, fun order h => ?_⟩⟩
  rw [← Option.some.inj h]
  exact ⟨by decide, by decide⟩

end Register

end Superpose
