import Superpose.Proofs.Register.Collapse
import Superpose.Proofs.Register.SingleSwitch
import Superpose.Proofs.Run.Frame

/-!
# A run leaves the register collapsible

A run begins with a strategy that the register supports, and a checkpoint changes it to none but
another such strategy, whatever it sees of the run, of the adviser and of the clock
(`collapsible_checkpoint`). So a register that has run supports the strategy that it then has, and a
collapse fails for want of results or because they disagree (`collapsible_of_finished`), and not for
want of a piece.
-/

namespace Superpose.Register

variable {α ω : Type}

/-- Whether the register has all that its own strategy depends on. -/
def Collapsible (r : Register α ω) : Prop := r.supports r.strategy = true

variable [Clocked ω]

theorem collapsible_checkpoint {r : Register α ω} (h : r.Collapsible) (w : ω) :
    (r.checkpoint w).2.1.Collapsible := by
  rcases r.checkpoint_cases w with ⟨st, hc, -⟩ | ⟨st, next, hc, -, hnext⟩
  · rw [hc]
    exact h
  · rw [hc]
    exact hnext

/-- **A run keeps the register collapsible**, whether it ends or a body breaks it off. -/
theorem collapsible_runInOrder {r : Register α ω} (hready : r.obstacle = none) (w : ω)
    (order : List Nat) : (r.runInOrder w order).2.1.Collapsible := by
  refine runInOrder_preserves (P := Collapsible) (fun _ _ _ _ h => h)
    (fun _ w h => collapsible_checkpoint h w) (fun _ _ h => h) hready w order ?_
  unfold obstacle at hready
  split at hready
  · cases hready
  · exact Option.isNone_iff_eq_none.mpr (Option.map_eq_none_iff.mp hready)

variable [Inhabited α] [BEq α]

/-- A register that supports its strategy and holds no value yet fails to collapse only over its
results. -/
theorem isDisagreement_of_error {r : Register α ω} (hcollapsible : r.Collapsible)
    (hcollapsed : r.collapsed = false) {w : ω} {fault : Fault}
    (h : (r.collapse w).1 = .error fault) :
    ∃ f : CollapseFault, fault = .collapse f ∧ f.IsDisagreement := by
  have hmissing : r.toolkit.missing r.strategy = none :=
    Option.isNone_iff_eq_none.mp hcollapsible
  have hfailing := failing_of_error h
  generalize (r.collapse w).2.1 = r', (r.collapse w).2.2 = w' at hfailing
  cases hfailing with
  | noValue text hvalue => rw [hcollapsed] at hvalue; cases hvalue
  | missing hvalue hgap => rw [hmissing] at hgap; cases hgap
  | noResults => exact ⟨.noResults, rfl, trivial⟩
  | refused hvalue hnone hruling => exact ⟨_, rfl, ruling_eq_refuse hmissing hruling⟩

/-- **Steering keeps the register collapsible.** After a launch that was accepted and ended, under
whatever steering, clock and dispatcher, the register supports the strategy that it then has, and
a collapse can only fail because there are no results, because they differ, or because no two
agree. -/
theorem collapsible_of_finished {l : Launch} {r : Register α ω} {w : ω} {yes : Bool}
    (h : (l.start r w).1 = .finished yes) :
    (l.start r w).2.1.supports (l.start r w).2.1.strategy = true ∧
      ∀ w' fault, ((l.start r w).2.1.collapse w').1 = .error fault →
        fault = .collapse .noResults ∨ (∃ i, fault = .collapse (.mismatch i)) ∨
          ∃ largest total, fault = .collapse (.noConsensus largest total) := by
  have hlaunched := l.launched_start r w
  generalize l.start r w = x at h hlaunched
  cases hlaunched with
  | refused fault => cases h
  | ran order hready haccepted hend =>
    rw [hend]
    have hcollapsible := collapsible_runInOrder hready w order
    refine ⟨hcollapsible, fun w' fault herror => ?_⟩
    obtain ⟨f, rfl, hf⟩ := isDisagreement_of_error hcollapsible
      (sameSetup_runInOrder hready w order).collapsed herror
    cases f with
    | noResults => exact Or.inl rfl
    | mismatch i => exact Or.inr (Or.inl ⟨i, rfl⟩)
    | noConsensus largest total => exact Or.inr (Or.inr ⟨largest, total, rfl⟩)
    | missing => exact hf.elim

section Steered

open Workbench

/-- Three qubits whose results are put to the vote, the first of which takes too long for a steering
that is advised to combine the results. -/
def steered : Register Val World :=
  ({ qubits := [scripted 0 [.add 1, .advance 6000], scripted 1 [.add 2], scripted 2 [.add 1]]
     strategy := .vote } :
    Register Val World).installSteering .timeout fun _ _ => .combine

/-- The first look is due and makes the change, but not to the advised strategy, for want of a
combiner. Under the next one in turn all results would have to agree, so the collapse then fails
because the second does not. -/
theorem collapsible_of_finished_steered :
    let dues := (Launch.execute.looks steered {}).map fun look =>
      look.1.steering.any fun s => s.isDue (Clocked.read look.2).1
    let ran := Launch.execute.start steered {}
    steered.strategy = .vote ∧ dues = [true, false, false] ∧
      changes (Launch.execute.looks steered {}) = [.validate] ∧
      ran.1 = .finished true ∧ ran.2.1.strategy = .validate ∧
      ran.2.1.supports .validate = true ∧
      (ran.2.1.collapse {}).1 = .error (.collapse (.mismatch 1)) := by
  intro dues ran
  have hfinished : ran.1 = .finished true := by decide +kernel
  have hstrategy : ran.2.1.strategy = .validate := by decide +kernel
  have hsupports := (collapsible_of_finished hfinished).1
  rw [show (Launch.execute.start steered {}).2.1.strategy = .validate from hstrategy] at hsupports
  exact ⟨rfl, by decide +kernel, by decide +kernel, hfinished, hstrategy, hsupports, rfl⟩

end Steered

end Superpose.Register
