import Superpose.Proofs.Reduction
import Superpose.Register.Collapse

/-!
# What a collapse depends on

A collapse that fails leaves the register as it was, or with an output that was made for a strategy
that then gave no value (`failing_of_error`). What it answers depends on the qubits, the
strategy, the toolkit and the time, and on what the output held before (`collapse_fst_congr`): an
output that was made and not used is as good as none.
-/

namespace Superpose.Register

variable {α ω : Type} [Inhabited α]

/-- A register whose output was made, if it had none. -/
def madeOutput (r : Register α ω) : Register α ω :=
  { r with output := some (r.output.getD default) }

variable [BEq α] [Clocked ω]

/-- How a collapse of a register in a world fails: with which fault, and where it leads. -/
inductive Failing (r : Register α ω) (w : ω) : Fault → Register α ω → ω → Prop
  /-- The register counts as collapsed and holds no value. -/
  | noValue (text : String) (hcollapsed : r.collapsed = true) : Failing r w (.internal text) r w
  /-- A piece is missing. -/
  | missing {fault : CollapseFault} (hcollapsed : r.collapsed = false)
      (hmissing : r.toolkit.missing r.strategy = some fault) : Failing r w (.collapse fault) r w
  /-- No qubit completed. -/
  | noResults (hcollapsed : r.collapsed = false)
      (hmissing : r.toolkit.missing r.strategy = none) (hempty : r.results.isEmpty = true) :
      Failing r w (.collapse .noResults) r (Clocked.read w).2
  /-- The strategy refuses the results, after the output was made. -/
  | refused {fault : CollapseFault} (hcollapsed : r.collapsed = false)
      (hmissing : r.toolkit.missing r.strategy = none)
      (hruling : ruling r.strategy r.results (r.output.getD default) r.toolkit
        (Clocked.read w).1 = .refuse fault) :
      Failing r w (.collapse fault) r.madeOutput (Clocked.read w).2

/-- **How a collapse fails.** Every failure is one of those. -/
theorem failing_of_error {r : Register α ω} {w : ω} {fault : Fault}
    (h : (r.collapse w).1 = .error fault) :
    Failing r w fault (r.collapse w).2.1 (r.collapse w).2.2 := by
  unfold collapse at h ⊢
  cases hcollapsed : r.collapsed with
  | true =>
    simp only [hcollapsed, ↓reduceIte] at h ⊢
    cases houtput : r.output with
    | some value =>
      simp only [houtput] at h
      cases h
    | none =>
      simp only [houtput] at h
      cases h
      exact .noValue _ hcollapsed
  | false =>
    simp only [hcollapsed, Bool.false_eq_true, ↓reduceIte] at h ⊢
    cases hmissing : r.toolkit.missing r.strategy with
    | some f =>
      simp only [hmissing] at h
      cases h
      exact .missing hcollapsed hmissing
    | none =>
      simp only [hmissing] at h ⊢
      unfold collapseResults at h ⊢
      cases hempty : r.results.isEmpty with
      | true =>
        simp only [hempty, ↓reduceIte] at h ⊢
        cases h
        exact .noResults hcollapsed hmissing hempty
      | false =>
        simp only [hempty, Bool.false_eq_true, ↓reduceIte] at h ⊢
        cases hverdict : (reduce r.strategy r.results (r.output.getD default) r.toolkit
            (Clocked.read w).1).verdict with
        | ok selected =>
          simp only [hverdict] at h
          cases h
        | error f =>
          simp only [hverdict] at h ⊢
          cases h
          obtain ⟨hruling, hreduced⟩ := reduce_eq_of_error hempty hverdict
          rw [hreduced]
          exact .refused hcollapsed hmissing hruling

/-- What a collapse answers that finds no kept value. -/
theorem collapse_fst_of_open {r : Register α ω} (h : r.collapsed = false) (w : ω) :
    (r.collapse w).1 =
      match r.toolkit.missing r.strategy with
      | some fault => .error (.collapse fault)
      | none =>
        if r.results.isEmpty then .error (.collapse .noResults)
        else
          let reduced := reduce r.strategy r.results (r.output.getD default) r.toolkit
            (Clocked.read w).1
          match reduced.verdict with
          | .error fault => .error (.collapse fault)
          | .ok _ => .ok reduced.output := by
  unfold collapse
  rw [h, if_neg Bool.false_ne_true]
  cases r.toolkit.missing r.strategy with
  | some fault => rfl
  | none =>
    unfold collapseResults
    simp only
    split
    · rfl
    · cases (reduce r.strategy r.results (r.output.getD default) r.toolkit
        (Clocked.read w).1).verdict <;> rfl

/-- **What a collapse depends on.** -/
theorem collapse_fst_congr {a b : Register α ω} {w w' : ω} (hqubits : a.qubits = b.qubits)
    (hstrategy : a.strategy = b.strategy) (htoolkit : a.toolkit = b.toolkit)
    (hcollapsed : a.collapsed = b.collapsed)
    (houtput : a.output.getD default = b.output.getD default)
    (hkept : a.collapsed = true → a.output = b.output)
    (hnow : (Clocked.read w).1 = (Clocked.read w').1) :
    (a.collapse w).1 = (b.collapse w').1 := by
  have hresults : a.results = b.results := congrArg (List.filterMap Qubit.result?) hqubits
  cases hopen : a.collapsed with
  | true =>
    unfold collapse
    rw [← hcollapsed, hopen, hkept hopen]
    simp only [↓reduceIte]
    split <;> rfl
  | false =>
    rw [collapse_fst_of_open hopen, collapse_fst_of_open (hcollapsed.symm.trans hopen), hresults,
      hstrategy, htoolkit, houtput, hnow]

end Superpose.Register
