import Superpose.Steering.Basic

/-!
# What a look at a run can do

A steering that looks at a run passes (it is not time yet, or nothing is wrong, or there is nothing
to change to) or changes the strategy. `check_cases` is the inversion of `Steering.check`; where it
changes the strategy, the new one differs from the current one and is eligible
(`alternative_eq_some`), and the strategy had not been changed before (`decision_eq_some`).
-/

namespace Superpose.Steering

variable {ω : Type}

/-- Whatever a steering changes to is eligible and differs from the current strategy. -/
theorem alternative_eq_some {s : Steering ω} {eligible : Strategy → Bool}
    {recommended next : Strategy} (h : s.alternative eligible recommended = some next) :
    next ≠ s.current ∧ eligible next = true := by
  simp only [alternative] at h
  split at h
  · rename_i hc
    rw [Option.some.inj h, Bool.and_eq_true, bne_iff_ne] at hc
    exact hc
  · have hfound := List.find?_some h
    rw [Bool.and_eq_true, bne_iff_ne] at hfound
    exact hfound

/-- A steering decides for a change only if it is called for and was not made before. -/
theorem decision_eq_some {s : Steering ω} {v : Vitals} {eligible : Strategy → Bool}
    {recommended next : Strategy} (h : s.decision v eligible recommended = some next) :
    (trigger s.policy s.thresholds s.quality v).isSome = true ∧ s.switched = false ∧
      s.alternative eligible recommended = some next := by
  unfold decision at h
  split at h
  · rename_i hc
    rw [Bool.and_eq_true, Bool.not_eq_true'] at hc
    exact ⟨hc.1, hc.2, h⟩
  · cases h

/-- **What a look can do**: pass because it is not time, pass and remember the figures, or change
the strategy. -/
theorem check_cases (s : Steering ω) (now : UInt64) (completed failed : UInt32) (qubits : Nat)
    (eligible : Strategy → Bool) (recommended : Strategy) :
    (s.isDue now = false ∧
        s.check now completed failed qubits eligible recommended = (none, s)) ∨
      (s.isDue now = true ∧
        { s with lastCheck := now }.decision ⟨elapsed s.started now, completed, failed, qubits⟩
          eligible recommended = none ∧
        s.check now completed failed qubits eligible recommended =
          (none, { s with
            lastCheck := now, completedSeen := completed, failedSeen := failed })) ∨
      ∃ next, s.isDue now = true ∧
        { s with lastCheck := now }.decision ⟨elapsed s.started now, completed, failed, qubits⟩
          eligible recommended = some next ∧
        s.check now completed failed qubits eligible recommended =
          (some next, { s with
            lastCheck := now, current := next, switched := true, switches := s.switches + 1 }) := by
  unfold check
  by_cases hdue : s.isDue now = true
  · right
    simp only [hdue, ↓reduceIte, true_and]
    cases hd : { s with lastCheck := now }.decision
        ⟨elapsed s.started now, completed, failed, qubits⟩ eligible recommended with
    | none => exact Or.inl ⟨rfl, rfl⟩
    | some next => exact Or.inr ⟨next, rfl, rfl⟩
  · left
    rw [Bool.not_eq_true] at hdue
    simp only [hdue, Bool.false_eq_true, ↓reduceIte, true_and]

end Superpose.Steering
