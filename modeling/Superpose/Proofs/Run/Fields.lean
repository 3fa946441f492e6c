import Superpose.Proofs.Run.Frame
import Superpose.Proofs.Run.Jobs

/-!
# What a run leaves of each qubit

A run changes the data, the status and the times of qubits, and nothing else of them. `Qubit.Kept`
is a field that neither a run of a qubit nor the beginning of a run touches, and
`Qubit.Kept.map_runInOrder` says that a run of a register leaves it as it was in every qubit.
-/

namespace Superpose

variable {α ω β : Type} [Clocked ω]

namespace Qubit

/-- A field of qubits that runs leave alone. -/
structure Kept (field : Qubit α ω → β) : Prop where
  run : ∀ q w, field (q.run w).qubit = field q
  skip : ∀ q, field q.skipIfDisabled = field q

theorem kept_enabled : Kept (enabled : Qubit α ω → Bool) where
  run := run_enabled
  skip q := by
    unfold skipIfDisabled
    split <;> rfl

theorem kept_resultSize : Kept (resultSize : Qubit α ω → UInt64) where
  run q w := by
    unfold Qubit.run
    cases q.body with
    | none => rfl
    | some body =>
      simp only
      split <;> rfl
  skip q := by
    unfold skipIfDisabled
    split <;> rfl

end Qubit

open Register

namespace Qubit.Kept

variable {field : Qubit α ω → β} (hkept : Kept field)

include hkept

theorem map_runJob (i : Nat) (s : Scene α ω) :
    (runJob i s).2.qubits.map field = s.qubits.map field := by
  cases hq : s.qubits[i]? with
  | none => rw [runJob, hq]
  | some q =>
    obtain ⟨hi, -⟩ := List.getElem?_eq_some_iff.mp hq
    rw [runJob_of_getElem? hq]
    refine List.ext_getElem? fun j => ?_
    rw [List.getElem?_map, List.getElem?_map, List.getElem?_set, if_pos hi]
    split
    · next hij => rw [← hij, hq, Option.map_some, Option.map_some, hkept.run]
    · rfl

theorem map_runJobs (persistent : Bool) : ∀ (is : List Nat) (s : Scene α ω),
    (runJobs persistent is s).2.qubits.map field = s.qubits.map field := by
  intro is
  induction is with
  | nil => exact fun _ => rfl
  | cons i is ih =>
    intro s
    rw [runJobs]
    split
    · split
      · exact (ih _).trans (hkept.map_runJob i s)
      · exact hkept.map_runJob i s
    · exact (ih _).trans (hkept.map_runJob i s)

theorem map_begin (r : Register α ω) (now : UInt64) :
    (r.begin now).qubits.map field = r.qubits.map field := by
  rw [begin, List.map_map]
  exact List.map_congr_left fun q _ => hkept.skip q

/-- **A run leaves the field alone** in every qubit. -/
theorem map_runInOrder {r : Register α ω} (hready : r.obstacle = none) (w : ω)
    (order : List Nat) :
    (r.runInOrder w order).2.1.qubits.map field = r.qubits.map field := by
  refine runInOrder_preserves (P := fun r' => r'.qubits.map field = r.qubits.map field)
    (fun r' w' number wave h => ?_) (fun r' w' h => ?_) (fun _ _ h => h) hready w order
    (hkept.map_begin r _)
  · exact (hkept.map_runJobs _ _ _).trans h
  · rw [checkpoint_qubits]
    exact h

end Qubit.Kept

end Superpose
