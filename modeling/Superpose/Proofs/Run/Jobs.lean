import Mathlib.Data.List.Basic
import Mathlib.Data.List.Nodup
import Superpose.Register.Run

/-!
# The jobs of a run

The account of a run. A `Start` is a job that was run, with the world in which it began. `Accounted`
says that a scene is what given starts make of an earlier one: each qubit that was started has been
run once, from the state that it had, the others are untouched, and the counters have grown by the
endings. One job keeps the account (`Accounted.job`).
-/

namespace Superpose

namespace Qubit

variable {α ω : Type} [Clocked ω]

/-- The status in which an ending leaves a qubit. -/
def statusAfter : Ending → Status
  | .returned => .completed
  | .failed => .failed
  | .panicked => .running

theorem run_status (q : Qubit α ω) (w : ω) :
    (q.run w).qubit.status = statusAfter (q.run w).ending := by
  unfold run
  cases hb : q.body with
  | none => rfl
  | some body =>
    simp only
    cases he : (body q.data (Clocked.read w).2).ending <;> rfl

@[simp] theorem run_body (q : Qubit α ω) (w : ω) : (q.run w).qubit.body = q.body := by
  unfold run
  cases q.body with
  | none => rfl
  | some body =>
    simp only
    split <;> rfl

@[simp] theorem run_enabled (q : Qubit α ω) (w : ω) : (q.run w).qubit.enabled = q.enabled := by
  unfold run
  cases q.body with
  | none => rfl
  | some body =>
    simp only
    split <;> rfl

/-- A run without a body fails. -/
theorem run_ending_of_body_eq_none {q : Qubit α ω} (h : q.body = none) (w : ω) :
    (q.run w).ending = .failed := by
  rw [run, h]
  rfl

end Qubit

namespace Register

variable {α ω : Type} [Clocked ω]

/-! ## Starts -/

/-- A job that was run: the index of its qubit, and the world in which it began. -/
structure Start (ω : Type) where
  index : Nat
  world : ω

/-- A qubit after some starts: run in the world in which its own one began, or as it was. -/
def afterStarts (starts : List (Start ω)) (i : Nat) (q : Qubit α ω) : Qubit α ω :=
  match starts.find? fun s => s.index == i with
  | some s => (q.run s.world).qubit
  | none => q

/-- How a start among given qubits ended. -/
def endingOf (qubits : List (Qubit α ω)) (s : Start ω) : Option Ending :=
  (qubits[s.index]?).map fun q => (q.run s.world).ending

/-- The number of starts with a given ending. -/
def tallyOf (qubits : List (Qubit α ω)) (e : Ending) (starts : List (Start ω)) : Nat :=
  starts.countP fun s => endingOf qubits s = some e

theorem afterStarts_of_notMem {starts : List (Start ω)} {i : Nat}
    (h : i ∉ starts.map Start.index) (q : Qubit α ω) : afterStarts starts i q = q := by
  have hnone : (starts.find? fun s => s.index == i) = none := by
    rw [List.find?_eq_none]
    intro s hs hi
    exact h (List.mem_map.mpr ⟨s, hs, beq_iff_eq.mp hi⟩)
  rw [afterStarts, hnone]

theorem exists_afterStarts_of_mem {starts : List (Start ω)} {i : Nat}
    (h : i ∈ starts.map Start.index) (q : Qubit α ω) :
    ∃ s ∈ starts, s.index = i ∧ afterStarts starts i q = (q.run s.world).qubit := by
  rw [afterStarts]
  cases hfind : starts.find? fun s => s.index == i with
  | some s =>
    exact ⟨s, List.mem_of_find?_eq_some hfind, by simpa using List.find?_some hfind, rfl⟩
  | none =>
    obtain ⟨s, hs, hi⟩ := List.mem_map.mp h
    exact absurd (beq_iff_eq.mpr hi) (List.find?_eq_none.mp hfind s hs)

/-- One more start changes the qubit at its index and no other. -/
theorem afterStarts_append_singleton {starts : List (Start ω)} {s : Start ω}
    (h : s.index ∉ starts.map Start.index) (i : Nat) (q : Qubit α ω) :
    afterStarts (starts ++ [s]) i q =
      if s.index = i then (q.run s.world).qubit else afterStarts starts i q := by
  unfold afterStarts
  rw [List.find?_append]
  by_cases hi : s.index = i
  · subst hi
    have hnone : (starts.find? fun t => t.index == s.index) = none := by
      rw [List.find?_eq_none]
      intro t ht hti
      exact h (List.mem_map.mpr ⟨t, ht, beq_iff_eq.mp hti⟩)
    simp [hnone]
  · have hs : ([s].find? fun t => t.index == i) = none := by simp [hi]
    rw [hs, Option.or_none, if_neg hi]

theorem tallyOf_append_singleton (qubits : List (Qubit α ω)) (e : Ending)
    (starts : List (Start ω)) (s : Start ω) :
    tallyOf qubits e (starts ++ [s]) =
      tallyOf qubits e starts + if endingOf qubits s = some e then 1 else 0 := by
  simp [tallyOf, List.countP_append, List.countP_singleton]

/-! ## One job -/

theorem runJob_of_getElem? {i : Nat} {s : Scene α ω} {q : Qubit α ω}
    (h : s.qubits[i]? = some q) :
    runJob i s = ((q.run s.world).ending == .panicked,
      ⟨s.qubits.set i (q.run s.world).qubit, tallyEnding s.progress (q.run s.world).ending,
        (q.run s.world).world⟩) := by
  rw [runJob, h]

/-- A scene that given starts, no two of them at one index, make of an earlier scene. -/
structure Accounted (first : Scene α ω) (starts : List (Start ω)) (now : Scene α ω) : Prop where
  nodup : (starts.map Start.index).Nodup
  lt : ∀ s ∈ starts, s.index < first.qubits.length
  qubits : ∀ i, now.qubits[i]? = (first.qubits[i]?).map (afterStarts starts i)
  completed : now.progress.completed =
    first.progress.completed + UInt32.ofNat (tallyOf first.qubits .returned starts)
  failed : now.progress.failed =
    first.progress.failed + UInt32.ofNat (tallyOf first.qubits .failed starts)

namespace Accounted

variable {first now : Scene α ω} {starts : List (Start ω)}

/-- Nothing was started yet. -/
theorem refl (first : Scene α ω) : Accounted first [] first where
  nodup := List.nodup_nil
  lt := by simp
  qubits i := by
    cases first.qubits[i]? <;> rfl
  completed := by simp [tallyOf]
  failed := by simp [tallyOf]

/-- The account is about qubits and the two counters, whatever else there is. -/
theorem congr (h : Accounted first starts now) {now' : Scene α ω}
    (hqubits : now'.qubits = now.qubits)
    (hcompleted : now'.progress.completed = now.progress.completed)
    (hfailed : now'.progress.failed = now.progress.failed) : Accounted first starts now' where
  nodup := h.nodup
  lt := h.lt
  qubits := by rw [hqubits]; exact h.qubits
  completed := by rw [hcompleted]; exact h.completed
  failed := by rw [hfailed]; exact h.failed

/-- A qubit that was not started is as it was. -/
theorem getElem?_of_notMem (h : Accounted first starts now) {i : Nat}
    (hi : i ∉ starts.map Start.index) : now.qubits[i]? = first.qubits[i]? := by
  rw [h.qubits i]
  cases first.qubits[i]? with
  | none => rfl
  | some q => exact congrArg some (afterStarts_of_notMem hi q)

/-- A qubit that was started has been run once. -/
theorem exists_getElem?_of_mem (h : Accounted first starts now) {i : Nat}
    (hi : i ∈ starts.map Start.index) {q : Qubit α ω} (hq : first.qubits[i]? = some q) :
    ∃ s ∈ starts, s.index = i ∧ endingOf first.qubits s = some (q.run s.world).ending ∧
      now.qubits[i]? = some (q.run s.world).qubit := by
  obtain ⟨s, hs, hsi, hrun⟩ := exists_afterStarts_of_mem hi q
  refine ⟨s, hs, hsi, ?_, ?_⟩
  · rw [endingOf, hsi, hq, Option.map_some]
  · rw [h.qubits i, hq, Option.map_some, hrun]

/-- There is a qubit where a start was. -/
theorem exists_run_of_mem (h : Accounted first starts now) {i : Nat}
    (hi : i ∈ starts.map Start.index) :
    ∃ q, ∃ s ∈ starts, first.qubits[i]? = some q ∧ s.index = i ∧
      endingOf first.qubits s = some (q.run s.world).ending ∧
      now.qubits[i]? = some (q.run s.world).qubit := by
  obtain ⟨t, ht, hti⟩ := List.mem_map.mp hi
  have hlt : i < first.qubits.length := hti ▸ h.lt t ht
  have hq := List.getElem?_eq_getElem hlt
  obtain ⟨s, hs, hsi, hend, hget⟩ := h.exists_getElem?_of_mem hi hq
  exact ⟨_, s, hs, hq, hsi, hend, hget⟩

theorem length_qubits (h : Accounted first starts now) :
    now.qubits.length = first.qubits.length := by
  refine Nat.le_antisymm ?_ ?_
  · refine List.getElem?_eq_none_iff.mp ?_
    rw [h.qubits, List.getElem?_eq_none_iff.mpr (Nat.le_refl _), Option.map_none]
  · refine List.getElem?_eq_none_iff.mp ?_
    have := h.qubits now.qubits.length
    rw [List.getElem?_eq_none_iff.mpr (Nat.le_refl _)] at this
    exact Option.map_eq_none_iff.mp this.symm

/-- **One job keeps the account**: it runs the qubit at its index from the state that it had at
first, and counts the ending. -/
theorem job (h : Accounted first starts now) {i : Nat} {q : Qubit α ω}
    (hq : first.qubits[i]? = some q) (hi : i ∉ starts.map Start.index) :
    (runJob i now).1 = ((q.run now.world).ending == .panicked) ∧
      (runJob i now).2.world = (q.run now.world).world ∧
      Accounted first (starts ++ [⟨i, now.world⟩]) (runJob i now).2 := by
  have hnow : now.qubits[i]? = some q := by rw [h.getElem?_of_notMem hi, hq]
  have hend : endingOf first.qubits ⟨i, now.world⟩ = some (q.run now.world).ending := by
    rw [endingOf, hq, Option.map_some]
  rw [runJob_of_getElem? hnow]
  refine ⟨rfl, rfl, ?_, ?_, ?_, ?_, ?_⟩
  · rw [List.map_append, List.nodup_append]
    refine ⟨h.nodup, List.nodup_singleton _, ?_⟩
    rintro a ha b hb rfl
    rw [List.map_singleton, List.mem_singleton] at hb
    rw [show a = i from hb] at ha
    exact hi ha
  · intro s hs
    rcases List.mem_append.mp hs with hs | hs
    · exact h.lt s hs
    · rw [List.mem_singleton.mp hs]
      exact (List.getElem?_eq_some_iff.mp hq).1
  · intro j
    have hstart := afterStarts_append_singleton (s := ⟨i, now.world⟩) hi j (α := α)
    by_cases hj : i = j
    · subst hj
      have hlt : i < now.qubits.length := (List.getElem?_eq_some_iff.mp hnow).1
      rw [List.getElem?_set_self hlt, hq, Option.map_some, hstart, if_pos rfl]
    · rw [List.getElem?_set_ne hj, h.qubits j]
      refine congrFun (congrArg Option.map (funext fun p => ?_)) _
      rw [hstart, if_neg hj]
  · rw [tallyOf_append_singleton, hend]
    cases (q.run now.world).ending <;> simp [tallyEnding, Progress.addCompleted,
      Progress.addFailed, h.completed, UInt32.ofNat_add, UInt32.add_assoc]
  · rw [tallyOf_append_singleton, hend]
    cases (q.run now.world).ending <;> simp [tallyEnding, Progress.addCompleted,
      Progress.addFailed, h.failed, UInt32.ofNat_add, UInt32.add_assoc]

end Accounted

end Register

end Superpose
