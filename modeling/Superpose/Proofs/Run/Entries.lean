import Superpose.Proofs.Run.Course
import Superpose.Proofs.Run.Diary

/-!
# The entries of a run

What the starts of a run leave in the diary of a noting register. The diary holds the entries of the
starts in their order (`history_entries`), so it tells who was started with which ending
(`mem_flatMap_entriesOf`) and nobody more often than he was started (`flatMap_entriesOf_sublist`).
-/

namespace Superpose.Register

variable {α ω : Type} [Clocked ω]

/-- What a start among noting qubits leaves in the diary. -/
def entriesOf (qubits : List (Qubit α (Diary ω))) (s : Start (Diary ω)) : List (Nat × Ending) :=
  match qubits[s.index]? with
  | some q => q.entries s.index (q.run s.world).ending
  | none => []

theorem getElem?_opening (r : Register α ω) (w : ω) (i : Nat) :
    (r.opening w).qubits[i]? = (r.qubits[i]?).map Qubit.skipIfDisabled :=
  getElem?_begin r (Clocked.read w).1 i

/-- A noting register opens a run with the qubits that note. -/
theorem getElem?_opening_noting (r : Register α ω) (d : Diary ω) (i : Nat) :
    (r.noting.opening d).qubits[i]? =
      (r.qubits[i]?).map fun q => q.skipIfDisabled.noting i := by
  rw [getElem?_opening]
  show ((r.qubits.mapIdx Qubit.noting)[i]?).map _ = _
  rw [List.getElem?_mapIdx, Option.map_map]
  exact congrFun (congrArg Option.map (funext fun q => q.skipIfDisabled_noting i)) _

/-- The diary holds the entries of all starts so far. -/
theorem history_entries (r : Register α ω) (d : Diary ω) :
    History (r.noting.opening d).qubits fun starts d' =>
      d'.runs = starts.flatMap (entriesOf (r.noting.opening d).qubits) where
  job := by
    intro starts d' i q hq hruns
    have hentries : entriesOf (r.noting.opening d).qubits ⟨i, d'⟩ =
        q.entries i (q.run d').ending := by
      simp only [entriesOf, hq]
    rw [List.flatMap_append, List.flatMap_singleton, hentries, ← hruns]
    rw [getElem?_opening_noting, Option.map_eq_some_iff] at hq
    obtain ⟨q₀, -, rfl⟩ := hq
    rw [Qubit.run_noting]
    refine congrArg (d'.runs ++ ·) ?_
    unfold Qubit.entries Qubit.noting
    rw [Option.isSome_map]
  read := fun h => h

section Entries

variable {qubits : List (Qubit α (Diary ω))} {starts : List (Start (Diary ω))}

theorem mem_flatMap_entriesOf {i : Nat} {e : Ending} :
    (i, e) ∈ starts.flatMap (entriesOf qubits) ↔
      ∃ s ∈ starts, s.index = i ∧ endingOf qubits s = some e ∧
        ∃ q, qubits[i]? = some q ∧ q.body ≠ none := by
  rw [List.mem_flatMap]
  refine exists_congr fun s => and_congr_right fun _ => ?_
  unfold entriesOf endingOf
  cases hq : qubits[s.index]? with
  | none =>
    constructor
    · intro h
      cases h
    · rintro ⟨rfl, h, -⟩
      cases h
  | some q =>
    simp only [Option.map_some, Option.some.injEq]
    unfold Qubit.entries
    cases hb : q.body with
    | none =>
      simp only [Option.isSome_none, Bool.false_eq_true, ↓reduceIte]
      constructor
      · intro h
        cases h
      · rintro ⟨rfl, -, q', hq', hb'⟩
        rw [hq, Option.some.injEq] at hq'
        exact absurd (hq' ▸ hb) hb'
    | some body =>
      simp only [Option.isSome_some, ↓reduceIte, List.mem_singleton, Prod.mk.injEq]
      constructor
      · rintro ⟨rfl, rfl⟩
        exact ⟨rfl, rfl, q, hq, by rw [hb]; exact Option.some_ne_none body⟩
      · rintro ⟨rfl, rfl, -⟩
        exact ⟨rfl, rfl⟩

/-- If no entry tells of a break-off, no start broke off. -/
theorem endingOf_ne_panicked
    (h : ∀ run ∈ starts.flatMap (entriesOf qubits), run.2 ≠ .panicked) :
    ∀ s ∈ starts, endingOf qubits s ≠ some .panicked := by
  intro s hs he
  obtain ⟨q, hq, hend⟩ := Option.map_eq_some_iff.mp he
  have hbody : q.body ≠ none := fun hb => by
    rw [Qubit.run_ending_of_body_eq_none hb] at hend
    cases hend
  exact h (s.index, .panicked) (mem_flatMap_entriesOf.mpr ⟨s, hs, rfl, he, q, hq, hbody⟩) rfl

/-- No index is noted more often than it was started. -/
theorem flatMap_entriesOf_sublist :
    ((starts.flatMap (entriesOf qubits)).map Prod.fst).Sublist (starts.map Start.index) := by
  induction starts with
  | nil => exact List.Sublist.refl _
  | cons s starts ih =>
    rw [List.flatMap_cons, List.map_append, List.map_cons]
    unfold entriesOf
    cases qubits[s.index]? with
    | none => exact ih.cons _
    | some q =>
      simp only
      unfold Qubit.entries
      split
      · exact ih.cons_cons _
      · exact ih.cons _

end Entries

end Superpose.Register
