import Mathlib.Data.List.Basic
import Superpose.Proofs.Run.Jobs
import Superpose.Proofs.Run.Order

/-!
# The figures of an account

The tallies of an account are what the figures of a register count. As long as they are words, the
counters are the tallies (`Accounted.toNat_counters`); the qubits of either final status are as many
as the starts that ended so (`Accounted.countP_status`); and where nothing broke off, each start
ended one way or the other (`Accounted.tallyOf_add_eq`).
-/

namespace Superpose.Register

variable {α ω : Type} [Clocked ω]

theorem statusAfter_injective : Function.Injective Qubit.statusAfter := by
  intro a b h
  cases a <;> cases b <;> first | rfl | cases h

section Tally

variable {first now : Scene α ω} {starts : List (Start ω)}

/-- The qubits with the status of an ending are as many as the starts that ended so, provided that
no other qubit has that status. -/
theorem Accounted.countP_status (h : Accounted first starts now) (e : Ending)
    (hrest : ∀ i q, i ∉ starts.map Start.index → first.qubits[i]? = some q →
      q.status ≠ Qubit.statusAfter e) :
    now.qubits.countP (fun q => q.status = Qubit.statusAfter e) =
      tallyOf first.qubits e starts := by
  have hindex : tallyOf first.qubits e starts =
      ((starts.filter fun s => endingOf first.qubits s = some e).map Start.index).length := by
    rw [List.length_map, tallyOf, List.countP_eq_length_filter]
  rw [countP_eq_countP_range, hindex, List.countP_eq_length_filter]
  refine List.Perm.length_eq ((List.perm_ext_iff_of_nodup (List.nodup_range.filter _)
    (h.nodup.sublist (List.filter_sublist.map _))).mpr fun i => ?_)
  simp only [List.mem_filter, List.mem_range, List.mem_map, Option.any_eq_true, decide_eq_true_eq]
  constructor
  · rintro ⟨-, q', hq', hstatus⟩
    by_cases hi : i ∈ starts.map Start.index
    · obtain ⟨q, s, hs, -, hsi, hend, hget⟩ := h.exists_run_of_mem hi
      rw [hget, Option.some.injEq] at hq'
      rw [← hq', Qubit.run_status] at hstatus
      exact ⟨s, ⟨hs, by rw [hend, statusAfter_injective hstatus]⟩, hsi⟩
    · rw [h.getElem?_of_notMem hi] at hq'
      exact absurd hstatus (hrest i q' hi hq')
  · rintro ⟨s, ⟨hs, hend⟩, rfl⟩
    have hlt := h.lt s hs
    obtain ⟨s', hs', hsi, hend', hget⟩ :=
      h.exists_getElem?_of_mem (List.mem_map_of_mem hs) (List.getElem?_eq_getElem hlt)
    have hsame : s' = s := List.inj_on_of_nodup_map h.nodup hs' hs hsi
    subst hsame
    rw [hend, Option.some.injEq] at hend'
    refine ⟨by rw [h.length_qubits]; exact hlt, _, hget, ?_⟩
    rw [Qubit.run_status, ← hend']

/-- No start has two endings. -/
theorem tallyOf_add_add_le (qubits : List (Qubit α ω)) (starts : List (Start ω)) :
    tallyOf qubits .returned starts + tallyOf qubits .failed starts +
      tallyOf qubits .panicked starts ≤ starts.length := by
  unfold tallyOf
  induction starts with
  | nil => exact Nat.le_refl _
  | cons s starts ih =>
    simp only [List.countP_cons, List.length_cons, decide_eq_true_eq]
    rcases endingOf qubits s with _ | _ | _ | _ <;> simp at ih ⊢ <;> omega

theorem tallyOf_add_le (qubits : List (Qubit α ω)) (starts : List (Start ω)) :
    tallyOf qubits .returned starts + tallyOf qubits .failed starts ≤ starts.length :=
  Nat.le_trans (Nat.le_add_right _ _) (tallyOf_add_add_le qubits starts)

/-- If no start broke off, each one was counted. -/
theorem Accounted.tallyOf_add_eq (h : Accounted first starts now)
    (hcalm : ∀ s ∈ starts, endingOf first.qubits s ≠ some .panicked) :
    tallyOf first.qubits .returned starts + tallyOf first.qubits .failed starts =
      starts.length := by
  rw [List.length_eq_countP_add_countP fun s => endingOf first.qubits s = some .returned]
  refine congrArg (_ + ·) (List.countP_congr fun s hs => ?_)
  obtain ⟨e, he⟩ : ∃ e, endingOf first.qubits s = some e := by
    rw [endingOf, List.getElem?_eq_getElem (h.lt s hs)]
    exact ⟨_, rfl⟩
  have := hcalm s hs
  rw [he] at this ⊢
  cases e <;> simp_all

/-- The counters of an account that begins at 0 are the tallies, as long as these are words. -/
theorem Accounted.toNat_counters (h : Accounted first starts now)
    (hcompleted : first.progress.completed = 0) (hfailed : first.progress.failed = 0)
    (hsize : starts.length < UInt32.size) :
    now.progress.completed.toNat = tallyOf first.qubits .returned starts ∧
      now.progress.failed.toNat = tallyOf first.qubits .failed starts := by
  have hle := tallyOf_add_le first.qubits starts
  rw [h.completed, h.failed, hcompleted, hfailed, UInt32.zero_add, UInt32.zero_add]
  exact ⟨UInt32.toNat_ofNat_of_lt' (show _ < UInt32.size by omega),
    UInt32.toNat_ofNat_of_lt' (show _ < UInt32.size by omega)⟩

/-- A run leaves every switch as it is. -/
theorem Accounted.countP_enabled (h : Accounted first starts now) :
    now.qubits.countP Qubit.enabled = first.qubits.countP Qubit.enabled := by
  rw [countP_eq_countP_range, countP_eq_countP_range first.qubits, h.length_qubits]
  refine List.countP_congr fun i _ => ?_
  rw [h.qubits i]
  cases first.qubits[i]? with
  | none => exact Iff.rfl
  | some q =>
    have hsame : (afterStarts starts i q).enabled = q.enabled := by
      unfold afterStarts
      split
      · exact q.run_enabled _
      · rfl
    simp only [Option.map_some, Option.any_some, hsame]

end Tally

end Superpose.Register
