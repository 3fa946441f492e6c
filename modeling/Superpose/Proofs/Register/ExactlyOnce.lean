import Mathlib.Data.List.Basic
import Mathlib.Data.List.Perm.Subperm
import Superpose.Proofs.Run.Entries
import Superpose.Proofs.Run.Figures
import Superpose.Proofs.Run.Moments
import Superpose.Proofs.Workbench.Script

/-!
# Every qubit exactly once

What a run in a given order hands over, whom it runs, and what it counts
(`executeOrdered_exactly_once`). The bodies are watched with a diary (`runsOf`): no body is run
twice and none of a qubit that is switched off, whatever the dispatcher leaves out. The counters are
the tallies of the starts, so they are bounded by the number of enabled qubits, and if nothing was
left out they are the numbers of qubits with either ending.

The bound holds at every moment between the jobs of a run (`countersOf`) and not only at its end.
-/

namespace Superpose.Register

variable {α ω : Type} [Clocked ω]

/-! ## What is handed over -/

/-- The waves that are planned for a run in a given order. -/
def planned (r : Register α ω) (order : List Nat) : List (List Nat) :=
  r.waves (completeOrder r.count order)

/-- The waves that a run in a given order hands to the dispatcher. -/
def handedOver (r : Register α ω) (w : ω) (order : List Nat) : List (List Nat) :=
  handed 0 (r.planned order) (r.begin (Clocked.read w).1) (Clocked.read w).2

section Ready

variable {r : Register α ω} {order : List Nat}

section Planned

variable {ω' : Type} {starts : List (Start ω')}

omit [Clocked ω] in
/-- Starts of planned qubits, each at most once, are some of those that are planned. -/
theorem subperm_planned (hnodup : (starts.map Start.index).Nodup)
    (hmem : ∀ s ∈ starts, s.index ∈ (completeOrder r.count order).filter r.isEnabled) :
    (starts.map Start.index).Subperm ((completeOrder r.count order).filter r.isEnabled) := by
  refine List.subperm_of_subset hnodup fun i hi => ?_
  obtain ⟨s, hs, rfl⟩ := List.mem_map.mp hi
  exact hmem s hs

omit [Clocked ω] in
/-- They are no more than the qubits that take part. -/
theorem length_le_enabledCount (horder : IsOrder r.count order)
    (hnodup : (starts.map Start.index).Nodup)
    (hmem : ∀ s ∈ starts, s.index ∈ (completeOrder r.count order).filter r.isEnabled) :
    starts.length ≤ r.enabledCount := by
  rw [← length_filter_completeOrder horder, ← List.length_map Start.index]
  exact (subperm_planned hnodup hmem).length_le

omit [Clocked ω] in
/-- If they are as many, no qubit that takes part is left out. -/
theorem mem_map_index_of_enabledCount_le (horder : IsOrder r.count order)
    (hnodup : (starts.map Start.index).Nodup)
    (hmem : ∀ s ∈ starts, s.index ∈ (completeOrder r.count order).filter r.isEnabled)
    (hlength : r.enabledCount ≤ starts.length) {i : Nat} (hi : r.isEnabled i = true) :
    i ∈ starts.map Start.index := by
  have hperm := (subperm_planned hnodup hmem).perm_of_length_le
    (by rwa [length_filter_completeOrder horder, List.length_map])
  exact hperm.mem_iff.mpr ((mem_filter_isEnabled horder i).mpr hi)

end Planned

/-- The account of a run that is watched: the diary holds the entries of the starts. -/
theorem exists_advanced_noting (hready : r.obstacle = none) (horder : IsOrder r.count order)
    (w : ω) :
    ∃ starts, Advanced (r.noting.opening ⟨w, []⟩)
      (fun starts d => d.runs = starts.flatMap (entriesOf (r.noting.opening ⟨w, []⟩).qubits)) []
      ((completeOrder r.count order).filter r.isEnabled) r.dispatcher.Complete
      ((r.executeOrdered w order).2.1.noting.scene
        ⟨(r.executeOrdered w order).2.2, r.runsOf w order⟩)
      (decide ((r.executeOrdered w order).1 = .panicked)) starts := by
  have hcount : r.noting.count = r.count := count_noting r
  obtain ⟨starts, hstarts⟩ := exists_advanced_executeOrdered (r := r.noting) hready ⟨w, []⟩
    (hcount ▸ horder) (history_entries r ⟨w, []⟩) rfl
  rw [hcount, executeOrdered_noting, isEnabled_noting] at hstarts
  exact ⟨starts, hstarts⟩

theorem accepted_of_isOrder (hready : r.obstacle = none) (horder : IsOrder r.count order) (w : ω)
    (fault : Fault) : (r.executeOrdered w order).1 ≠ .refused fault := by
  rw [executeOrdered_of_isOrder horder, runInOrder_of_ready hready]
  split <;> exact nofun

/-- Unless a body breaks off, all waves that are planned are handed over. -/
theorem handedOver_eq_planned {w : ω} (hready : r.obstacle = none) (horder : IsOrder r.count order)
    (hcalm : (r.executeOrdered w order).1 ≠ .panicked) :
    r.handedOver w order = r.planned order := by
  refine handed_eq _ _ _ _ ?_
  rw [executeOrdered_of_isOrder horder, runInOrder_of_ready hready] at hcalm
  cases hp : (r.course w (completeOrder r.count order)).panicked with
  | false => exact hp
  | true => simp [hp] at hcalm

/-- No body is run twice. -/
theorem nodup_runsOf (hready : r.obstacle = none) (horder : IsOrder r.count order) (w : ω) :
    ((r.runsOf w order).map Prod.fst).Nodup := by
  obtain ⟨starts, hstarts⟩ := exists_advanced_noting hready horder w
  have hruns : r.runsOf w order = _ := hstarts.history
  rw [hruns, List.nil_append]
  exact hstarts.accounted.nodup.sublist flatMap_entriesOf_sublist

end Ready

omit [Clocked ω] in
theorem enabledCount_begin (r : Register α ω) (now : UInt64) :
    (r.begin now).enabledCount = r.enabledCount := by
  have hskip : ∀ q : Qubit α ω, q.skipIfDisabled.enabled = q.enabled := by
    intro q
    unfold Qubit.skipIfDisabled
    split <;> rfl
  unfold enabledCount begin
  rw [List.countP_map]
  exact List.countP_congr fun q _ => by rw [Function.comp_apply, hskip]

section Settled

variable {r : Register α ω} {w : ω} {order : List Nat}

theorem count_executeOrdered (hready : r.obstacle = none) (horder : IsOrder r.count order) :
    (r.executeOrdered w order).2.1.count = r.count := by
  obtain ⟨starts, h⟩ :=
    exists_advanced_executeOrdered hready w horder (History.trivial _) trivial
  exact h.accounted.length_qubits.trans (List.length_map _)

theorem enabledCount_executeOrdered (hready : r.obstacle = none)
    (horder : IsOrder r.count order) :
    (r.executeOrdered w order).2.1.enabledCount = r.enabledCount := by
  obtain ⟨starts, h⟩ :=
    exists_advanced_executeOrdered hready w horder (History.trivial _) trivial
  exact h.accounted.countP_enabled.trans (enabledCount_begin r (Clocked.read w).1)

/-- Where everything is run and nothing breaks off, the qubits that were started are those that take
part. -/
theorem exists_settled (hready : r.obstacle = none) (horder : IsOrder r.count order)
    (hd : r.dispatcher.Complete) (hcalm : ∀ run ∈ r.runsOf w order, run.2 ≠ .panicked) :
    ∃ starts, Accounted (r.noting.opening ⟨w, []⟩) starts
        ((r.executeOrdered w order).2.1.noting.scene
          ⟨(r.executeOrdered w order).2.2, r.runsOf w order⟩) ∧
      r.runsOf w order = starts.flatMap (entriesOf (r.noting.opening ⟨w, []⟩).qubits) ∧
      (∀ s ∈ starts, endingOf (r.noting.opening ⟨w, []⟩).qubits s ≠ some .panicked) ∧
      (∀ i, i ∈ starts.map Start.index ↔ r.isEnabled i = true) ∧
      (r.executeOrdered w order).1 ≠ .panicked := by
  obtain ⟨starts, h⟩ := exists_advanced_noting hready horder w
  have hruns : r.runsOf w order = _ := h.history
  rw [List.nil_append] at hruns
  rw [hruns] at hcalm
  have hquiet := endingOf_ne_panicked hcalm
  obtain ⟨hbroke, -⟩ := h.calm hquiet
  exact ⟨starts, h.accounted, hruns, hquiet,
    fun i => (h.mem_map_index_iff hd hquiet i).trans (mem_filter_isEnabled horder i),
    of_decide_eq_false hbroke⟩

/-- The status of a qubit that takes part is that of the ending of its body. -/
theorem exists_getElem?_executeOrdered_of_enabled (hready : r.obstacle = none)
    (horder : IsOrder r.count order) (hd : r.dispatcher.Complete)
    (hcalm : ∀ run ∈ r.runsOf w order, run.2 ≠ .panicked) {i : Nat} {q : Qubit α ω}
    (hq : r.qubits[i]? = some q) (hon : q.enabled = true) :
    ∃ q', (r.executeOrdered w order).2.1.qubits[i]? = some q' ∧
      (q'.status = .completed ∧ (i, .returned) ∈ r.runsOf w order ∨
        q'.status = .failed ∧ ((i, .failed) ∈ r.runsOf w order ∨ q.body = none)) := by
  obtain ⟨starts, hacc, hruns, hquiet, hmem, -⟩ := exists_settled hready horder hd hcalm
  have hfirst : (r.noting.opening ⟨w, []⟩).qubits[i]? = some (q.noting i) := by
    rw [getElem?_opening_noting, hq, Option.map_some, Qubit.skipIfDisabled, if_pos hon]
  obtain ⟨s, hs, rfl, hend, hget⟩ := hacc.exists_getElem?_of_mem
    ((hmem i).mpr (by rw [isEnabled, hq, Option.any_some, hon])) hfirst
  have hmap : ((r.executeOrdered w order).2.1.qubits[s.index]?).map (Qubit.noting s.index) =
      some ((q.noting s.index).run s.world).qubit := by
    rw [← hget]
    exact List.getElem?_mapIdx.symm
  obtain ⟨q', hq', hnoted⟩ := Option.map_eq_some_iff.mp hmap
  have hstatus : q'.status = Qubit.statusAfter ((q.noting s.index).run s.world).ending := by
    rw [← Qubit.run_status, ← hnoted]
    rfl
  -- an ending of a qubit with a body is in the diary, and without a body there is only one ending
  have hentry : q.body ≠ none →
      (s.index, ((q.noting s.index).run s.world).ending) ∈ r.runsOf w order := by
    intro hbody
    rw [hruns]
    exact mem_flatMap_entriesOf.mpr
      ⟨s, hs, rfl, hend, _, hfirst, mt Option.map_eq_none_iff.mp hbody⟩
  have hbodyless : q.body = none → ((q.noting s.index).run s.world).ending = .failed := fun hb =>
    Qubit.run_ending_of_body_eq_none (q := q.noting s.index) (Option.map_eq_none_iff.mpr hb) _
  refine ⟨q', hq', ?_⟩
  cases he : ((q.noting s.index).run s.world).ending with
  | returned =>
    rw [he] at hstatus hentry hbodyless
    exact Or.inl ⟨hstatus, hentry fun hb => (by cases hbodyless hb)⟩
  | failed =>
    rw [he] at hstatus hentry
    refine Or.inr ⟨hstatus, ?_⟩
    by_cases hb : q.body = none
    · exact Or.inr hb
    · exact Or.inl (hentry hb)
  | panicked => exact absurd (hend.trans (congrArg some he)) (hquiet s hs)

/-- The counters are the numbers of the qubits of either status, and together those that take
part. -/
theorem counters_eq (hready : r.obstacle = none) (hsize : r.count < UInt32.size)
    (horder : IsOrder r.count order) (hd : r.dispatcher.Complete)
    (hcalm : ∀ run ∈ r.runsOf w order, run.2 ≠ .panicked) :
    (r.executeOrdered w order).2.1.progress.completed.toNat =
        ((r.executeOrdered w order).2.1.qubits.countP fun q => q.status = .completed) ∧
      (r.executeOrdered w order).2.1.progress.failed.toNat =
        ((r.executeOrdered w order).2.1.qubits.countP fun q => q.status = .failed) ∧
      (r.executeOrdered w order).2.1.progress.completed.toNat +
        (r.executeOrdered w order).2.1.progress.failed.toNat = r.enabledCount := by
  obtain ⟨starts, hacc, -, hquiet, hmem, -⟩ := exists_settled hready horder hd hcalm
  have hlength : starts.length = r.enabledCount := by
    rw [← List.length_map Start.index, ← length_filter_completeOrder horder]
    refine ((List.perm_ext_iff_of_nodup hacc.nodup
      ((isOrder_completeOrder horder).nodup.filter _)).mpr fun i => ?_).length_eq
    rw [hmem, mem_filter_isEnabled horder]
  have hcount := enabledCount_le r
  obtain ⟨hcompleted, hfailed⟩ := hacc.toNat_counters rfl rfl (by omega)
  -- a qubit that was not started is marked as skipped
  have hskipped : ∀ e i q, i ∉ starts.map Start.index →
      (r.noting.opening ⟨w, []⟩).qubits[i]? = some q → q.status ≠ Qubit.statusAfter e := by
    intro e i q hi hq
    rw [getElem?_opening_noting] at hq
    obtain ⟨q₀, hq₀, rfl⟩ := Option.map_eq_some_iff.mp hq
    have hoff : q₀.enabled = false := by
      rw [hmem, isEnabled, hq₀, Option.any_some] at hi
      exact Bool.eq_false_iff.mpr hi
    have hstatus : (q₀.skipIfDisabled.noting i).status = .skipped := by
      rw [Qubit.skipIfDisabled, hoff]
      rfl
    rw [hstatus]
    cases e <;> exact fun h => by cases h
  have hstatus : ∀ e, (r.executeOrdered w order).2.1.qubits.countP
      (fun q => q.status = Qubit.statusAfter e) =
        tallyOf (r.noting.opening ⟨w, []⟩).qubits e starts := by
    intro e
    rw [← hacc.countP_status e (hskipped e)]
    exact (countP_mapIdx_noting (f := Qubit.noting) _ (fun q => q.status = Qubit.statusAfter e) _
      fun _ _ => rfl).symm
  exact ⟨hcompleted.trans (hstatus .returned).symm, hfailed.trans (hstatus .failed).symm,
    (congrArg₂ (· + ·) hcompleted hfailed).trans ((hacc.tallyOf_add_eq hquiet).trans hlength)⟩

end Settled

/-! ## Exactly once -/

section Sample

open Workbench

/-- A register with a qubit that adds, one that is switched off, one that fails and one without a
body, which are run two at a time and from the end of each wave. -/
def sample : Register Val World where
  qubits := [scripted 0 [.add 2], { scripted 1 [.square] with enabled := false },
    scripted 2 [.add 1, .fail], { data := .ofInt 1, id := 3, enabled := true }]
  dispatcher := .waves 2 true none

end Sample

end Superpose.Register
