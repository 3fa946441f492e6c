import Superpose.Proofs.Register.LatestRun

/-!
# What completeness tells

A register is complete when the counters of its last run have come up to the number of the qubits
that take part in runs now. At the end of a run that means that all of them have finished
(`settled_executeOrdered`), and it stays so under every operation that leaves the qubits what they
are (`Operation.counted_perform`). The counters do not follow a qubit that is given something to do,
or is switched on, after the run: then a register can be complete while that qubit is pending.
-/

namespace Superpose.Register

variable {α ω : Type}

/-- Every qubit that takes part in runs has finished. -/
def Settled (r : Register α ω) : Prop :=
  ∀ q ∈ r.qubits, q.enabled = true → q.status = .completed ∨ q.status = .failed

/-! ## Standings -/

section Standing

variable {a b : Register α ω}

theorem enabledCount_congr (h : a.qubits.map Qubit.standing = b.qubits.map Qubit.standing) :
    a.enabledCount = b.enabledCount := by
  have hcount : ∀ r : Register α ω,
      r.enabledCount = (r.qubits.map Qubit.standing).countP Prod.fst := by
    intro r
    rw [List.countP_map]
    rfl
  rw [hcount a, hcount b, h]

theorem Settled.congr (h : a.qubits.map Qubit.standing = b.qubits.map Qubit.standing)
    (ha : a.Settled) : b.Settled := by
  intro q hq hon
  have hmem : q.standing ∈ a.qubits.map Qubit.standing := h ▸ List.mem_map_of_mem hq
  obtain ⟨p, hp, hsame⟩ := List.mem_map.mp hmem
  obtain ⟨henabled, hstatus⟩ := Prod.mk.inj hsame
  rw [← hstatus]
  exact ha p hp (henabled.trans hon)

end Standing

theorem map_standing_modify {f : Qubit α ω → Qubit α ω} (hf : ∀ q, (f q).standing = q.standing)
    (i : Nat) (qubits : List (Qubit α ω)) :
    (qubits.modify i f).map Qubit.standing = qubits.map Qubit.standing := by
  refine List.ext_getElem? fun j => ?_
  rw [List.getElem?_map, List.getElem?_map, List.getElem?_modify, Option.map_eq_map,
    Option.map_map]
  refine congrFun (congrArg Option.map (funext fun q => ?_)) _
  rw [Function.comp_apply]
  split
  · exact hf q
  · rfl

theorem settled_of_enabledCount_eq_zero {r : Register α ω} (h : r.enabledCount = 0) :
    r.Settled := fun q hq hon => absurd hon (List.countP_eq_zero.mp h q hq)

theorem enabledCount_le_of_isComplete {r : Register α ω} (hsize : r.count < UInt32.size)
    (h : r.isComplete = true) : r.enabledCount ≤ r.progress.finished.toNat := by
  have hle := UInt32.le_iff_toNat_le.mp (of_decide_eq_true h)
  have hcount := enabledCount_le r
  rwa [UInt32.toNat_ofNat_of_lt' (show _ < UInt32.size by omega)] at hle

/-! ## The end of a run -/

section Run

variable [Clocked ω] {r : Register α ω} {order : List Nat}

/-- If the counters of a run have come up to the qubits that take part in it, each of these was run,
and no body broke off. -/
theorem exists_ended_of_isComplete {w : ω} (hready : r.obstacle = none)
    (hsize : r.count < UInt32.size) (horder : IsOrder r.count order)
    (hcomplete : (r.executeOrdered w order).2.1.isComplete = true) :
    ∃ starts, Accounted (r.opening w) starts
        ((r.executeOrdered w order).2.1.scene (r.executeOrdered w order).2.2) ∧
      (∀ s ∈ starts, endingOf (r.opening w).qubits s ≠ some .panicked) ∧
      ∀ i, r.isEnabled i = true → i ∈ starts.map Start.index := by
  obtain ⟨starts, h⟩ :=
    exists_advanced_executeOrdered hready w horder (History.trivial _) trivial
  have hacc := h.accounted
  rw [List.nil_append] at hacc
  have hcount := enabledCount_le r
  have hlength := length_le_enabledCount horder hacc.nodup h.mem
  have htallies := tallyOf_add_add_le (r.opening w).qubits starts
  have henough : r.enabledCount ≤ tallyOf (r.opening w).qubits .returned starts +
      tallyOf (r.opening w).qubits .failed starts := by
    obtain ⟨hreturned, hfailed⟩ := hacc.toNat_counters rfl rfl (by omega)
    have hle := enabledCount_le_of_isComplete
      (by rwa [count_executeOrdered hready horder]) hcomplete
    rw [enabledCount_executeOrdered hready horder, Progress.finished, UInt32.toNat_add] at hle
    rw [← hreturned, ← hfailed]
    exact hle.trans (Nat.mod_le _ _)
  refine ⟨starts, hacc, fun s hs hpanicked => ?_, fun i hi => ?_⟩
  · -- so many endings were counted that there is no room for one that was not
    have hnone : tallyOf (r.opening w).qubits .panicked starts = 0 := by omega
    exact List.countP_eq_zero.mp hnone s hs (decide_eq_true hpanicked)
  · exact mem_map_index_of_enabledCount_le horder hacc.nodup h.mem (by omega) hi

/-- **The end of a run**: if it leaves the register complete, all qubits that take part have
finished. -/
theorem settled_executeOrdered {w : ω} (hready : r.obstacle = none)
    (hsize : r.count < UInt32.size) (horder : IsOrder r.count order)
    (hcomplete : (r.executeOrdered w order).2.1.isComplete = true) :
    (r.executeOrdered w order).2.1.Settled := by
  obtain ⟨starts, hacc, hcalm, hall⟩ := exists_ended_of_isComplete hready hsize horder hcomplete
  intro q' hq' hon
  obtain ⟨i, hget⟩ := List.mem_iff_getElem?.mp hq'
  have hnow : ((r.executeOrdered w order).2.1.scene (r.executeOrdered w order).2.2).qubits[i]? =
      some q' := hget
  by_cases hi : i ∈ starts.map Start.index
  · obtain ⟨p, s, hs, -, -, hend, hrun⟩ := hacc.exists_run_of_mem hi
    rw [hnow, Option.some.injEq] at hrun
    have hnot := hcalm s hs
    rw [hend] at hnot
    rw [hrun, Qubit.run_status]
    cases he : (p.run s.world).ending with
    | returned => exact Or.inl rfl
    | failed => exact Or.inr rfl
    | panicked => exact absurd (congrArg some he) hnot
  · rw [hacc.getElem?_of_notMem hi, getElem?_opening] at hnow
    obtain ⟨q, hq, rfl⟩ := Option.map_eq_some_iff.mp hnow
    refine absurd (hall i ?_) hi
    rw [isEnabled, hq, Option.any_some]
    by_contra hoff
    rw [Qubit.skipIfDisabled, if_neg hoff] at hon
    exact hoff hon

end Run

/-! ## After the run -/

/-- Nothing has been counted, or completeness tells that all qubits that take part have finished. -/
structure Counted (r : Register α ω) : Prop where
  size : r.count < UInt32.size
  sound : r.progress.finished = 0 ∨ (r.isComplete = true → r.Settled)

theorem Counted.settled {r : Register α ω} (h : Counted r) (hcomplete : r.isComplete = true) :
    r.Settled := by
  rcases h.sound with hnothing | hsound
  · have hle := enabledCount_le_of_isComplete h.size hcomplete
    rw [hnothing] at hle
    exact settled_of_enabledCount_eq_zero (Nat.le_zero.mp hle)
  · exact hsound hcomplete

theorem Counted.congr {a b : Register α ω} (ha : Counted a)
    (hqubits : a.qubits.map Qubit.standing = b.qubits.map Qubit.standing)
    (hprogress : b.progress = a.progress) : Counted b where
  size := by
    have hlength := congrArg List.length hqubits
    rw [List.length_map, List.length_map] at hlength
    rw [count, ← hlength]
    exact ha.size
  sound := by
    unfold isComplete
    rw [hprogress, ← enabledCount_congr hqubits]
    exact ha.sound.imp_right fun hsound hcomplete => (hsound hcomplete).congr hqubits

variable [Clocked ω] {r : Register α ω} {w : ω}

theorem counted_start {l : Launch} (hsize : r.count < UInt32.size)
    (haccepted : ∀ fault, (l.start r w).1 ≠ .refused fault) : Counted (l.start r w).2.1 := by
  obtain ⟨hready, horder, hend⟩ := Launch.of_accepted haccepted
  rw [hend]
  exact ⟨by rwa [count_executeOrdered hready horder],
    Or.inr (settled_executeOrdered hready hsize horder)⟩

variable [Inhabited α] [BEq α]

/-- **What keeps completeness true**: a run that begins makes it true, and everything else leaves it
so that gives nobody anything to do and switches nobody on or off, unless nothing was counted. -/
theorem Operation.counted_perform {op : Operation α ω}
    (hassigns : op.Assigns → r.progress.finished = 0) (h : Counted r) :
    Counted (op.perform r w).2.1 := by
  have heffect := op.effect_perform r w
  by_cases hstarts : op.StartsRun r w
  · cases op with
    | launch l => exact counted_start h.size hstarts
    | _ => exact hstarts.elim
  · generalize (op.perform r w).2.1 = r' at heffect ⊢
    cases heffect with
    | idle => exact h
    | qubit i f _ hstanding =>
      by_cases hop : op.Assigns
      · exact ⟨by rw [count, List.length_modify]; exact h.size, Or.inl (hassigns hop)⟩
      · exact h.congr (map_standing_modify (hstanding hop) i r.qubits).symm rfl
    | equipment => exact h.congr rfl rfl
    | ran order hran => exact absurd hran hstarts
    | collapsed => exact h.congr rfl rfl
    | reset => exact ⟨by rw [count, Register.reset, List.length_map]; exact h.size, Or.inl rfl⟩
    | checked =>
      exact h.congr (congrArg _ (checkpoint_qubits r w).symm) (checkpoint_progress r w)

/-- **Completeness is true** in a register where nothing has been counted, as in a new one or after
a reset, and at the end of a run that was accepted. It stays true under any operations, as long as
qubits are only given something to do, and switched on or off, while nothing is counted: then a
register that is complete, or for which a wait succeeds, has run every qubit that takes part in runs
to its end. -/
theorem settled_of_isComplete {ops : List (Operation α ω)} (hsize : r.count < UInt32.size)
    (hbegin : r.progress.finished = 0 ∨ ∃ (l : Launch) (r₀ : Register α ω) (w₀ : ω),
      (∀ fault, (l.start r₀ w₀).1 ≠ .refused fault) ∧ (l.start r₀ w₀).2.1 = r)
    (hops : Throughout (fun op r _ => op.Assigns → r.progress.finished = 0) ops r w) :
    ((performAll ops r w).1.isComplete = true → (performAll ops r w).1.Settled) ∧
      ∀ ms, waitFor (performAll ops r w).1.isComplete ms = some (.ok ()) →
        (performAll ops r w).1.Settled := by
  have hcounted : Counted r := by
    rcases hbegin with hnothing | ⟨l, r₀, w₀, haccepted, rfl⟩
    · exact ⟨hsize, Or.inl hnothing⟩
    · refine counted_start ?_ haccepted
      obtain ⟨hready, horder, hend⟩ := Launch.of_accepted haccepted
      rwa [hend, count_executeOrdered hready horder] at hsize
  have hend : Counted (performAll ops r w).1 :=
    performAll_preserves (fun op r w hop h => op.counted_perform hop h) hops hcounted
  refine ⟨hend.settled, fun ms hwait => hend.settled ?_⟩
  by_contra hopen
  rw [waitFor, if_neg hopen] at hwait
  split at hwait <;> cases hwait

section Pair

open Workbench

/-- Both qubits are given something to do, and all are run. -/
def firstRun : List (Operation Val World) :=
  [assign 0 [.add 1], assign 1 [.fail], .launch .executeSync]

theorem settled_of_isComplete_firstRun :
    (performAll firstRun blankPair {}).1.isComplete = true ∧
      (performAll firstRun blankPair {}).1.Settled := by
  have hcomplete : (performAll firstRun blankPair {}).1.isComplete = true := by rfl
  have hops : Throughout (fun op r _ => op.Assigns → r.progress.finished = 0) firstRun blankPair
      {} := ⟨fun _ => rfl, fun _ => rfl, False.elim, trivial⟩
  exact ⟨hcomplete, (settled_of_isComplete (by decide) (Or.inl rfl) hops).1 hcomplete⟩

/-- A qubit that is given something to do after the run is pending, and the register is complete all
the same. -/
theorem complete_while_pending :
    let r := (performAll (firstRun ++ [assign 0 [.add 1]]) blankPair {}).1
    IsNew blankPair ∧ r.isComplete = true ∧ waitFor r.isComplete 1 = some (.ok ()) ∧
      ¬ r.Settled := by
  refine ⟨⟨1, 2, {}, rfl⟩, rfl, rfl, fun hsettled => ?_⟩
  rcases hsettled _ List.mem_cons_self rfl with h | h <;> cases h

end Pair

end Superpose.Register
