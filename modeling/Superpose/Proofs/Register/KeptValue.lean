import Superpose.Proofs.Register.Collapse
import Superpose.Proofs.Register.History
import Superpose.Proofs.Run.Frame
import Superpose.Proofs.Workbench.Script

/-!
# The kept value

A value that was collapsed is kept until a run begins or the register is reset. Such a register
(`Keeps`) answers a collapse without looking at anything else (`Keeps.collapse_eq`), and every other
operation leaves it so (`Operation.keeps_perform`). In a register that can be reached the mark of a
kept value is never without the value (`Reachable.exists_output`).
-/

namespace Superpose.Register

variable {α ω : Type}

/-- A register that keeps a value as that of its last run. -/
structure Keeps (v : α) (r : Register α ω) : Prop where
  collapsed : r.collapsed = true
  output : r.output = some v

theorem Keeps.output?_eq {v : α} {r : Register α ω} (h : Keeps v r) : r.output? = some v := by
  rw [output?, h.collapsed, if_pos rfl, h.output]

variable [Clocked ω] [Inhabited α] [BEq α] {v : α} {r : Register α ω} {w : ω}

theorem Keeps.collapse_eq (h : Keeps v r) (w : ω) : r.collapse w = (.ok v, r, w) := by
  unfold collapse
  simp only [h.collapsed, h.output, ↓reduceIte]

theorem keeps_of_collapse (h : (r.collapse w).1 = .ok v) : Keeps v (r.collapse w).2.1 := by
  unfold collapse at h ⊢
  cases hcollapsed : r.collapsed with
  | true =>
    simp only [hcollapsed, ↓reduceIte] at h ⊢
    cases houtput : r.output with
    | none =>
      simp only [houtput] at h
      cases h
    | some value =>
      simp only [houtput] at h
      rw [← Except.ok.inj h]
      exact ⟨hcollapsed, houtput⟩
  | false =>
    simp only [hcollapsed, Bool.false_eq_true, ↓reduceIte] at h ⊢
    split at h
    · cases h
    · unfold collapseResults at h ⊢
      simp only at h ⊢
      split at h
      · cases h
      · rename_i hne
        rw [if_neg hne]
        split at h
        · cases h
        · exact ⟨rfl, congrArg some (Except.ok.inj h)⟩

/-- **What keeps a value**: every operation that begins no run and is no reset. -/
theorem Operation.keeps_perform {op : Operation α ω} (hstarts : ¬ op.StartsRun r w)
    (hreset : op ≠ .reset) (h : Keeps v r) : Keeps v (op.perform r w).2.1 := by
  have heffect := op.effect_perform r w
  generalize (op.perform r w).2.1 = r' at heffect ⊢
  cases heffect with
  | idle => exact h
  | qubit => exact ⟨h.collapsed, h.output⟩
  | equipment => exact ⟨h.collapsed, h.output⟩
  | ran order hran => exact absurd hran hstarts
  | collapsed hopen =>
    rw [h.collapsed] at hopen
    cases hopen
  | reset hop => exact absurd hop hreset
  | checked =>
    have hsetup := sameSetup_checkpoint r w
    exact ⟨hsetup.collapsed.trans h.collapsed, hsetup.output.trans h.output⟩

/-- The mark of a kept value is never without the value. -/
theorem Reachable.exists_output (h : Reachable r) :
    r.collapsed = true → ∃ v, r.output = some v := by
  induction h with
  | new hnew =>
    obtain ⟨ids, strategy, waitsForAll, dispatcher, rfl⟩ := hnew.eq
    intro hcollapsed
    cases hcollapsed
  | @perform r _ op w ih =>
    have heffect := op.effect_perform r w
    generalize (op.perform r w).2.1 = r' at heffect ⊢
    cases heffect with
    | idle => exact ih
    | qubit => exact ih
    | equipment => exact ih
    | ran order _ hready =>
      -- a run begins by dropping the mark, and nothing in it sets it again
      rw [(sameSetup_runInOrder hready w order).collapsed]
      intro hcollapsed
      cases hcollapsed
    | collapsed _ output => exact fun _ => ⟨output, rfl⟩
    | reset =>
      intro hcollapsed
      cases hcollapsed
    | checked =>
      have hsetup := sameSetup_checkpoint r w
      rw [hsetup.collapsed, hsetup.output]
      exact ih

theorem Reachable.collapse_ne_internal (h : Reachable r) (w : ω) (text : String) :
    (r.collapse w).1 ≠ .error (.internal text) := by
  intro herror
  cases hcollapsed : r.collapsed with
  | true =>
    obtain ⟨v, hv⟩ := h.exists_output hcollapsed
    rw [Keeps.collapse_eq ⟨hcollapsed, hv⟩] at herror
    cases herror
  | false =>
    have hfailing := failing_of_error herror
    generalize (r.collapse w).2.1 = r', (r.collapse w).2.2 = w' at hfailing
    cases hfailing with
    | noValue _ hmarked =>
      rw [hcollapsed] at hmarked
      cases hmarked

/-- **A collapse is kept until the next run or reset.** After a collapse that answered a value, and
any operations among which no run begins and nothing is reset, the register shows that value, and a
collapse answers it again and leaves register and world as they are. It would do so with any
strategy and any tools, so none of them is used for it. Where a register can be reached, the mark of
a kept value is never without the value, and no collapse fails for an internal reason. -/
theorem collapse_cached :
    (∀ (r : Register α ω) (w : ω) (v : α), (r.collapse w).1 = .ok v →
      ∀ ops : List (Operation α ω),
        Throughout (fun op r w => ¬ op.StartsRun r w ∧ op ≠ .reset) ops (r.collapse w).2.1
          (r.collapse w).2.2 →
        let r' := (performAll ops (r.collapse w).2.1 (r.collapse w).2.2).1
        r'.output? = some v ∧ (∀ w', r'.collapse w' = (.ok v, r', w')) ∧
          ∀ strategy toolkit w', { r' with strategy, toolkit }.collapse w' =
            (.ok v, { r' with strategy, toolkit }, w')) ∧
    ∀ r : Register α ω, Reachable r →
      (r.collapsed = true → ∃ v, r.output = some v) ∧
        ∀ w text, (r.collapse w).1 ≠ .error (.internal text) := by
  refine ⟨fun r w v h ops hops => ?_, fun r h => ⟨h.exists_output, h.collapse_ne_internal⟩⟩
  intro r'
  have hkeeps : Keeps v r' :=
    performAll_preserves (fun op r w hop => op.keeps_perform hop.1 hop.2) hops
      (keeps_of_collapse h)
  exact ⟨hkeeps.output?_eq, hkeeps.collapse_eq,
    fun strategy toolkit => Keeps.collapse_eq ⟨hkeeps.collapsed, hkeeps.output⟩⟩

section Agreed

open Workbench

/-- A register that has run two qubits. -/
def finishedPair : Register Val World :=
  ({ qubits := [scripted 0 [.add 1], scripted 1 [.add 2]] } : Register Val World).execute {} |>.2.1

/-- Another strategy without its combiner, a run that is refused for that, other data and a qubit
that is given something else to do: the first value stays. -/
theorem collapse_cached_finishedPair :
    (finishedPair.collapse {}).1 = .ok (.int 2) ∧
      (performAll [.set (.setStrategy .combine), .launch .execute, .setData 0 (.ofInt 7),
          .set (.initQubit 0 (Script.body ⟨[.add 5], 0, 0⟩) (.ofInt 7) 0), .collapse]
        (finishedPair.collapse {}).2.1 (finishedPair.collapse {}).2.2).1.output? =
          some (.int 2) := by
  have hvalue : (finishedPair.collapse {}).1 = .ok (.int 2) := by rfl
  refine ⟨hvalue, (collapse_cached.1 finishedPair {} (.int 2) hvalue _ ?_).1⟩
  exact ⟨⟨id, nofun⟩, ⟨fun haccepted => haccepted _ rfl, nofun⟩, ⟨id, nofun⟩, ⟨id, nofun⟩,
    ⟨id, nofun⟩, trivial⟩

end Agreed

end Superpose.Register
