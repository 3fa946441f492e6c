import Superpose.Proofs.Register.BreakOff
import Superpose.Proofs.Register.SingleSwitch
import Superpose.Proofs.Steering.Rotation

/-!
# A steering that is triggered changes the strategy

At every look of a run a register has some strategy to turn to, since there are several that depend
on nothing (`exists_plain`). So a look that is due, and at which the policy fires, changes the
strategy, unless the steering has changed it since it was installed or reset.
-/

namespace Superpose

theorem Toolkit.supports_of_plain {α : Type} (t : Toolkit α) {s : Strategy}
    (hplain : s.requirements = []) : t.supports s = true := by
  have hring : s ≠ .ensemble := by
    rintro rfl
    cases hplain
  simp [supports, missing, Presence.missing, Presence.gap, hplain, hring]

namespace Register

open Steering (Ledger)

variable {α ω : Type}

/-- From every strategy there is another one that the register supports. -/
theorem exists_plain (r : Register α ω) (current : Strategy) :
    ∃ t : Strategy, t ≠ .ensemble ∧ t ≠ current ∧ r.supports t = true := by
  by_cases h : current = .firstWins
  · refine ⟨.lastWins, by decide, ?_, r.toolkit.supports_of_plain rfl⟩
    rw [h]
    decide
  · exact ⟨.firstWins, by decide, Ne.symm h, r.toolkit.supports_of_plain rfl⟩

variable [Clocked ω]

/-- Every look of a launch finds the run on. -/
theorem Launch.executing_of_mem_looks {l : Launch} {r : Register α ω} {w : ω}
    {look : Register α ω × ω} (h : look ∈ l.looks r w) : look.1.progress.executing = true := by
  unfold looks at h
  split at h
  · cases h
  · refine forall_waveLooks (P := fun r => r.progress.executing = true)
      (fun r w number wave hr => ?_) (fun r w hr => ?_) _ _ _ _ rfl look h
    · exact (executing_runJobs _ _ _).trans hr
    · exact (congrArg Progress.executing (r.checkpoint_progress w)).trans hr

variable [Inhabited α] [BEq α]

/-- A steering that was installed or reset has its change before it. -/
theorem Operation.spent_perform_of_refills {op : Operation α ω} (h : op.Refills)
    (r : Register α ω) (w : ω) : (op.perform r w).2.1.spent = false := by
  rcases refills_cases h with ⟨policy, advise, rfl⟩ | rfl
  · rfl
  · rw [spent, ledger_perform_resetSteering]
    cases r.ledger <;> rfl

/-- A steering has its change before it as long as no look has made one. -/
theorem spent_of_unchanged {refill : Operation α ω} (hrefill : refill.Refills)
    {ops : List (Operation α ω)} (hops : ∀ op ∈ ops, ¬ op.Refills) {r₀ r : Register α ω} {w₀ w : ω}
    {n : Nat} (hlook : (looksAll (refill :: ops) r₀ w₀)[n]? = some (r, w))
    (hunchanged : changes ((looksAll (refill :: ops) r₀ w₀).take n) = []) : r.spent = false := by
  have hlooks : looksAll (refill :: ops) r₀ w₀ =
      looksAll ops (refill.perform r₀ w₀).2.1 (refill.perform r₀ w₀).2.2 := by
    rcases Operation.refills_cases hrefill with ⟨policy, advise, rfl⟩ | rfl <;> rfl
  have hfresh := refill.spent_perform_of_refills hrefill r₀ w₀
  have hwatched := watched_performAll hops (refill.perform r₀ w₀).2.1 (refill.perform r₀ w₀).2.2
  rw [hlooks] at hlook hunchanged
  generalize looksAll ops _ _ = looks at hlook hunchanged hwatched
  obtain ⟨hn, hat⟩ := List.getElem?_eq_some_iff.mp hlook
  rw [← List.take_append_drop n looks, List.drop_eq_getElem_cons hn, hat] at hwatched
  -- no look before this one has made the change, so the ledger is as the refill left it
  have hspent := hwatched.before.spends.any_switched
  rw [hunchanged] at hspent
  rw [spent, hspent, ← spent, hfresh]
  rfl

/-- **A trigger that fires changes the strategy, and to the right one.** Every look of a launch
finds the run on, and the way round the strategies meets each one of the ring exactly once, wherever
it begins. Whatever has happened since a steering was installed or reset, as long as it has changed
nothing: at a look at a run that is on, if it is due and the policy fires, the strategy does change.
The new one differs from the current one and is supported. It is the recommended one if that is
eligible, and otherwise the first eligible one that is met. -/
theorem switch_at_trigger :
    (∀ (l : Launch) (r : Register α ω) (w : ω), ∀ look ∈ l.looks r w,
      look.1.progress.executing = true) ∧
    (∀ s t : Strategy, (∃! k, s.Meets k t) ↔ t ≠ .ensemble) ∧
    ∀ (refill : Operation α ω) (ops : List (Operation α ω)) (r₀ : Register α ω) (w₀ : ω) (n : Nat)
      (r : Register α ω) (w : ω) (s : Steering ω),
      refill.Refills → (∀ op ∈ ops, ¬ op.Refills) →
      (looksAll (refill :: ops) r₀ w₀)[n]? = some (r, w) →
      changes ((looksAll (refill :: ops) r₀ w₀).take n) = [] →
      r.progress.executing = true → r.steering = some s →
      s.isDue (Clocked.read w).1 = true →
      (Steering.trigger s.policy s.thresholds s.quality
        ⟨elapsed s.started (Clocked.read w).1, r.progress.completed, r.progress.failed,
          r.count⟩).isSome = true →
      ∃ next, r.change w = some next ∧
        Steering.TurnsTo r.supports s.current (s.advise (Clocked.read w).2 r.workload) next := by
  refine ⟨fun l r w look => Launch.executing_of_mem_looks, Strategy.existsUnique_meets_iff, ?_⟩
  intro refill ops r₀ w₀ n r w s hrefill hops hlook hunchanged hon hs hdue hfires
  have hspent := spent_of_unchanged hrefill hops hlook hunchanged
  obtain ⟨t, hring, hother, hsupported⟩ := r.exists_plain s.current
  obtain ⟨next, hnext, hturns⟩ := Steering.exists_alternative_eq hring hother hsupported
    (s.advise (Clocked.read w).2 r.workload)
  refine ⟨next, ?_, hturns⟩
  rw [(looked r w).change, hspent, if_neg Bool.false_ne_true, call, if_pos hon, hs,
    Option.bind_some, Steering.call, hdue, Bool.true_and, if_pos hfires, hnext]

section Panelled

open Workbench

/-- Two qubits that take their time, whose results a panel is to choose from. -/
def panelled : Register Val World where
  qubits := [scripted 0 [.advance 200], scripted 1 [.advance 200]]
  strategy := .ensemble
  toolkit := { panel := some (.ofMembers [⟨.lastWins, 1⟩]) }

/-- A run of good quality, and one of poor quality. -/
def goodThenPoor : List (Operation Val World) :=
  [.launch .execute, .reset, .set (.reportQuality 0.2), .launch .execute]

/-- The looks of these runs, under a steering that is advised to combine the results. -/
def panelledLooks : List (Register Val World × World) :=
  looksAll (.set (.installSteering .quality fun _ _ => .combine) :: goodThenPoor) panelled {}

def firstPoorLook : Register Val World × World := panelledLooks.get ⟨2, by decide +kernel⟩

def poorlyServed : Steering World := firstPoorLook.1.steering.get (by decide +kernel)

/-- The steering cannot follow the advice, for want of a combiner, and goes on from the strategy
outside of the ring. -/
theorem switch_at_trigger_panelled :
    panelledLooks[2]? = some firstPoorLook ∧ changes (panelledLooks.take 2) = [] ∧
      firstPoorLook.1.progress.executing = true ∧
      firstPoorLook.1.steering = some poorlyServed ∧ poorlyServed.current = .ensemble ∧
      poorlyServed.isDue (Clocked.read firstPoorLook.2).1 = true ∧
      firstPoorLook.1.change firstPoorLook.2 = some .lastWins ∧
      Steering.TurnsTo firstPoorLook.1.supports .ensemble .combine .lastWins := by
  have hlook : panelledLooks[2]? = some firstPoorLook := List.getElem?_eq_getElem _
  have hsteering : firstPoorLook.1.steering = some poorlyServed := (Option.some_get _).symm
  have hunchanged : changes (panelledLooks.take 2) = [] := by decide +kernel
  have hon : firstPoorLook.1.progress.executing = true := by decide +kernel
  have hdue : poorlyServed.isDue (Clocked.read firstPoorLook.2).1 = true := by decide +kernel
  have hops : ∀ op ∈ goodThenPoor, ¬ op.Refills := by simp [goodThenPoor, Operation.Refills]
  obtain ⟨next, hchange, hturns⟩ := switch_at_trigger.2.2
    (.set (.installSteering .quality fun _ _ => .combine)) goodThenPoor panelled {} 2
    firstPoorLook.1 firstPoorLook.2 poorlyServed trivial hops hlook hunchanged hon hsteering hdue
    (by decide +kernel)
  have hnext : firstPoorLook.1.change firstPoorLook.2 = some .lastWins := by decide +kernel
  have hcurrent : poorlyServed.current = .ensemble := by decide +kernel
  have hadvice : poorlyServed.advise (Clocked.read firstPoorLook.2).2
      firstPoorLook.1.workload = .combine := by decide +kernel
  obtain rfl : next = .lastWins := Option.some.inj (hchange.symm.trans hnext)
  rw [hcurrent, hadvice] at hturns
  exact ⟨hlook, hunchanged, hon, hsteering, hcurrent, hdue, hnext, hturns⟩

end Panelled

end Register

end Superpose
