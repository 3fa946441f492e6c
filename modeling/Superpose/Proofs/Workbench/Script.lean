import Superpose.Proofs.SelfContained
import Superpose.Workbench.Script

/-!
# Plain scripts

The clock of a workbench stands still unless a script moves it (`standsStill`), and a script of
plain actions, which look at nothing but the data, is self-contained (`Script.selfContained_body`).
-/

namespace Superpose

namespace Workbench

/-- Actions that look at nothing but the data and change nothing else. -/
def Action.IsPlain : Action → Prop
  | set _ | add _ | square | fail => True
  | _ => False

theorem Action.exists_perform_eq {a : Action} (h : a.IsPlain) :
    ∃ outcome : Val → Ending × Val, ∀ data, (outcome data).1 ≠ .panicked ∧
      ∀ bus start w, a.perform bus start data w = ⟨(outcome data).1, (outcome data).2, w⟩ := by
  cases a with
  | set value => exact ⟨fun _ => (.returned, value), fun _ => ⟨by simp, fun _ _ _ => rfl⟩⟩
  | add n =>
    exact ⟨fun data => (.returned, .ofInt (data.magnitude + n)),
      fun _ => ⟨by simp, fun _ _ _ => rfl⟩⟩
  | square =>
    exact ⟨fun data => (.returned, .ofInt (data.magnitude * data.magnitude)),
      fun _ => ⟨by simp, fun _ _ _ => rfl⟩⟩
  | fail => exact ⟨fun data => (.failed, data), fun _ => ⟨by simp, fun _ _ _ => rfl⟩⟩
  | _ => exact h.elim

theorem Action.exists_performAll_eq : ∀ {actions : List Action}, (∀ a ∈ actions, a.IsPlain) →
    ∃ outcome : Val → Ending × Val, ∀ data, (outcome data).1 ≠ .panicked ∧
      ∀ bus start w, Action.performAll bus start actions data w =
        ⟨(outcome data).1, (outcome data).2, w⟩ := by
  intro actions
  induction actions with
  | nil =>
    intro _
    exact ⟨fun data => (.returned, data), fun _ => ⟨by simp, fun _ _ _ => rfl⟩⟩
  | cons a actions ih =>
    intro h
    obtain ⟨first, hfirst⟩ := exists_perform_eq (h a List.mem_cons_self)
    obtain ⟨rest, hrest⟩ := ih fun b hb => h b (List.mem_cons_of_mem a hb)
    refine ⟨fun data => if (first data).1 = .returned then rest (first data).2 else first data,
      fun data => ?_⟩
    obtain ⟨hcalm, hperform⟩ := hfirst data
    simp only [performAll, hperform]
    split
    · exact hrest _
    · exact ⟨hcalm, fun _ _ _ => rfl⟩

/-- A script of plain actions is self-contained while the clock stands still. -/
theorem Script.selfContained_body {s : Script} (h : ∀ a ∈ s.actions, a.IsPlain) (time : UInt64) :
    Body.SelfContained (fun w => w.clock = time) s.body := by
  obtain ⟨outcome, houtcome⟩ := Action.exists_performAll_eq h
  refine ⟨outcome, fun data => ⟨(houtcome data).1, fun w hw => ?_⟩⟩
  unfold Script.body
  rw [(houtcome data).2]
  exact ⟨rfl, rfl, hw⟩

theorem standsStill (time : UInt64) : StandsStill time fun w : World => w.clock = time where
  now := id
  kept := id

/-- A qubit of the workbench that takes part in runs. -/
def scripted (id : UInt32) (actions : List Action) : Qubit Val World where
  enabled := true
  body := some (Script.body ⟨actions, 0, 0⟩)
  data := .ofInt 1
  id := id

theorem selfContained_scripted (id : UInt32) {actions : List Action}
    (h : ∀ a ∈ actions, a.IsPlain) (time : UInt64) :
    (scripted id actions).SelfContained fun w => w.clock = time := by
  intro body hb
  rw [← Option.some.inj hb]
  exact Script.selfContained_body h time

end Workbench

end Superpose
