import Superpose.Proofs.Register.Collapse
import Superpose.Proofs.Register.Disguise
import Superpose.Proofs.Run.Frame
import Superpose.Proofs.Workbench.Script

/-!
# What is refused changes nothing

An operation that is refused leaves the register as it was, but for one case: a collapse may make
the output before its strategy refuses the results. That output cannot be seen, and it holds the
value that a later collapse would begin with anyway. `Twin` relates registers that differ in no more
than that. No operation tells twins apart (`Twin.perform`), so no sequence of operations does
(`Twin.observe_eq`), and a register that refused something is a twin of itself before
(`refused_changes_nothing`).
-/

namespace Superpose.Register

variable {α ω : Type}

/-! ## Settings do not see the output -/

/-- The register with another output and another mark of whether it is the value of the last run. -/
def withValue (r : Register α ω) (output : Option α) (collapsed : Bool) : Register α ω :=
  { r with output, collapsed }

section Settings

variable (o : Option α) (c : Bool)

theorem changeQubit_withValue (r : Register α ω) (i : Nat) (f : Qubit α ω → Qubit α ω) :
    (r.withValue o c).changeQubit i f = (r.changeQubit i f).map (withValue · o c) := by
  have hcount : (r.withValue o c).count = r.count := rfl
  unfold changeQubit
  rw [hcount]
  split <;> rfl

theorem setTrend_withValue (r : Register α ω) (window : Nat) (weight : Int32) :
    (r.withValue o c).setTrend window weight =
      (r.setTrend window weight).map (withValue · o c) := by
  unfold setTrend
  split <;> rfl

theorem setPanel_withValue (r : Register α ω) (members : List Choice.Member) :
    (r.withValue o c).setPanel members = (r.setPanel members).map (withValue · o c) := by
  unfold setPanel
  split
  · rfl
  · split
    · rfl
    · split <;> rfl

theorem changeSteering_withValue (r : Register α ω) (f : Steering ω → Steering ω) :
    (r.withValue o c).changeSteering f = (r.changeSteering f).map (withValue · o c) := by
  have hsteering : (r.withValue o c).steering = r.steering := rfl
  unfold changeSteering
  rw [hsteering]
  split <;> rfl

theorem resetSteering_withValue (r : Register α ω) :
    (r.withValue o c).resetSteering = r.resetSteering.map (withValue · o c) := by
  have hsteering : (r.withValue o c).steering = r.steering := rfl
  unfold resetSteering
  rw [hsteering]
  split <;> rfl

/-- No setting looks at the output or at its mark, or touches them. -/
theorem Setting.apply_withValue (s : Setting α ω) (r : Register α ω) :
    s.apply (r.withValue o c) = (s.apply r).map (withValue · o c) := by
  cases s with
  | initQubit | setEnabled | setId | setNote => exact changeQubit_withValue o c r _ _
  | setTrend window weight => exact setTrend_withValue o c r window weight
  | setPanel members => exact setPanel_withValue o c r members
  | setThresholds | reportQuality => exact changeSteering_withValue o c r _
  | resetSteering => exact resetSteering_withValue o c r
  | setStrategy | setCustom | setEvaluator | setCombiner | setWaitsForAll | setDispatcher
  | setCriteria | setDataSize | clearTrend | installSteering => rfl

end Settings

/-- The register with another output. -/
def withOutput (r : Register α ω) (output : Option α) : Register α ω := { r with output }

section Untouched

variable {f : Register α ω → Except RegisterFault (Register α ω)}
  (hf : ∀ o c r, f (r.withValue o c) = (f r).map (withValue · o c)) {r : Register α ω}

include hf in
/-- What does not look at the mark does not touch it either. -/
theorem collapsed_of_withValue {r' : Register α ω} (h : f r = .ok r') :
    r'.collapsed = r.collapsed := by
  have hsame : f r = _ := hf r.output r.collapsed r
  rw [h] at hsame
  have hr' : r' = r'.withValue r.output r.collapsed := Except.ok.inj hsame
  rw [hr']
  rfl

include hf in
theorem withOutput_of_withValue (o : Option α) :
    f (r.withOutput o) = (f r).map (withOutput · o) := by
  rw [show r.withOutput o = r.withValue o r.collapsed from rfl, hf]
  cases h : f r with
  | error fault => rfl
  | ok r' =>
    show Except.ok (r'.withValue o r.collapsed) = Except.ok (r'.withOutput o)
    rw [← collapsed_of_withValue hf h]
    rfl

end Untouched

/-! ## Runs do not see the output -/

section Runs

variable [Clocked ω] (o : Option α)

/-- Hides the output behind another one. -/
def outputDisguise : Disguise α ω where
  qubit := id
  toolkit := id
  output _ := o
  enabled_qubit _ := rfl
  status_qubit _ := rfl
  duration_qubit _ := rfl
  skipIfDisabled_qubit _ := rfl
  run_qubit _ _ := rfl
  presence_toolkit _ := rfl
  panel_toolkit _ := rfl

theorem withOutput_eq_disguised (r : Register α ω) :
    r.withOutput o = r.disguised (outputDisguise o) := by
  simp only [withOutput, disguised, outputDisguise, List.map_id, id_eq]

theorem checkpoint_withOutput (r : Register α ω) (w : ω) :
    (r.withOutput o).checkpoint w =
      ((r.checkpoint w).1, (r.checkpoint w).2.1.withOutput o, (r.checkpoint w).2.2) := by
  rw [withOutput_eq_disguised, withOutput_eq_disguised, checkpoint_disguised]

/-- No run looks at the output, or touches it. -/
theorem Launch.start_withOutput (l : Launch) (r : Register α ω) (w : ω) :
    l.start (r.withOutput o) w =
      ((l.start r w).1, (l.start r w).2.1.withOutput o, (l.start r w).2.2) := by
  rw [withOutput_eq_disguised, withOutput_eq_disguised, Launch.start_disguised]

/-- A launch leaves no value that was not there. -/
theorem Launch.collapsed_start {l : Launch} {r : Register α ω} {w : ω}
    (h : (l.start r w).2.1.collapsed = true) : r.collapsed = true := by
  have hlaunched := l.launched_start r w
  generalize l.start r w = x at h hlaunched
  cases hlaunched with
  | refused fault => exact h
  | ran order hready haccepted hend =>
    rw [hend, (sameSetup_runInOrder hready w order).collapsed] at h
    cases h

end Runs

/-! ## Twins -/

section Twins

variable [Inhabited α]

/-- Registers that differ in the output at most, while this cannot be seen and a collapse would
begin with the same value. -/
structure Twin (r r' : Register α ω) : Prop where
  same : r' = r.withOutput r'.output
  getD_eq : r'.output.getD default = r.output.getD default
  kept : r.collapsed = true → r'.output = r.output

namespace Twin

variable {r r' : Register α ω}

theorem refl (r : Register α ω) : Twin r r := ⟨rfl, rfl, fun _ => rfl⟩

/-- An output that is made before there is a value. -/
theorem madeOutput (h : r.collapsed = false) : Twin r r.madeOutput where
  same := rfl
  getD_eq := rfl
  kept hc := by rw [h] at hc; cases hc

/-- Twins look alike. -/
theorem seen_eq (h : Twin r r') : r'.seen = r.seen := by
  have hcollapsed : r'.collapsed = r.collapsed := by
    rw [h.same]
    rfl
  have houtput : r'.output? = r.output? := by
    unfold output?
    rw [hcollapsed]
    split
    · rename_i hc
      exact h.kept hc
    · rfl
  unfold seen
  rw [houtput, h.same]
  rfl

/-- What does not look at the output, or touch it, makes twins of twins. -/
theorem of_withOutput {f : Register α ω → Register α ω}
    (hf : ∀ r o, f (r.withOutput o) = (f r).withOutput o)
    (hcollapsed : (f r).collapsed = true → r.collapsed = true) (h : Twin r r') :
    Twin (f r) (f r') := by
  have houtput : ∀ r, (f r).output = r.output := by
    intro r
    have hsame : f r = (f r).withOutput r.output := hf r r.output
    rw [hsame]
    rfl
  refine ⟨?_, ?_, fun hc => ?_⟩
  · rw [houtput, ← hf, ← h.same]
  · rw [houtput, houtput, h.getD_eq]
  · rw [houtput, houtput, h.kept (hcollapsed hc)]

end Twin

end Twins

/-! ## Operations on twins -/

variable [Inhabited α] [BEq α] [Clocked ω] {r r' : Register α ω}

/-- Nothing but a collapse looks at the output. -/
theorem Operation.perform_withOutput {op : Operation α ω} (hop : op ≠ .collapse)
    (r : Register α ω) (o : Option α) (w : ω) :
    op.perform (r.withOutput o) w =
      ((op.perform r w).1, (op.perform r w).2.1.withOutput o, (op.perform r w).2.2) := by
  cases op with
  | set setting =>
    simp only [perform, withOutput_of_withValue setting.apply_withValue]
    cases setting.apply r <;> rfl
  | setData i data =>
    have hchange : (r.withOutput o).changeQubit i (fun q => { q with data }) =
        (r.changeQubit i fun q => { q with data }).map (withOutput · o) :=
      withOutput_of_withValue (f := fun r => r.changeQubit i fun q => { q with data })
        (fun o c r => changeQubit_withValue o c r i _) o
    simp only [perform, Register.setData, hchange]
    cases r.changeQubit i fun q => { q with data } <;> rfl
  | launch l => simp only [perform, Launch.start_withOutput]
  | collapse => exact absurd rfl hop
  | reset => rfl
  | checkpoint => simp only [perform, checkpoint_withOutput]
  | outside f => rfl

/-- Nothing but a collapse makes a value. -/
theorem Operation.collapsed_perform {op : Operation α ω} (hop : op ≠ .collapse) {w : ω}
    (h : (op.perform r w).2.1.collapsed = true) : r.collapsed = true := by
  cases op with
  | set setting =>
    cases hs : setting.apply r with
    | error fault =>
      simp only [perform, hs] at h
      exact h
    | ok r' =>
      simp only [perform, hs] at h
      rw [← collapsed_of_withValue setting.apply_withValue hs]
      exact h
  | setData i data =>
    cases hs : r.changeQubit i fun q => { q with data } with
    | error fault =>
      simp only [perform, Register.setData, hs] at h
      exact h
    | ok r' =>
      simp only [perform, Register.setData, hs] at h
      rw [← collapsed_of_withValue (f := fun r => r.changeQubit i fun q => { q with data })
        (fun o c r => changeQubit_withValue o c r i _) hs]
      exact h
  | launch l => exact Launch.collapsed_start h
  | collapse => exact absurd rfl hop
  | reset => cases h
  | checkpoint =>
    have hsetup := sameSetup_checkpoint r w
    rw [← hsetup.collapsed]
    exact h
  | outside f => exact h

/-- What a strategy makes of the results replaces the output, whatever it was. -/
theorem collapseResults_withOutput {o : Option α}
    (ho : o.getD default = r.output.getD default) (hne : r.results.isEmpty = false) (w : ω) :
    (r.withOutput o).collapseResults w = r.collapseResults w := by
  have hresults : (r.withOutput o).results = r.results := rfl
  have houtput : (r.withOutput o).output = o := rfl
  have hstrategy : (r.withOutput o).strategy = r.strategy := rfl
  have htoolkit : (r.withOutput o).toolkit = r.toolkit := rfl
  have hsettle : ∀ reduced, (r.withOutput o).settle reduced = r.settle reduced := fun _ => rfl
  unfold collapseResults
  simp only [hresults, hne, houtput, ho, hstrategy, htoolkit, hsettle, Bool.false_eq_true,
    ↓reduceIte]

/-- A collapse answers twins alike and leaves twins. -/
theorem Twin.collapse (h : Twin r r') (w : ω) :
    (r'.collapse w).1 = (r.collapse w).1 ∧ (r'.collapse w).2.2 = (r.collapse w).2.2 ∧
      Twin (r.collapse w).2.1 (r'.collapse w).2.1 := by
  obtain ⟨hsame, hgetD, hkept⟩ := h
  generalize r'.output = o at hsame hgetD hkept
  subst hsame
  have htwin : Twin r (r.withOutput o) := ⟨rfl, hgetD, hkept⟩
  cases hcollapsed : r.collapsed with
  | true =>
    rw [hkept hcollapsed]
    exact ⟨rfl, rfl, Twin.refl _⟩
  | false =>
    have hcollapsed' : (r.withOutput o).collapsed = false := hcollapsed
    have hmissing : (r.withOutput o).toolkit.missing (r.withOutput o).strategy =
        r.toolkit.missing r.strategy := rfl
    unfold Register.collapse
    simp only [hcollapsed, hcollapsed', Bool.false_eq_true, ↓reduceIte, hmissing]
    cases r.toolkit.missing r.strategy with
    | some fault => exact ⟨rfl, rfl, htwin⟩
    | none =>
      cases hempty : r.results.isEmpty with
      | true =>
        have hempty' : (r.withOutput o).results.isEmpty = true := hempty
        simp only [collapseResults, hempty, hempty', ↓reduceIte]
        exact ⟨trivial, trivial, htwin⟩
      | false =>
        simp only [collapseResults_withOutput hgetD hempty]
        exact ⟨trivial, trivial, Twin.refl _⟩

/-- **No operation tells twins apart.** -/
theorem Twin.perform (h : Twin r r') (op : Operation α ω) (w : ω) :
    (op.perform r' w).1 = (op.perform r w).1 ∧ (op.perform r' w).2.2 = (op.perform r w).2.2 ∧
      Twin (op.perform r w).2.1 (op.perform r' w).2.1 := by
  by_cases hop : op = .collapse
  · subst hop
    obtain ⟨hanswer, hworld, htwin⟩ := h.collapse w
    exact ⟨congrArg Answer.ofValue hanswer, hworld, htwin⟩
  · have htwin := h.of_withOutput (f := fun r => (op.perform r w).2.1)
      (fun r o => congrArg (fun x => x.2.1) (op.perform_withOutput hop r o w))
      (op.collapsed_perform hop)
    have hsame := op.perform_withOutput hop r r'.output w
    rw [← h.same] at hsame
    exact ⟨by rw [hsame], by rw [hsame], htwin⟩

/-- No sequence of operations tells twins apart. -/
theorem Twin.observe_eq : ∀ {ops : List (Operation α ω)} {r r' : Register α ω} {w : ω},
    Twin r r' → observe ops r' w = observe ops r w := by
  intro ops
  induction ops with
  | nil => intro r r' w _; rfl
  | cons op ops ih =>
    intro r r' w h
    obtain ⟨hanswer, hworld, htwin⟩ := h.perform op w
    simp only [observe]
    rw [hanswer, hworld, htwin.seen_eq, ih htwin]

/-! ## Refusals -/

/-- A refused operation leaves a twin, and at most looks at the clock. -/
theorem Operation.twin_of_refused {op : Operation α ω} {w : ω} {fault : Fault}
    (h : (op.perform r w).1 = .refused fault) :
    ((op.perform r w).2.2 = w ∨ op = .collapse ∧ (op.perform r w).2.2 = (Clocked.read w).2) ∧
      Twin r (op.perform r w).2.1 := by
  cases op with
  | set setting =>
    cases hs : setting.apply r with
    | error f =>
      simp only [perform, hs]
      exact ⟨Or.inl trivial, Twin.refl r⟩
    | ok r' =>
      simp only [perform, hs] at h
      cases h
  | setData i data =>
    cases hs : r.setData i data <;> simp only [perform, hs] at h <;> cases h
  | launch l =>
    have hlaunched := l.launched_start r w
    simp only [perform] at h ⊢
    generalize l.start r w = x at h hlaunched
    cases hlaunched with
    | refused f => exact ⟨Or.inl rfl, Twin.refl r⟩
    | ran order hready haccepted hend =>
      obtain ⟨outcome, r', w'⟩ := x
      cases outcome with
      | refused f => exact absurd rfl (haccepted f)
      | finished b => cases h
      | panicked => cases h
  | collapse =>
    have herror : (r.collapse w).1 = .error fault := by
      simp only [perform] at h
      cases hc : (r.collapse w).1 with
      | ok value =>
        rw [hc] at h
        cases h
      | error f =>
        rw [hc] at h
        cases h
        rfl
    have hfailing := failing_of_error herror
    simp only [perform]
    generalize (r.collapse w).2 = x at hfailing
    obtain ⟨r', w'⟩ := x
    cases hfailing with
    | noValue => exact ⟨Or.inl rfl, Twin.refl _⟩
    | missing => exact ⟨Or.inl rfl, Twin.refl _⟩
    | noResults => exact ⟨Or.inr ⟨trivial, rfl⟩, Twin.refl _⟩
    | refused hcollapsed => exact ⟨Or.inr ⟨trivial, rfl⟩, Twin.madeOutput hcollapsed⟩
  | reset => cases h
  | checkpoint => cases h
  | outside f => cases h

/-- **What is refused changes nothing.** After an operation that was refused, in whatever state and
for whatever reason, the register looks as before, and whatever is done later, answers and all that
can be seen are the same as if the operation had not been asked for. Of the world it has at most
looked at the clock, and that only for a collapse. -/
theorem refused_changes_nothing {op : Operation α ω} {r : Register α ω} {w : ω} {fault : Fault}
    (h : (op.perform r w).1 = .refused fault) :
    ((op.perform r w).2.2 = w ∨ op = .collapse ∧ (op.perform r w).2.2 = (Clocked.read w).2) ∧
      (op.perform r w).2.1.seen = r.seen ∧
      ∀ later : List (Operation α ω),
        observe later (op.perform r w).2.1 (op.perform r w).2.2 =
          observe later r (op.perform r w).2.2 := by
  obtain ⟨hworld, htwin⟩ := Operation.twin_of_refused h
  exact ⟨hworld, htwin.seen_eq, fun later => htwin.observe_eq⟩

section Disagreement

open Workbench

/-- A register that has run two qubits, which came to different values, and is to see that all
agree. -/
def disagreeing : Register Val World :=
  ({ qubits := [scripted 0 [.add 1], scripted 1 [.add 2]], strategy := .validate } :
    Register Val World).execute {} |>.2.1

/-- The collapse fails after it made the output, and nobody can tell. -/
theorem refused_changes_nothing_disagreeing :
    (Operation.collapse.perform disagreeing {}).1 = .refused (.collapse (.mismatch 1)) ∧
      disagreeing.output = none ∧
      (Operation.collapse.perform disagreeing {}).2.1.output = some default ∧
      ∀ later : List (Operation Val World),
        observe later (Operation.collapse.perform disagreeing {}).2.1
          (Operation.collapse.perform disagreeing {}).2.2 =
            observe later disagreeing (Operation.collapse.perform disagreeing {}).2.2 := by
  have hrefused : (Operation.collapse.perform disagreeing {}).1 =
      .refused (.collapse (.mismatch 1)) := by rfl
  exact ⟨hrefused, rfl, rfl, (refused_changes_nothing hrefused).2.2⟩

end Disagreement

end Superpose.Register
