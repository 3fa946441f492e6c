import Superpose.Proofs.Register.BreakOff
import Superpose.Proofs.Register.Equipment

/-!
# When a register counts as executing

Only a run sets the flag that a run is on, and it leaves it set exactly if a body breaks off in it;
only a reset takes it back then. So if dispatchers let break-offs out, the flag tells whether a body
has broken off since the last reset, and as long as none has, no qubit is running. Each operation
keeps this (`Operation.flagged_perform`), hence all operations one after the other do
(`flagged_performAll`).
-/

namespace Superpose.Register

variable {α ω : Type}

/-! ## Dispatchers -/

/-- Whether an operation leaves it to dispatchers that let a break-off out to run the qubits. -/
def Operation.Propagates : Operation α ω → Prop
  | .set (.setDispatcher d) => d.contained = false
  | _ => True

section Operations

variable [Clocked ω] [Inhabited α] [BEq α]

theorem Operation.dispatcher_perform (op : Operation α ω) (r : Register α ω) (w : ω) :
    (op.perform r w).2.1.dispatcher = r.dispatcher ∨
      op = .set (.setDispatcher (op.perform r w).2.1.dispatcher) := by
  by_cases hset : ∃ s, op = .set s
  · obtain ⟨s, rfl⟩ := hset
    simp only [perform]
    cases hs : s.apply r with
    | error fault => exact Or.inl rfl
    | ok r' =>
      cases Setting.applied_apply hs with
      | qubit => exact Or.inl rfl
      | equipment _ _ _ _ _ _ hdispatcher => exact hdispatcher.imp id (congrArg Operation.set)
  · left
    have heffect := op.effect_perform r w
    generalize (op.perform r w).2.1 = r' at heffect
    cases heffect with
    | idle | qubit | collapsed | reset => rfl
    | equipment h => exact absurd h hset
    | ran order _ hready => exact (sameSetup_runInOrder hready w order).dispatcher
    | checked => exact r.checkpoint_dispatcher w

theorem Operation.propagates_perform {op : Operation α ω} (hop : op.Propagates)
    {r : Register α ω} (h : r.dispatcher.contained = false) (w : ω) :
    (op.perform r w).2.1.dispatcher.contained = false := by
  rcases op.dispatcher_perform r w with hsame | hset
  · rw [hsame]
    exact h
  · rw [hset] at hop
    exact hop

/-! ## Break-offs -/

/-- Whether an operation is a launch in which a body breaks off. -/
def Operation.BreaksOff (op : Operation α ω) (r : Register α ω) (w : ω) : Prop :=
  match op with
  | .launch l => ∃ run ∈ l.runs r w, run.2 = .panicked
  | _ => False

/-- Whether a body has broken off since the last reset, after operations before which it was so or
not. -/
def BrokenOff : List (Operation α ω) → Register α ω → ω → (before : Prop) → Prop
  | [], _, _, before => before
  | op :: ops, r, w, before =>
    BrokenOff ops (op.perform r w).2.1 (op.perform r w).2.2
      (op ≠ .reset ∧ (before ∨ op.BreaksOff r w))

/-- A register whose flag tells whether a body has broken off, and in which no qubit is running if
none has. -/
structure Flagged (r : Register α ω) (broken : Prop) : Prop where
  dispatcher : r.dispatcher.contained = false
  executing : r.progress.executing = true ↔ broken
  still : ¬ broken → Still r.qubits

omit [Clocked ω] [BEq α] in
theorem IsNew.flagged {r : Register α ω} (h : IsNew r) : r.Flagged False := by
  obtain ⟨threads, capacity, settings, h⟩ := h
  unfold ofSettings ofCapacity at h
  split at h
  · cases h
  · rw [← Except.ok.inj h]
    refine ⟨?_, ⟨nofun, nofun⟩, fun _ q hq => ?_⟩
    · simp only
      cases settings.dispatch <;> rfl
    · obtain ⟨i, -, rfl⟩ := List.mem_map.mp hq
      nofun

/-! ## The flag -/

omit [Inhabited α] [BEq α] in
/-- A launch sets the flag exactly if a body breaks off in it. -/
theorem Launch.flagged_start {r : Register α ω} {broken : Prop} (h : r.Flagged broken) (l : Launch)
    (w : ω) :
    ((l.start r w).2.1.progress.executing = true ↔
        broken ∨ ∃ run ∈ l.runs r w, run.2 = .panicked) ∧
      (¬ (broken ∨ ∃ run ∈ l.runs r w, run.2 = .panicked) → Still (l.start r w).2.1.qubits) := by
  by_cases haccepted : ∀ fault, (l.start r w).1 ≠ .refused fault
  · obtain ⟨hready, horder, hend⟩ := of_accepted haccepted
    have hoff : r.progress.executing = false := (obstacle_eq_none_iff.mp hready).1
    have hsound : ¬ broken := fun hbroken => by
      rw [h.executing.mpr hbroken] at hoff
      cases hoff
    obtain ⟨hflag, hstill⟩ :=
      executing_executeOrdered hready horder h.dispatcher (h.still hsound) w
    have hregister : (l.start r w).2.1 = (r.executeOrdered w l.order).2.1 := congrArg Prod.fst hend
    rw [hregister, or_iff_right hsound]
    refine ⟨hflag, fun hnone => hstill ?_⟩
    exact Bool.eq_false_iff.mpr fun hon => hnone (hflag.mp hon)
  · obtain ⟨fault, hrefused⟩ := not_forall_not.mp haccepted
    have hlaunched := l.launched_start r w
    rw [runs_of_refused hrefused]
    generalize l.start r w = x at hlaunched hrefused
    cases hlaunched with
    | refused =>
      have hnone : ¬ ∃ run ∈ ([] : List (Nat × Ending)), run.2 = .panicked := nofun
      rw [or_iff_left hnone]
      exact ⟨h.executing, h.still⟩
    | ran order _ haccepted => exact absurd hrefused (haccepted fault)

/-- Nothing but a launch or a reset touches the flag, or sets a qubit running. -/
theorem Operation.progress_perform (op : Operation α ω) (r : Register α ω) (w : ω)
    (hlaunch : ∀ l, op ≠ .launch l) (hreset : op ≠ .reset) :
    (op.perform r w).2.1.progress = r.progress ∧
      (Still r.qubits → Still (op.perform r w).2.1.qubits) := by
  have heffect := op.effect_perform r w
  generalize (op.perform r w).2.1 = r' at heffect
  cases heffect with
  | idle | equipment | collapsed => exact ⟨rfl, id⟩
  | qubit i f hf =>
    refine ⟨rfl, fun h => forall_mem_modify h (fun q hq => ?_) i⟩
    rcases hf q with hkept | hpending
    · rw [hkept]
      exact hq
    · rw [hpending]
      nofun
  | ran order hstarts =>
    cases op with
    | launch l => exact absurd rfl (hlaunch l)
    | _ => exact hstarts.elim
  | reset h => exact absurd h hreset
  | checked => exact ⟨r.checkpoint_progress w, fun h => (r.checkpoint_qubits w).symm ▸ h⟩

/-- **A step of the flag.** -/
theorem Operation.flagged_perform {op : Operation α ω} (hop : op.Propagates) {r : Register α ω}
    {broken : Prop} (h : r.Flagged broken) (w : ω) :
    (op.perform r w).2.1.Flagged (op ≠ .reset ∧ (broken ∨ op.BreaksOff r w)) := by
  have hdispatcher := propagates_perform hop h.dispatcher w
  have hquiet := op.progress_perform r w
  cases op with
  | launch l =>
    obtain ⟨hflag, hstill⟩ := l.flagged_start h w
    have hne : Operation.launch l ≠ (.reset : Operation α ω) := nofun
    rw [and_iff_right hne]
    exact ⟨hdispatcher, hflag, hstill⟩
  | reset =>
    refine ⟨hdispatcher, ⟨nofun, fun hnot => absurd rfl hnot.1⟩, fun _ q hq => ?_⟩
    obtain ⟨q, -, rfl⟩ := List.mem_map.mp hq
    nofun
  | set | setData | collapse | checkpoint | outside =>
    obtain ⟨hprogress, hstill⟩ := hquiet nofun nofun
    rw [and_iff_right nofun]
    change Flagged _ (broken ∨ False)
    rw [or_false]
    refine ⟨hdispatcher, ?_, fun hnone => hstill (h.still hnone)⟩
    rw [hprogress]
    exact h.executing

/-- **The flag after a whole course.** -/
theorem flagged_performAll : ∀ {ops : List (Operation α ω)} {r : Register α ω} {w : ω}
    {broken : Prop}, (∀ op ∈ ops, op.Propagates) → r.Flagged broken →
      (performAll ops r w).1.Flagged (BrokenOff ops r w broken) := by
  intro ops
  induction ops with
  | nil => exact fun _ h => h
  | cons op ops ih =>
    intro r w broken hops h
    rw [List.forall_mem_cons] at hops
    exact ih hops.2 (op.flagged_perform hops.1 h w)

/-- **When a register counts as executing.** Whatever is done to a new register with dispatchers
that let a break-off out: unless a body has broken off since the last reset, the register does not
count as executing, no qubit is running, and no launch is refused because a run is on. If one has,
the register counts as executing, and every launch is refused for that, whose order is one. After a
reset no register counts as executing, so none of its launches is refused for that, and one is
accepted if the strategy is supported and the order is one. -/
theorem executing_iff_brokenOff :
    (∀ (r : Register α ω) (w : ω) (ops : List (Operation α ω)), IsNew r →
      (∀ op ∈ ops, op.Propagates) →
      (¬ BrokenOff ops r w False →
        (performAll ops r w).1.progress.executing = false ∧
        (∀ q ∈ (performAll ops r w).1.qubits, q.status ≠ .running) ∧
        ∀ (l : Launch) (w' : ω),
          (l.start (performAll ops r w).1 w').1 ≠ .refused (.register .alreadyExecuting)) ∧
      (BrokenOff ops r w False →
        (performAll ops r w).1.progress.executing = true ∧
        ∀ (l : Launch) (w' : ω), IsOrder (performAll ops r w).1.count l.order →
          l.start (performAll ops r w).1 w' =
            (.refused (.register .alreadyExecuting), (performAll ops r w).1, w'))) ∧
    ∀ r : Register α ω, r.reset.progress.executing = false ∧
      ∀ (l : Launch) (w : ω),
        (l.start r.reset w).1 ≠ .refused (.register .alreadyExecuting) ∧
        (r.supports r.strategy = true → IsOrder r.count l.order →
          ∀ fault, (l.start r.reset w).1 ≠ .refused fault) := by
  refine ⟨fun r w ops hnew hops => ?_, fun r => ⟨rfl, fun l w => ⟨?_, ?_⟩⟩⟩
  · have hflagged := flagged_performAll (w := w) hops hnew.flagged
    refine ⟨fun hnone => ?_, fun hbroken => ?_⟩
    · have hoff := Bool.eq_false_iff.mpr fun hon => hnone (hflagged.executing.mp hon)
      exact ⟨hoff, hflagged.still hnone, fun l w' => l.start_ne_alreadyExecuting hoff w'⟩
    · have hon := hflagged.executing.mpr hbroken
      exact ⟨hon, fun l w' horder => l.start_of_executing hon w' horder⟩
  · exact l.start_ne_alreadyExecuting rfl w
  · intro hsupported horder
    have hcount : r.reset.count = r.count := List.length_map _
    exact Launch.start_accepted (r := r.reset) rfl hsupported (hcount ▸ horder) w

section Sample

open Workbench

/-- A run that breaks off at the first of two qubits, and a launch after it. -/
def interrupted : List (Operation Val World) :=
  [assign 0 [.add 1, .panic], assign 1 [.add 2], .launch .execute, .set (.setEnabled 1 false),
    .launch .executeSync]

/-- The register is stuck until it is reset, and then it runs again. -/
theorem executing_iff_brokenOff_interrupted :
    IsNew blankPair ∧ (∀ op ∈ interrupted, op.Propagates) ∧
      BrokenOff interrupted blankPair {} False ∧
      ((performAll interrupted blankPair {}).1.execute {}).1 =
        .refused (.register .alreadyExecuting) ∧
      ¬ BrokenOff (interrupted ++ [.reset]) blankPair {} False ∧
      (performAll (interrupted ++ [.reset]) blankPair {}).1.progress.executing = false ∧
      ∀ fault, ((performAll interrupted blankPair {}).1.reset.execute {}).1 ≠ .refused fault := by
  have hnew : IsNew blankPair := ⟨1, 2, {}, rfl⟩
  have hops : ∀ op ∈ interrupted ++ [.reset], op.Propagates := by
    intro op hop
    simp only [interrupted, assign, List.cons_append, List.nil_append, List.mem_cons,
      List.not_mem_nil, or_false] at hop
    rcases hop with rfl | rfl | rfl | rfl | rfl | rfl <;> trivial
  have hfirst : ∀ op ∈ interrupted, op.Propagates :=
    fun op hop => hops op (List.mem_append_left _ hop)
  have hbroken : BrokenOff interrupted blankPair {} False :=
    ⟨nofun, Or.inl ⟨nofun, Or.inl ⟨nofun, Or.inr ⟨(0, .panicked), by decide +kernel, rfl⟩⟩⟩⟩
  have hmended : ¬ BrokenOff (interrupted ++ [.reset]) blankPair {} False := fun h => h.1 rfl
  have horder : ∀ count, IsOrder count Launch.execute.order := fun _ => ⟨List.nodup_nil, nofun⟩
  obtain ⟨-, hstuck⟩ := executing_iff_brokenOff.1 blankPair {} interrupted hnew hfirst
  obtain ⟨hfree, -⟩ := executing_iff_brokenOff.1 blankPair {} _ hnew hops
  obtain ⟨-, hready⟩ := executing_iff_brokenOff.2 (performAll interrupted blankPair {}).1
  refine ⟨hnew, hfirst, hbroken, ?_, hmended, (hfree hmended).1, ?_⟩
  · exact congrArg Prod.fst ((hstuck hbroken).2 .execute {} (horder _))
  · exact (hready .execute {}).2 rfl (horder _)

end Sample

end Operations

end Superpose.Register
