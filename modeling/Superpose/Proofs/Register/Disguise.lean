import Superpose.Proofs.Register.Operation

/-!
# What a run does not look at

A run looks at a qubit only to run it, to see whether it takes part, and to gather figures for the
steering, and at the toolkit only to see what is there. A `Disguise` changes qubits, toolkit and
output in ways of which none of this takes notice. A register in disguise is then run as the
register is, and ends up in the same disguise (`Launch.start_disguised`), from one job upwards: so
whatever a disguise hides has no influence on runs.
-/

namespace Superpose.Register

variable {α ω : Type}

/-- A change of a register that no run takes notice of. -/
structure Disguise (α ω : Type) [Clocked ω] where
  qubit : Qubit α ω → Qubit α ω
  toolkit : Toolkit α → Toolkit α
  output : Option α → Option α
  enabled_qubit : ∀ q, (qubit q).enabled = q.enabled
  status_qubit : ∀ q, (qubit q).status = q.status
  duration_qubit : ∀ q, (qubit q).duration = q.duration
  skipIfDisabled_qubit : ∀ q, (qubit q).skipIfDisabled = qubit q.skipIfDisabled
  run_qubit : ∀ q w, (qubit q).run w =
    ⟨(q.run w).ending, qubit (q.run w).qubit, (q.run w).world⟩
  presence_toolkit : ∀ t, (toolkit t).presence = t.presence
  panel_toolkit : ∀ t, (toolkit t).panel = t.panel

variable [Clocked ω]

/-- The register in disguise. -/
def disguised (d : Disguise α ω) (r : Register α ω) : Register α ω :=
  { r with
    qubits := r.qubits.map d.qubit
    toolkit := d.toolkit r.toolkit
    output := d.output r.output }

/-- The scene with its qubits in disguise. -/
def Scene.disguised (d : Disguise α ω) (s : Scene α ω) : Scene α ω :=
  { s with qubits := s.qubits.map d.qubit }

/-- The site with its register in disguise. -/
def Site.disguised (d : Disguise α ω) (s : Site α ω) : Site α ω :=
  { s with register := s.register.disguised d }

section Disguised

variable (d : Disguise α ω)

/-! ## Figures -/

theorem count_disguised (r : Register α ω) : (r.disguised d).count = r.count :=
  List.length_map _

theorem enabledCount_disguised (r : Register α ω) :
    (r.disguised d).enabledCount = r.enabledCount := by
  unfold enabledCount disguised
  rw [List.countP_map]
  exact List.countP_congr fun q _ => by rw [Function.comp_apply, d.enabled_qubit]

theorem isComplete_disguised (r : Register α ω) : (r.disguised d).isComplete = r.isComplete := by
  unfold isComplete
  rw [enabledCount_disguised]
  rfl

theorem durations_disguised (r : Register α ω) : (r.disguised d).durations = r.durations := by
  have hcompleted : ((fun q : Qubit α ω => q.status == .completed) ∘ d.qubit) =
      fun q => q.status == .completed :=
    funext fun q => congrArg (· == .completed) (d.status_qubit q)
  have hduration : (Qubit.duration ∘ d.qubit : Qubit α ω → UInt64) = Qubit.duration :=
    funext d.duration_qubit
  unfold durations disguised
  rw [List.filter_map, List.map_map, hcompleted, hduration]

theorem workload_disguised (r : Register α ω) : (r.disguised d).workload = r.workload := by
  have hscored : (d.toolkit r.toolkit).evaluator.isSome = r.toolkit.evaluator.isSome :=
    congrArg Presence.evaluator (d.presence_toolkit r.toolkit)
  unfold workload
  rw [count_disguised, durations_disguised]
  simp only [disguised, hscored]

theorem missing_disguised (r : Register α ω) (s : Strategy) :
    (r.disguised d).toolkit.missing s = r.toolkit.missing s := by
  unfold Toolkit.missing disguised
  rw [d.presence_toolkit, d.panel_toolkit]

theorem supports_disguised (r : Register α ω) : (r.disguised d).supports = r.supports :=
  funext fun s => congrArg Option.isNone (r.missing_disguised d s)

theorem obstacle_disguised (r : Register α ω) : (r.disguised d).obstacle = r.obstacle := by
  have hmissing := r.missing_disguised d r.strategy
  unfold obstacle
  rw [show (r.disguised d).strategy = r.strategy from rfl, hmissing]
  rfl

theorem waves_disguised (r : Register α ω) (order : List Nat) :
    (r.disguised d).waves order = r.waves order := by
  have henabled : (r.disguised d).isEnabled = r.isEnabled := by
    funext i
    unfold isEnabled disguised
    rw [List.getElem?_map]
    cases r.qubits[i]? with
    | none => rfl
    | some q => exact d.enabled_qubit q
  unfold waves
  rw [henabled]
  rfl

/-! ## Runs -/

theorem begin_disguised (r : Register α ω) (now : UInt64) :
    (r.disguised d).begin now = (r.begin now).disguised d := by
  have hskip : (r.qubits.map d.qubit).map Qubit.skipIfDisabled =
      (r.qubits.map Qubit.skipIfDisabled).map d.qubit := by
    rw [List.map_map, List.map_map]
    exact List.map_congr_left fun q _ => d.skipIfDisabled_qubit q
  unfold begin
  rw [enabledCount_disguised]
  simp only [disguised, hskip]

theorem runJob_disguised (i : Nat) (s : Scene α ω) :
    runJob i (s.disguised d) = ((runJob i s).1, (runJob i s).2.disguised d) := by
  have hget : (s.disguised d).qubits[i]? = (s.qubits[i]?).map d.qubit := List.getElem?_map ..
  unfold runJob
  rw [hget]
  cases s.qubits[i]? with
  | none => rfl
  | some q => simp only [Option.map_some, Scene.disguised, d.run_qubit, List.map_set]

theorem runJobs_disguised (persistent : Bool) : ∀ (is : List Nat) (s : Scene α ω),
    runJobs persistent is (s.disguised d) =
      ((runJobs persistent is s).1, (runJobs persistent is s).2.disguised d) := by
  intro is
  induction is with
  | nil => exact fun _ => rfl
  | cons i is ih =>
    intro s
    simp only [runJobs, runJob_disguised, ih]
    split
    · split <;> rfl
    · rfl

theorem runWave_disguised (r : Register α ω) (w : ω) (number : Nat) (wave : List Nat) :
    (r.disguised d).runWave w number wave = (r.runWave w number wave).disguised d := by
  have hjobs := runJobs_disguised d r.dispatcher.persistent (dispatched r.dispatcher number wave)
    ⟨r.qubits, r.progress, w⟩
  unfold runWave
  simp only [Scene.disguised] at hjobs
  simp only [disguised, hjobs]
  rfl

theorem checkpoint_disguised (r : Register α ω) (w : ω) :
    (r.disguised d).checkpoint w =
      ((r.checkpoint w).1, (r.checkpoint w).2.1.disguised d, (r.checkpoint w).2.2) := by
  have hsteering : (r.disguised d).steering = r.steering := rfl
  have hprogress : (r.disguised d).progress = r.progress := rfl
  have hsteer : ∀ s now w, (r.disguised d).steer s now w =
      ((r.steer s now w).1, (r.steer s now w).2.disguised d) := by
    intro s now w
    unfold steer
    rw [hprogress, count_disguised, supports_disguised, workload_disguised]
    split <;> rfl
  unfold checkpoint
  rw [hsteering]
  cases r.steering with
  | none => rfl
  | some s =>
    simp only [hprogress, hsteer]
    split <;> rfl

theorem runWaves_disguised (waves : List (List Nat)) : ∀ (number : Nat) (r : Register α ω) (w : ω),
    runWaves number waves (r.disguised d) w = (runWaves number waves r w).disguised d := by
  induction waves with
  | nil => exact fun _ _ _ => rfl
  | cons wave waves ih =>
    intro number r w
    simp only [runWaves, runWave_disguised, Site.disguised, checkpoint_disguised, ih]
    split <;> rfl

theorem runInOrder_disguised (r : Register α ω) (w : ω) (order : List Nat) :
    (r.disguised d).runInOrder w order = ((r.runInOrder w order).1,
      (r.runInOrder w order).2.1.disguised d, (r.runInOrder w order).2.2) := by
  unfold runInOrder
  rw [obstacle_disguised]
  cases r.obstacle with
  | some fault => rfl
  | none =>
    simp only [waves_disguised, begin_disguised, runWaves_disguised, Site.disguised]
    split <;> rfl

theorem execute_disguised (r : Register α ω) (w : ω) :
    (r.disguised d).execute w =
      ((r.execute w).1, (r.execute w).2.1.disguised d, (r.execute w).2.2) := by
  unfold execute
  rw [count_disguised]
  exact runInOrder_disguised d r w _

theorem executeSync_disguised (r : Register α ω) (w : ω) :
    (r.disguised d).executeSync w =
      ((r.executeSync w).1, (r.executeSync w).2.1.disguised d, (r.executeSync w).2.2) := by
  unfold executeSync
  rw [execute_disguised]
  rcases r.execute w with ⟨_ | (_ | _) | _, r', w'⟩
  · rfl
  · rfl
  · simp only [isComplete_disguised]
  · rfl

theorem executeOrdered_disguised (r : Register α ω) (w : ω) (order : List Nat) :
    (r.disguised d).executeOrdered w order = ((r.executeOrdered w order).1,
      (r.executeOrdered w order).2.1.disguised d, (r.executeOrdered w order).2.2) := by
  unfold executeOrdered
  rw [count_disguised]
  split
  · rfl
  · exact runInOrder_disguised d r w _

/-- **A launch does not see through a disguise**, and does not touch it. -/
theorem Launch.start_disguised (l : Launch) (r : Register α ω) (w : ω) :
    l.start (r.disguised d) w =
      ((l.start r w).1, (l.start r w).2.1.disguised d, (l.start r w).2.2) := by
  cases l with
  | execute => exact execute_disguised d r w
  | executeSync => exact executeSync_disguised d r w
  | executeOrdered order => exact executeOrdered_disguised d r w order

end Disguised

end Superpose.Register
