import Superpose.Register.Run

/-!
# Diaries

To say how often the body of a qubit is run one has to watch the bodies. A `Diary` is a world with a
list of the bodies that were run in it, and `Register.noting` is a register whose bodies write
themselves down there and otherwise do what they did before. A run of it is a run of the register,
entries apart (`executeOrdered_noting`), from one job upwards; `runsOf` are the entries that a run
in a given order leaves in an empty diary.
-/

namespace Superpose

/-- A world in which bodies note that they were run: the index of the qubit, and the ending. -/
structure Diary (ω : Type) where
  world : ω
  runs : List (Nat × Ending)

/-- Looking at the clock leaves no entry. -/
instance {ω : Type} [Clocked ω] : Clocked (Diary ω) where
  read d := ((Clocked.read d.world).1, ⟨(Clocked.read d.world).2, d.runs⟩)

variable {α ω : Type}

/-- A body that notes that it was run. -/
def Body.noting (i : Nat) (body : Body α ω) : Body α (Diary ω) := fun data d =>
  let effect := body data d.world
  ⟨effect.ending, effect.data, ⟨effect.world, d.runs ++ [(i, effect.ending)]⟩⟩

namespace Qubit

/-- The qubit at an index with a body that notes that it was run. -/
def noting (i : Nat) (q : Qubit α ω) : Qubit α (Diary ω) where
  enabled := q.enabled
  status := q.status
  body := q.body.map (Body.noting i)
  data := q.data
  resultSize := q.resultSize
  started := q.started
  ended := q.ended
  id := q.id
  note := q.note

/-- What a run of the qubit at an index leaves in a diary. -/
def entries (i : Nat) (q : Qubit α ω) (e : Ending) : List (Nat × Ending) :=
  if q.body.isSome then [(i, e)] else []

theorem run_noting [Clocked ω] (i : Nat) (q : Qubit α ω) (d : Diary ω) :
    (q.noting i).run d = ⟨(q.run d.world).ending, (q.run d.world).qubit.noting i,
      ⟨(q.run d.world).world, d.runs ++ entries i q (q.run d.world).ending⟩⟩ := by
  obtain ⟨enabled, status, body, data, size, started, ended, id, note⟩ := q
  cases body with
  | none => simp [run, noting, finish, entries, Clocked.read]
  | some body =>
    cases he : (body data (Clocked.read d.world).2).ending <;>
      simp [run, noting, Body.noting, finish, entries, Clocked.read, he]

theorem skipIfDisabled_noting (i : Nat) (q : Qubit α ω) :
    (q.noting i).skipIfDisabled = q.skipIfDisabled.noting i := by
  have henabled : (q.noting i).enabled = q.enabled := rfl
  unfold skipIfDisabled
  rw [henabled]
  split <;> rfl

end Qubit

/-- A steering whose adviser does not look at the diary. -/
def Steering.noting (s : Steering ω) : Steering (Diary ω) where
  policy := s.policy
  thresholds := s.thresholds
  started := s.started
  lastCheck := s.lastCheck
  switches := s.switches
  initial := s.initial
  current := s.current
  switched := s.switched
  completedSeen := s.completedSeen
  failedSeen := s.failedSeen
  quality := s.quality
  advise d := s.advise d.world

theorem Steering.check_noting (s : Steering ω) (now : UInt64) (completed failed : UInt32)
    (qubits : Nat) (eligible : Strategy → Bool) (recommended : Strategy) :
    s.noting.check now completed failed qubits eligible recommended =
      ((s.check now completed failed qubits eligible recommended).1,
        (s.check now completed failed qubits eligible recommended).2.noting) := by
  have hdue : s.noting.isDue now = s.isDue now := rfl
  have hdecision : { s.noting with lastCheck := now }.decision
      ⟨elapsed s.noting.started now, completed, failed, qubits⟩ eligible recommended =
      { s with lastCheck := now }.decision
        ⟨elapsed s.started now, completed, failed, qubits⟩ eligible recommended := rfl
  unfold check
  simp only [hdue, hdecision]
  split
  · split <;> rfl
  · rfl

namespace Register

/-- A register whose bodies note that they were run. -/
def noting (r : Register α ω) : Register α (Diary ω) where
  qubits := r.qubits.mapIdx Qubit.noting
  strategy := r.strategy
  toolkit := r.toolkit
  output := r.output
  collapsed := r.collapsed
  waitsForAll := r.waitsForAll
  dataSize := r.dataSize
  progress := r.progress
  runTime := r.runTime
  collapseTime := r.collapseTime
  steering := r.steering.map Steering.noting
  dispatcher := r.dispatcher

/-- The scene of a noting register, with a diary that holds some entries. -/
def Scene.noting (s : Scene α ω) (runs : List (Nat × Ending)) : Scene α (Diary ω) :=
  ⟨s.qubits.mapIdx Qubit.noting, s.progress, ⟨s.world, runs⟩⟩

/-- The site of a noting register, with a diary that holds some entries. -/
def Site.noting (s : Site α ω) (runs : List (Nat × Ending)) : Site α (Diary ω) :=
  ⟨s.panicked, s.register.noting, ⟨s.world, runs⟩⟩

/-! ## Figures do not see the diary -/

theorem count_noting (r : Register α ω) : r.noting.count = r.count := List.length_mapIdx

theorem countP_mapIdx_noting (l : List (Qubit α ω)) (p : Qubit α (Diary ω) → Bool)
    (p' : Qubit α ω → Bool) : ∀ {f : Nat → Qubit α ω → Qubit α (Diary ω)},
    (∀ i q, p (f i q) = p' q) → (l.mapIdx f).countP p = l.countP p' := by
  induction l with
  | nil => intro f _; rfl
  | cons q l ih =>
    intro f h
    rw [List.mapIdx_cons, List.countP_cons, List.countP_cons, h 0 q,
      ih (f := fun i => f (i + 1)) fun i q => h (i + 1) q]

theorem enabledCount_noting (r : Register α ω) : r.noting.enabledCount = r.enabledCount :=
  countP_mapIdx_noting r.qubits _ _ fun _ _ => rfl

theorem durations_noting (r : Register α ω) : r.noting.durations = r.durations := by
  have hkey : ∀ (l : List (Qubit α ω)) {f : Nat → Qubit α ω → Qubit α (Diary ω)},
      (∀ i q, (f i q).status = q.status ∧ (f i q).duration = q.duration) →
      ((l.mapIdx f).filter fun q => q.status == .completed).map Qubit.duration =
        (l.filter fun q => q.status == .completed).map Qubit.duration := by
    intro l
    induction l with
    | nil => intro f _; rfl
    | cons q l ih =>
      intro f h
      have hrest := ih (f := fun i => f (i + 1)) fun i q => h (i + 1) q
      rw [List.mapIdx_cons, List.filter_cons, List.filter_cons, (h 0 q).1]
      split
      · rw [List.map_cons, List.map_cons, (h 0 q).2, hrest]
      · exact hrest
  exact hkey r.qubits fun i q => ⟨rfl, rfl⟩

theorem workload_noting (r : Register α ω) : r.noting.workload = r.workload := by
  unfold workload
  rw [count_noting, durations_noting]
  rfl

theorem isEnabled_noting (r : Register α ω) : r.noting.isEnabled = r.isEnabled := by
  funext i
  unfold isEnabled noting
  rw [List.getElem?_mapIdx]
  cases r.qubits[i]? <;> rfl

theorem waves_noting (r : Register α ω) (order : List Nat) :
    r.noting.waves order = r.waves order := by
  unfold waves
  rw [isEnabled_noting]
  rfl

/-! ## Runs -/

variable [Clocked ω]

theorem exists_runJob_noting (i : Nat) (s : Scene α ω) (runs : List (Nat × Ending)) :
    ∃ more, runJob i (s.noting runs) = ((runJob i s).1, (runJob i s).2.noting (runs ++ more)) := by
  unfold runJob
  have hget : (s.noting runs).qubits[i]? = (s.qubits[i]?).map (Qubit.noting i) :=
    List.getElem?_mapIdx
  rw [hget]
  cases s.qubits[i]? with
  | none =>
    refine ⟨[], ?_⟩
    rw [List.append_nil]
    rfl
  | some q =>
    refine ⟨q.entries i (q.run s.world).ending, ?_⟩
    simp only [Option.map_some, Qubit.run_noting, Scene.noting, List.mapIdx_set]

theorem exists_runJobs_noting (persistent : Bool) (is : List Nat) :
    ∀ (s : Scene α ω) (runs : List (Nat × Ending)), ∃ more,
      runJobs persistent is (s.noting runs) =
        ((runJobs persistent is s).1, (runJobs persistent is s).2.noting (runs ++ more)) := by
  induction is with
  | nil =>
    intro s runs
    refine ⟨[], ?_⟩
    rw [List.append_nil]
    rfl
  | cons i is ih =>
    intro s runs
    obtain ⟨more, hmore⟩ := exists_runJob_noting i s runs
    obtain ⟨rest, hrest⟩ := ih (runJob i s).2 (runs ++ more)
    simp only [runJobs, hmore, hrest]
    split
    · split
      · exact ⟨more ++ rest, by rw [List.append_assoc]⟩
      · exact ⟨more, rfl⟩
    · exact ⟨more ++ rest, by rw [List.append_assoc]⟩

theorem exists_runWave_noting (r : Register α ω) (w : ω) (number : Nat) (wave : List Nat)
    (runs : List (Nat × Ending)) : ∃ more,
      r.noting.runWave ⟨w, runs⟩ number wave =
        (r.runWave w number wave).noting (runs ++ more) := by
  obtain ⟨more, hmore⟩ := exists_runJobs_noting r.dispatcher.persistent
    (dispatched r.dispatcher number wave) ⟨r.qubits, r.progress, w⟩ runs
  refine ⟨more, ?_⟩
  have hscene : (⟨r.noting.qubits, r.noting.progress, ⟨w, runs⟩⟩ : Scene α (Diary ω)) =
      Scene.noting ⟨r.qubits, r.progress, w⟩ runs := rfl
  have hdispatcher : r.noting.dispatcher = r.dispatcher := rfl
  unfold runWave
  rw [hscene, hdispatcher, hmore]
  rfl

theorem checkpoint_noting (r : Register α ω) (w : ω) (runs : List (Nat × Ending)) :
    r.noting.checkpoint ⟨w, runs⟩ =
      ((r.checkpoint w).1, (r.checkpoint w).2.1.noting, ⟨(r.checkpoint w).2.2, runs⟩) := by
  have hsteering : r.noting.steering = r.steering.map Steering.noting := rfl
  unfold checkpoint
  rw [hsteering]
  cases r.steering with
  | none => rfl
  | some s =>
    have hpolicy : s.noting.policy = s.policy := rfl
    have hprogress : r.noting.progress = r.progress := rfl
    simp only [Option.map_some, hpolicy, hprogress]
    split
    · have hcheck := s.check_noting (Clocked.read w).1 r.progress.completed r.progress.failed
        r.count r.supports (s.advise (Clocked.read w).2 r.workload)
      have hadvise : s.noting.advise (Clocked.read (⟨w, runs⟩ : Diary ω)).2 r.workload =
          s.advise (Clocked.read w).2 r.workload := rfl
      have hsupports : r.noting.supports = r.supports := rfl
      have hnow : (Clocked.read (⟨w, runs⟩ : Diary ω)).1 = (Clocked.read w).1 := rfl
      simp only [steer, workload_noting, count_noting, hprogress, hadvise, hsupports, hnow, hcheck]
      rcases s.check (Clocked.read w).1 r.progress.completed r.progress.failed r.count r.supports
        (s.advise (Clocked.read w).2 r.workload) with ⟨_ | next, s'⟩ <;> rfl
    · rfl

theorem exists_runWaves_noting (waves : List (List Nat)) : ∀ (number : Nat) (r : Register α ω)
    (w : ω) (runs : List (Nat × Ending)), ∃ more,
      runWaves number waves r.noting ⟨w, runs⟩ =
        (runWaves number waves r w).noting (runs ++ more) := by
  induction waves with
  | nil =>
    intro number r w runs
    refine ⟨[], ?_⟩
    rw [List.append_nil]
    rfl
  | cons wave waves ih =>
    intro number r w runs
    obtain ⟨more, hmore⟩ := exists_runWave_noting r w number wave runs
    obtain ⟨rest, hrest⟩ := ih (number + 1)
      ((r.runWave w number wave).register.checkpoint (r.runWave w number wave).world).2.1
      ((r.runWave w number wave).register.checkpoint (r.runWave w number wave).world).2.2
      (runs ++ more)
    simp only [runWaves, hmore, Site.noting, checkpoint_noting, hrest]
    split
    · exact ⟨more, rfl⟩
    · exact ⟨more ++ rest, by rw [List.append_assoc]⟩

omit [Clocked ω] in
theorem begin_noting (r : Register α ω) (now : UInt64) :
    r.noting.begin now = (r.begin now).noting := by
  have hskip : (r.qubits.mapIdx Qubit.noting).map Qubit.skipIfDisabled =
      (r.qubits.map Qubit.skipIfDisabled).mapIdx Qubit.noting := by
    refine List.ext_getElem? fun i => ?_
    rw [List.getElem?_map, List.getElem?_mapIdx, List.getElem?_mapIdx, List.getElem?_map]
    cases r.qubits[i]? with
    | none => rfl
    | some q => exact congrArg some (q.skipIfDisabled_noting i)
  have hsteering : (r.steering.map Steering.noting).map (fun s => s.beginRun r.strategy now) =
      (r.steering.map fun s => s.beginRun r.strategy now).map Steering.noting := by
    cases r.steering <;> rfl
  unfold begin
  rw [enabledCount_noting]
  simp only [noting, hskip, hsteering]

/-- A noting register runs as the register does, and the diary grows. -/
theorem exists_runInOrder_noting (r : Register α ω) (w : ω) (order : List Nat)
    (runs : List (Nat × Ending)) : ∃ more,
      r.noting.runInOrder ⟨w, runs⟩ order = ((r.runInOrder w order).1,
        (r.runInOrder w order).2.1.noting, ⟨(r.runInOrder w order).2.2, runs ++ more⟩) := by
  have hobstacle : r.noting.obstacle = r.obstacle := rfl
  unfold runInOrder
  rw [hobstacle]
  cases r.obstacle with
  | some fault => exact ⟨[], by rw [List.append_nil]⟩
  | none =>
    obtain ⟨more, hmore⟩ := exists_runWaves_noting (r.waves order) 0
      (r.begin (Clocked.read w).1) (Clocked.read w).2 runs
    refine ⟨more, ?_⟩
    have hread : (Clocked.read (⟨w, runs⟩ : Diary ω)) =
        ((Clocked.read w).1, ⟨(Clocked.read w).2, runs⟩) := rfl
    simp only [hread, waves_noting, begin_noting, hmore, Site.noting]
    split <;> rfl

/-- The bodies that a run in a given order runs, each with the index of its qubit and its ending. -/
def runsOf (r : Register α ω) (w : ω) (order : List Nat) : List (Nat × Ending) :=
  (r.noting.executeOrdered ⟨w, []⟩ order).2.2.runs

/-- **Keeping a diary changes nothing else.** -/
theorem executeOrdered_noting (r : Register α ω) (w : ω) (order : List Nat) :
    r.noting.executeOrdered ⟨w, []⟩ order =
      ((r.executeOrdered w order).1, (r.executeOrdered w order).2.1.noting,
        ⟨(r.executeOrdered w order).2.2, r.runsOf w order⟩) := by
  unfold runsOf executeOrdered
  rw [count_noting]
  cases orderFault r.count [] order with
  | some fault => rfl
  | none =>
    obtain ⟨more, hmore⟩ := exists_runInOrder_noting r w (completeOrder r.count order) []
    simp only [hmore]

end Register

end Superpose
