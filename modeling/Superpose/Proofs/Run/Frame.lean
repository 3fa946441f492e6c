import Superpose.Proofs.Steering.Check
import Superpose.Register.Run

/-!
# What a run leaves alone

A run changes the qubits, the counters, the steering and perhaps the strategy. `SameSetup` says that
two registers agree in all the rest, and `sameSetup_runInOrder` that a run keeps it so. It is one
instance of `runInOrder_preserves`: what waves, checkpoints and the end keep, the whole run keeps.
`checkpoint_cases` is the inversion of a checkpoint.
-/

namespace Superpose.Register

variable {α ω : Type}

/-! ## The same setup -/

/-- Two registers that agree in everything that a run leaves alone. -/
structure SameSetup (r r' : Register α ω) : Prop where
  toolkit : r'.toolkit = r.toolkit
  output : r'.output = r.output
  collapsed : r'.collapsed = r.collapsed
  waitsForAll : r'.waitsForAll = r.waitsForAll
  dataSize : r'.dataSize = r.dataSize
  collapseTime : r'.collapseTime = r.collapseTime
  dispatcher : r'.dispatcher = r.dispatcher

namespace SameSetup

theorem refl (r : Register α ω) : SameSetup r r := by
  constructor <;> rfl

theorem trans {r r' r'' : Register α ω} (h : SameSetup r r') (h' : SameSetup r' r'') :
    SameSetup r r'' where
  toolkit := h'.toolkit.trans h.toolkit
  output := h'.output.trans h.output
  collapsed := h'.collapsed.trans h.collapsed
  waitsForAll := h'.waitsForAll.trans h.waitsForAll
  dataSize := h'.dataSize.trans h.dataSize
  collapseTime := h'.collapseTime.trans h.collapseTime
  dispatcher := h'.dispatcher.trans h.dispatcher

end SameSetup

/-! ## Checkpoints -/

variable [Clocked ω]

/-- **What a checkpoint can do**: nothing but change the steering, or change the strategy to one
that the register supports as well. The world is at most looked at for the time. -/
theorem checkpoint_cases (r : Register α ω) (w : ω) :
    (∃ steering, (r.checkpoint w).2.1 = { r with steering } ∧ (r.checkpoint w).1 = false) ∨
      ∃ steering next, (r.checkpoint w).2.1 = { r with steering, strategy := next } ∧
        (r.checkpoint w).1 = true ∧ r.supports next = true := by
  unfold checkpoint
  cases hs : r.steering with
  | none => exact Or.inl ⟨r.steering, rfl, rfl⟩
  | some s =>
    simp only
    split
    · rcases s.check_cases (Clocked.read w).1 r.progress.completed r.progress.failed r.count
        r.supports (s.advise (Clocked.read w).2 r.workload) with
        ⟨-, hc⟩ | ⟨-, -, hc⟩ | ⟨next, -, hd, hc⟩
      · simp only [steer, hc]
        exact Or.inl ⟨_, rfl, trivial⟩
      · simp only [steer, hc]
        exact Or.inl ⟨_, rfl, trivial⟩
      · simp only [steer, hc]
        obtain ⟨-, -, ha⟩ := Steering.decision_eq_some hd
        exact Or.inr ⟨_, next, rfl, trivial, (Steering.alternative_eq_some ha).2⟩
    · exact Or.inl ⟨r.steering, rfl, rfl⟩

/-- A checkpoint reads the clock once or not at all. -/
theorem checkpoint_world (r : Register α ω) (w : ω) :
    (r.checkpoint w).2.2 = w ∨ (r.checkpoint w).2.2 = (Clocked.read w).2 := by
  unfold checkpoint
  cases r.steering with
  | none => exact Or.inl rfl
  | some s =>
    simp only
    split
    · exact Or.inr rfl
    · exact Or.inl rfl

/-- A register without a policy is not looked at. -/
theorem checkpoint_of_unwatched {r : Register α ω} (h : ∀ s ∈ r.steering, s.policy = .none)
    (w : ω) : r.checkpoint w = (false, r, w) := by
  unfold checkpoint
  cases hs : r.steering with
  | none => rfl
  | some s => simp [h s hs]

@[simp] theorem checkpoint_qubits (r : Register α ω) (w : ω) :
    (r.checkpoint w).2.1.qubits = r.qubits := by
  rcases r.checkpoint_cases w with ⟨st, h, -⟩ | ⟨st, next, h, -, -⟩ <;> rw [h]

@[simp] theorem checkpoint_progress (r : Register α ω) (w : ω) :
    (r.checkpoint w).2.1.progress = r.progress := by
  rcases r.checkpoint_cases w with ⟨st, h, -⟩ | ⟨st, next, h, -, -⟩ <;> rw [h]

@[simp] theorem checkpoint_dispatcher (r : Register α ω) (w : ω) :
    (r.checkpoint w).2.1.dispatcher = r.dispatcher := by
  rcases r.checkpoint_cases w with ⟨st, h, -⟩ | ⟨st, next, h, -, -⟩ <;> rw [h]

/-! ## Whole runs -/

/-- What waves and checkpoints keep, a sequence of waves keeps. -/
theorem runWaves_preserves {P : Register α ω → Prop}
    (hwave : ∀ r w number wave, P r → P (r.runWave w number wave).register)
    (hcheck : ∀ r w, P r → P (r.checkpoint w).2.1) :
    ∀ (waves : List (List Nat)) (number : Nat) (r : Register α ω) (w : ω), P r →
      P (runWaves number waves r w).register := by
  intro waves
  induction waves with
  | nil => intro number r w h; exact h
  | cons wave waves ih =>
    intro number r w h
    have hw := hwave r w number wave h
    rw [runWaves]
    simp only
    split
    · exact hw
    · exact ih _ _ _ (hcheck _ _ hw)

theorem sameSetup_runWave (r : Register α ω) (w : ω) (number : Nat) (wave : List Nat) :
    SameSetup r (r.runWave w number wave).register := by
  constructor <;> rfl

theorem sameSetup_checkpoint (r : Register α ω) (w : ω) :
    SameSetup r (r.checkpoint w).2.1 := by
  rcases r.checkpoint_cases w with ⟨st, h, -⟩ | ⟨st, next, h, -, -⟩
  · rw [h]
    constructor <;> rfl
  · rw [h]
    constructor <;> rfl

omit [Clocked ω] in
theorem sameSetup_finish (r : Register α ω) (time : UInt64) : SameSetup r (r.finish time) := by
  constructor <;> rfl

/-- What waves, checkpoints and the end of a run keep, a run keeps. -/
theorem runInOrder_preserves {P : Register α ω → Prop}
    (hwave : ∀ r w number wave, P r → P (r.runWave w number wave).register)
    (hcheck : ∀ r w, P r → P (r.checkpoint w).2.1) (hfinish : ∀ r time, P r → P (r.finish time))
    {r : Register α ω} (hready : r.obstacle = none) (w : ω) (order : List Nat)
    (h : P (r.begin (Clocked.read w).1)) : P (r.runInOrder w order).2.1 := by
  have hwaves := runWaves_preserves hwave hcheck (r.waves order) 0 _ (Clocked.read w).2 h
  rw [runInOrder, hready]
  simp only
  split
  · exact hwaves
  · exact hfinish _ _ hwaves

/-- **The frame of a run**: only qubits, counters, strategy, steering and the time that it took
change after its beginning. -/
theorem sameSetup_runInOrder {r : Register α ω} (hready : r.obstacle = none) (w : ω)
    (order : List Nat) :
    SameSetup (r.begin (Clocked.read w).1) (r.runInOrder w order).2.1 :=
  runInOrder_preserves (P := SameSetup (r.begin (Clocked.read w).1))
    (fun r' w' number wave h => h.trans (sameSetup_runWave r' w' number wave))
    (fun r' w' h => h.trans (sameSetup_checkpoint r' w'))
    (fun r' time h => h.trans (sameSetup_finish r' time)) hready w order (SameSetup.refl _)

/-- A run that nothing watches keeps its strategy. -/
theorem strategy_runInOrder_of_unwatched {r : Register α ω} (hready : r.obstacle = none)
    (h : ∀ s ∈ r.steering, s.policy = .none) (w : ω) (order : List Nat) :
    (r.runInOrder w order).2.1.strategy = r.strategy := by
  refine (runInOrder_preserves
    (P := fun r' => r'.strategy = r.strategy ∧ ∀ s ∈ r'.steering, s.policy = .none)
    (fun _ _ _ _ h => h) (fun r' w' h => ?_) (fun _ _ h => h) hready w order ⟨rfl, ?_⟩).1
  · rw [checkpoint_of_unwatched h.2]
    exact h
  · intro s hs
    obtain ⟨s₀, hs₀, rfl⟩ := Option.map_eq_some_iff.mp hs
    exact h s₀ hs₀

end Superpose.Register
