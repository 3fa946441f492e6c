import Superpose.Proofs.Register.History
import Superpose.Proofs.Run.Looks
import Superpose.Proofs.Workbench.Script

/-!
# One change of strategy

What a steering does to the strategy of its register over a whole history. The ledger of the
steering is changed by looks, which runs and checkpoints bring about, and otherwise only by the two
settings that refill it (`Operation.watched_ledger`). So the changes between two refills are at most
one, and that one is the first that the figures call for. A reset of the steering goes back to the
strategy that the register had when the steering was installed.
-/

namespace Superpose.Register

open Steering (Ledger)

variable {α ω : Type}

/-- Whether an operation puts the register under a steering. -/
def Operation.Installs : Operation α ω → Prop
  | .set (.installSteering ..) => True
  | _ => False

theorem exists_resetSteering_eq {r : Register α ω} {l : Ledger} (h : r.ledger = some l) :
    ∃ r', r.resetSteering = .ok r' ∧ r'.ledger = some (.fresh l.initial) ∧
      r'.strategy = l.initial := by
  obtain ⟨s, hs, rfl⟩ := Option.map_eq_some_iff.mp h
  rw [resetSteering, hs]
  exact ⟨_, rfl, rfl, rfl⟩

variable [Clocked ω]

/-! ## The looks of a history -/

/-- The looks of a launch; one that is refused has none. -/
def Launch.looks (l : Launch) (r : Register α ω) (w : ω) : List (Register α ω × ω) :=
  match (l.start r w).1 with
  | .refused _ => []
  | _ => r.looksOf w (completeOrder r.count l.order)

def Operation.looks (op : Operation α ω) (r : Register α ω) (w : ω) : List (Register α ω × ω) :=
  match op with
  | .launch l => l.looks r w
  | .checkpoint => [(r, w)]
  | _ => []

/-- What looks alone change in a run, looks alone change in a launch. -/
theorem Launch.watched_start {β : Type} {f : Register α ω → β}
    (hrun : ∀ {r : Register α ω}, r.obstacle = none → ∀ w order,
      Watched f (f r) (r.looksOf w order) (f (r.runInOrder w order).2.1))
    (l : Launch) (r : Register α ω) (w : ω) :
    Watched f (f r) (l.looks r w) (f (l.start r w).2.1) := by
  unfold looks
  split
  · rename_i fault hrefused
    have hlaunched := l.launched_start r w
    generalize l.start r w = x at hrefused hlaunched ⊢
    cases hlaunched with
    | refused => exact .still _
    | ran _ _ haccepted => exact absurd hrefused (haccepted fault)
  · rename_i haccepted
    obtain ⟨hready, horder, hend⟩ := Launch.of_accepted haccepted
    rw [hend, executeOrdered_of_isOrder horder]
    exact hrun hready w _

variable [Inhabited α] [BEq α]

/-- The looks of operations that are done one after the other. -/
def looksAll : List (Operation α ω) → Register α ω → ω → List (Register α ω × ω)
  | [], _, _ => []
  | op :: ops, r, w => op.looks r w ++ looksAll ops (op.perform r w).2.1 (op.perform r w).2.2

/-- **The ledger is changed by looks alone**, unless it is refilled. -/
theorem Operation.watched_ledger {op : Operation α ω} (hrefills : ¬ op.Refills)
    (r : Register α ω) (w : ω) :
    Watched ledger r.ledger (op.looks r w) (op.perform r w).2.1.ledger := by
  have heffect := op.effect_perform r w
  cases op with
  | launch l => exact l.watched_start watched_ledger_runInOrder r w
  | checkpoint => exact .look r w (.still _)
  | set | setData | collapse | reset | outside =>
    generalize (perform _ r w).2.1 = r' at heffect ⊢
    cases heffect with
    | idle | qubit | collapsed | reset => exact .still _
    | equipment _ _ _ _ _ _ _ hsteering =>
      rw [ledger, ledger, hsteering hrefills]
      exact .still _
    | ran _ hstarts => exact hstarts.elim
    | checked hchecks => cases hchecks

/-- The strategy is changed by looks alone, unless it is set. -/
theorem Operation.watched_strategy {op : Operation α ω} (hset : ∀ s, op ≠ .set s)
    (r : Register α ω) (w : ω) :
    Watched strategy r.strategy (op.looks r w) (op.perform r w).2.1.strategy := by
  have heffect := op.effect_perform r w
  cases op with
  | set s => exact absurd rfl (hset s)
  | launch l => exact l.watched_start watched_strategy_runInOrder r w
  | checkpoint => exact .look r w (.still _)
  | setData | collapse | reset | outside =>
    generalize (perform _ r w).2.1 = r' at heffect ⊢
    cases heffect with
    | idle | qubit | collapsed | reset => exact .still _
    | equipment hsets =>
      obtain ⟨s, hs⟩ := hsets
      exact absurd hs (hset s)
    | ran _ hstarts => exact hstarts.elim
    | checked hchecks => cases hchecks

/-- **Over a whole history the ledger is changed by looks alone**, as long as it is not refilled. -/
theorem watched_performAll : ∀ {ops : List (Operation α ω)}, (∀ op ∈ ops, ¬ op.Refills) →
    ∀ (r : Register α ω) (w : ω),
      Watched ledger r.ledger (looksAll ops r w) (performAll ops r w).1.ledger := by
  intro ops
  induction ops with
  | nil => intro _ r w; exact .still _
  | cons op ops ih =>
    intro hops r w
    rw [List.forall_mem_cons] at hops
    exact (op.watched_ledger hops.1 r w).append (ih hops.2 _ _)

/-! ## Refills -/

omit [Clocked ω] [Inhabited α] [BEq α] in
theorem Operation.refills_cases {op : Operation α ω} (h : op.Refills) :
    (∃ policy advise, op = .set (.installSteering policy advise)) ∨ op = .set .resetSteering := by
  cases op with
  | set s =>
    cases s with
    | installSteering policy advise => exact Or.inl ⟨policy, advise, rfl⟩
    | resetSteering => exact Or.inr rfl
    | _ => exact h.elim
  | _ => exact h.elim

theorem Operation.ledger_perform_resetSteering (r : Register α ω) (w : ω) :
    ((Operation.set .resetSteering).perform r w).2.1.ledger =
      r.ledger.map fun l => .fresh l.initial := by
  simp only [perform, Setting.apply]
  cases hl : r.ledger with
  | none =>
    rw [resetSteering, Option.map_eq_none_iff.mp hl]
    exact hl
  | some l =>
    obtain ⟨r', hr', hfresh, -⟩ := exists_resetSteering_eq hl
    rw [hr', Option.map_some]
    exact hfresh

theorem Reachable.balanced {r : Register α ω} (h : Reachable r) : ∀ l ∈ r.ledger, l.Balanced := by
  induction h with
  | new hnew =>
    obtain ⟨ids, strategy, waitsForAll, dispatcher, rfl⟩ := hnew.eq
    exact nofun
  | @perform r _ op w ih =>
    by_cases hrefills : op.Refills
    · intro l hl
      rcases Operation.refills_cases hrefills with ⟨policy, advise, rfl⟩ | rfl
      · cases hl
        exact Ledger.balanced_fresh r.strategy
      · rw [Operation.ledger_perform_resetSteering] at hl
        obtain ⟨l₀, -, rfl⟩ := Option.map_eq_some_iff.mp hl
        exact Ledger.balanced_fresh l₀.initial
    · exact (op.watched_ledger hrefills r w).spends.balanced ih

/-- The strategy to go back to stays until a steering is installed. -/
theorem Operation.initial_perform {op : Operation α ω} (hinstalls : ¬ op.Installs)
    (r : Register α ω) (w : ω) :
    (op.perform r w).2.1.ledger.map Ledger.initial = r.ledger.map Ledger.initial := by
  by_cases hrefills : op.Refills
  · rcases refills_cases hrefills with ⟨policy, advise, rfl⟩ | rfl
    · exact absurd trivial hinstalls
    · rw [ledger_perform_resetSteering, Option.map_map]
      rfl
  · exact (op.watched_ledger hrefills r w).spends.map_initial

theorem resetSteering_performAll (r : Register α ω) (policy : Steering.Policy)
    (advise : ω → Workload → Strategy) (w : ω) {ops : List (Operation α ω)}
    (hops : ∀ op ∈ ops, ¬ op.Installs) :
    ∃ r', (performAll ops (r.installSteering policy advise) w).1.resetSteering = .ok r' ∧
      r'.strategy = r.strategy ∧ r'.spent = false := by
  have hinitial : (performAll ops (r.installSteering policy advise) w).1.ledger.map
      Ledger.initial = some r.strategy :=
    performAll_preserves (P := fun op _ _ => ¬ op.Installs)
      (Q := fun now => now.ledger.map Ledger.initial = some r.strategy)
      (fun op now w hop h => (op.initial_perform hop now w).trans h)
      (throughout_of_forall hops _ w) rfl
  obtain ⟨l, hl, hstrategy⟩ := Option.map_eq_some_iff.mp hinitial
  obtain ⟨r', hr', hfresh, hback⟩ := exists_resetSteering_eq hl
  refine ⟨r', hr', hback.trans hstrategy, ?_⟩
  rw [spent, hfresh]
  rfl

/-- **One change of strategy.** In a register that can be reached, a steering has changed the
strategy at most once, and notes it exactly if it counts it. Over any operations that do not refill
its ledger it changes the strategy at most once: to the first that the figures call for at a look,
if it had changed nothing before. Nothing else but a setting changes the strategy. And whatever
happens after a steering was installed, unless another is, a reset of it goes back to the strategy
of that time and gives it the change back. -/
theorem single_switch :
    (∀ r : Register α ω, Reachable r → ∀ s, r.steering = some s →
      s.switches ≤ 1 ∧ (s.switched = true ↔ s.switches = 1)) ∧
    (∀ (r : Register α ω) (w : ω) (ops : List (Operation α ω)), (∀ op ∈ ops, ¬ op.Refills) →
      (changes (looksAll ops r w)).length ≤ 1 ∧
      changes (looksAll ops r w) =
        if r.spent then [] else (calls (looksAll ops r w)).take 1) ∧
    (∀ (op : Operation α ω) (r : Register α ω) (w : ω), (∀ s, op ≠ .set s) →
      (op.perform r w).2.1.strategy = (changes (op.looks r w)).getLastD r.strategy) ∧
    ∀ (r : Register α ω) (policy : Steering.Policy) (advise : ω → Workload → Strategy) (w : ω)
      (ops : List (Operation α ω)), (∀ op ∈ ops, ¬ op.Installs) →
      ∃ r', (performAll ops (r.installSteering policy advise) w).1.resetSteering = .ok r' ∧
        r'.strategy = r.strategy ∧ r'.spent = false := by
  refine ⟨fun r hreachable s hs => ?_, fun r w ops hops => ?_, fun op r w hset => ?_,
    fun r policy advise w ops hops => resetSteering_performAll r policy advise w hops⟩
  · have hbalanced : s.ledger.Balanced :=
      hreachable.balanced _ (Option.map_eq_some_iff.mpr ⟨s, hs, rfl⟩)
    exact ⟨hbalanced.switches_le_one, hbalanced.switched_iff⟩
  · have hchanges := (watched_performAll hops r w).changes_eq
    refine ⟨?_, hchanges⟩
    rw [hchanges]
    split
    · exact Nat.zero_le 1
    · exact List.length_take_le 1 _
  · exact (op.watched_strategy hset r w).strategy_eq

section Hurried

open Workbench

/-- Two qubits that take their time, under a steering that watches the quality. -/
def hurried : Register Val World :=
  ({ qubits := [scripted 0 [.advance 200], scripted 1 [.advance 200]] } :
    Register Val World).installSteering .quality fun _ _ => .lastWins

/-- Two runs of poor quality. -/
def poorRuns : List (Operation Val World) :=
  [.set (.reportQuality 0.2), .launch .execute, .reset, .launch .execute]

/-- Each run calls for changes, but only the first call is answered, until the steering is reset. -/
theorem single_switch_hurried :
    let before := performAll (poorRuns ++ [.set .resetSteering]) hurried {}
    calls (looksAll poorRuns hurried {}) = [.lastWins, .vote, .vote, .vote] ∧
      changes (looksAll poorRuns hurried {}) = [.lastWins] ∧
      before.1.strategy = .firstWins ∧
      changes (looksAll poorRuns before.1 before.2) = [.lastWins] := by
  have hops : ∀ op ∈ poorRuns, ¬ op.Refills := by
    simp [poorRuns, Operation.Refills]
  refine ⟨by decide +kernel, ?_, by decide +kernel, ?_⟩
  · rw [(single_switch.2.1 hurried {} poorRuns hops).2]
    decide +kernel
  · rw [(single_switch.2.1 _ _ poorRuns hops).2]
    decide +kernel

end Hurried

end Superpose.Register
