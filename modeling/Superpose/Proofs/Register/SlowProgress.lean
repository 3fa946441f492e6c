import Superpose.Proofs.Binary64.Division
import Superpose.Proofs.Register.Switching
import Superpose.Proofs.Run.Fields

/-!
# Slow progress of a run that is done

A steering takes the share of the qubits that have completed for the progress of a run, and it
counts all qubits of the register, those that are switched off as well. So a run in which everything
that takes part has completed is still slow to it if too few qubits take part: fewer than half of
all, or fewer than three tenths (`slowed_when_done`).
-/

namespace Superpose

/-! ## Rates -/

namespace Steering

open Binary64

/-- **The rate that is compared is the exact one**, as far as the marks of the policies go. -/
theorem Vitals.completionRate_lt_iff {v : Vitals} {b : Float} {p q k : Nat} {u : Int}
    (h : Marks b p q k u) (hdone : v.completed.toNat ≤ v.qubits) (hsize : v.qubits < 2 ^ 64) :
    v.completionRate < b ↔ q * v.completed.toNat < p * v.qubits := by
  have hqubits : (UInt64.ofNat v.qubits).toNat = v.qubits := UInt64.toNat_ofNat_of_lt' hsize
  rcases Nat.eq_zero_or_pos v.qubits with hnone | hsome
  · have hcompleted : v.completed = 0 := UInt32.toNat_inj.mp (Nat.le_zero.mp (hnone ▸ hdone))
    have hnan : v.completionRate.isNaN = true := by
      rw [completionRate, hnone, hcompleted]
      decide +kernel
    refine iff_of_false (not_lt_of_isNaN hnan) ?_
    rw [hnone]
    omega
  · have hrate := h.div_lt_iff (c := v.completed.toUInt64) (n := UInt64.ofNat v.qubits)
      v.completed.toNat_lt (by omega)
    rwa [hqubits, UInt32.toNat_toUInt64] at hrate

/-- A trigger by which a run counts as slow. -/
def Trigger.IsSlow : Trigger → Prop
  | timeout | slowProgress => True
  | failureRate | lowQuality | elevatedFailures => False

variable {ω : Type}

/-- Whether a run has lasted so long that its progress is looked at. -/
def Overdue (s : Steering ω) (now : UInt64) : Prop :=
  match s.policy with
  | .timeout => s.thresholds.timeout < elapsed s.started now
  | .aggressive => s.thresholds.timeout.toFloat * 0.5 < (elapsed s.started now).toFloat
  | .none | .failureRate | .quality => False

/-- The share of all qubits that a policy expects to have completed by then, as a fraction. -/
def Policy.share : Policy → Nat × Nat
  | .timeout => (1, 2)
  | .aggressive => (3, 10)
  | .none | .failureRate | .quality => (0, 1)

/-- A run counts as slow if it has lasted long and too small a share of the qubits has completed. -/
theorem exists_slow_trigger_iff {s : Steering ω} {now : UInt64} {completed failed : UInt32}
    {qubits : Nat} (hdone : completed.toNat ≤ qubits) (hsize : qubits < 2 ^ 64) :
    (∃ t, trigger s.policy s.thresholds s.quality
        ⟨elapsed s.started now, completed, failed, qubits⟩ = some t ∧ t.IsSlow) ↔
      s.Overdue now ∧ s.policy.share.2 * completed.toNat < s.policy.share.1 * qubits := by
  have hhalf := Vitals.completionRate_lt_iff
    (v := ⟨elapsed s.started now, completed, failed, qubits⟩) marks_half hdone hsize
  have htenths := Vitals.completionRate_lt_iff
    (v := ⟨elapsed s.started now, completed, failed, qubits⟩) marks_three_tenths hdone hsize
  rw [Overdue]
  cases s.policy with
  | none => simp [trigger]
  | timeout =>
    simp only [trigger, hhalf, Policy.share]
    split
    · next hslow => exact iff_of_true ⟨_, rfl, trivial⟩ hslow
    · next hfast => exact iff_of_false (by simp) hfast
  | failureRate =>
    simp only [trigger, Policy.share, false_and, iff_false]
    split <;> simp [Trigger.IsSlow]
  | quality =>
    simp only [trigger, Policy.share, false_and, iff_false]
    split <;> simp [Trigger.IsSlow]
  | aggressive =>
    simp only [trigger, htenths, Policy.share]
    split
    · next hslow => exact iff_of_true ⟨_, rfl, trivial⟩ hslow
    · next hfast =>
      refine iff_of_false ?_ hfast
      split <;> simp [Trigger.IsSlow]

end Steering

namespace Register

variable {α ω : Type} [Clocked ω]

/-! ## Looks -/

/-- Why a look at a register would change the strategy, if it is time to look. -/
def trigger? (r : Register α ω) (s : Steering ω) (now : UInt64) : Option Steering.Trigger :=
  Steering.trigger s.policy s.thresholds s.quality
    ⟨elapsed s.started now, r.progress.completed, r.progress.failed, r.count⟩

/-- A look that changes the strategy because the run counts as slow. -/
def Slowed (r : Register α ω) (s : Steering ω) (w : ω) : Prop :=
  (r.change w).isSome = true ∧ ∃ t, r.trigger? s (Clocked.read w).1 = some t ∧ t.IsSlow

theorem isSome_change_iff {r : Register α ω} {s : Steering ω} (hs : r.steering = some s) (w : ω) :
    (r.change w).isSome = true ↔ r.progress.executing = true ∧ s.switched = false ∧
      s.isDue (Clocked.read w).1 = true ∧ (r.trigger? s (Clocked.read w).1).isSome = true := by
  have hspent : r.spent = s.switched := by
    rw [spent, ledger, hs]
    rfl
  obtain ⟨t, hring, hother, hsupported⟩ := r.exists_plain s.current
  obtain ⟨next, hnext, -⟩ := Steering.exists_alternative_eq hring hother hsupported
    (s.advise (Clocked.read w).2 r.workload)
  rw [(looked r w).change, hspent, call, hs, Option.bind_some, Steering.call, hnext, trigger?]
  cases s.switched <;> cases r.progress.executing <;> simp

/-- **When a look counts a run as slow** and changes its strategy. -/
theorem slowed_iff {r : Register α ω} {s : Steering ω} (hs : r.steering = some s)
    (hdone : r.progress.completed.toNat ≤ r.count) (hsize : r.count < 2 ^ 64) (w : ω) :
    r.Slowed s w ↔ r.progress.executing = true ∧ s.switched = false ∧
      s.isDue (Clocked.read w).1 = true ∧ s.Overdue (Clocked.read w).1 ∧
      s.policy.share.2 * r.progress.completed.toNat < s.policy.share.1 * r.count := by
  have hslow : (∃ t, r.trigger? s (Clocked.read w).1 = some t ∧ t.IsSlow) ↔ _ :=
    Steering.exists_slow_trigger_iff hdone hsize
  rw [Slowed, isSome_change_iff hs, ← hslow]
  constructor
  · rintro ⟨⟨hon, hfresh, hdue, -⟩, hfires⟩
    exact ⟨hon, hfresh, hdue, hfires⟩
  · rintro ⟨hon, hfresh, hdue, hfires⟩
    have hsome : (r.trigger? s (Clocked.read w).1).isSome = true := by
      obtain ⟨t, ht, -⟩ := hfires
      rw [ht]
      rfl
    exact ⟨⟨hon, hfresh, hdue, hsome⟩, hfires⟩

/-! ## Who takes part -/

/-- Who takes part, by index. -/
def parts (r : Register α ω) : List Bool := r.qubits.map Qubit.enabled

/-- A run leaves it alone who takes part. -/
theorem Launch.parts_of_mem_looks {l : Launch} {r : Register α ω} {w : ω}
    {look : Register α ω × ω} (h : look ∈ l.looks r w) : look.1.parts = r.parts := by
  unfold looks at h
  split at h
  · cases h
  · refine forall_waveLooks (P := fun r' => r'.parts = r.parts)
      (fun r' w number wave hr => ?_) (fun r' w hr => ?_) _ _ _ _
      (Qubit.kept_enabled.map_begin r _) look h
    · exact (Qubit.kept_enabled.map_runJobs _ _ _).trans hr
    · rw [parts, r'.checkpoint_qubits]
      exact hr

omit [Clocked ω] in
theorem count_eq_of_parts_eq {r r' : Register α ω} (h : r'.parts = r.parts) :
    r'.count = r.count ∧ r'.enabledCount = r.enabledCount := by
  have hcount : ∀ r : Register α ω, r.count = r.parts.length := fun r => (List.length_map _).symm
  have henabled : ∀ r : Register α ω, r.enabledCount = r.parts.countP id := by
    intro r
    rw [parts, List.countP_map]
    rfl
  rw [hcount, hcount, henabled, henabled, h]
  exact ⟨rfl, rfl⟩

/-- **Slow progress of a run that is done.** Let as many qubits have completed at a look as take
part. If the look is due at a run that is on, and nothing has changed the strategy before, it
changes the strategy for slow progress just if the run has lasted too long and too small a share of
all qubits takes part: less than a half, or less than three tenths. All looks of a launch find as
many qubits, and as many that take part, as the register had that was launched. -/
theorem slowed_when_done :
    (∀ (r : Register α ω) (s : Steering ω) (w : ω), r.steering = some s → r.count < 2 ^ 64 →
      r.progress.completed.toNat = r.enabledCount →
      (r.Slowed s w ↔ r.progress.executing = true ∧ s.switched = false ∧
        s.isDue (Clocked.read w).1 = true ∧ s.Overdue (Clocked.read w).1 ∧
        s.policy.share.2 * r.enabledCount < s.policy.share.1 * r.count)) ∧
    ∀ (l : Launch) (r : Register α ω) (w : ω), ∀ look ∈ l.looks r w,
      look.1.progress.executing = true ∧ look.1.count = r.count ∧
        look.1.enabledCount = r.enabledCount := by
  refine ⟨fun r s w hs hsize hdone => ?_, fun l r w look hlook => ?_⟩
  · have hle : r.progress.completed.toNat ≤ r.count := hdone ▸ List.countP_le_length
    rw [slowed_iff hs hle hsize, hdone]
  · exact ⟨Launch.executing_of_mem_looks hlook,
      count_eq_of_parts_eq (Launch.parts_of_mem_looks hlook)⟩

section Samples

open Workbench

/-- Four qubits, only the first few of which take part, for so many milliseconds each. -/
def crew (few : Nat) (ms : UInt64) : Register Val World where
  qubits := (List.range 4).map fun i =>
    { scripted (UInt32.ofNat i) [.advance ms] with enabled := decide (i < few) }
  steering := some (.ofPolicy .timeout .firstWins fun _ _ => .firstWins)

def halfCrewLooks : List (Register Val World × World) := Launch.execute.looks (crew 2 3000) {}

def lastLook : Register Val World × World := halfCrewLooks.get ⟨1, by decide +kernel⟩

def lastWatch : Steering World := lastLook.1.steering.get (by decide +kernel)

/-- Half of the qubits will do, although the run has lasted for too long. -/
theorem slowed_when_done_halfCrew :
    lastLook ∈ halfCrewLooks ∧ lastLook.1.steering = some lastWatch ∧
      lastLook.1.count = (crew 2 3000).count ∧ lastLook.1.count < 2 ^ 64 ∧
      lastLook.1.progress.completed.toNat = lastLook.1.enabledCount ∧
      lastWatch.thresholds.timeout < elapsed lastWatch.started (Clocked.read lastLook.2).1 ∧
      ¬ lastLook.1.Slowed lastWatch lastLook.2 := by
  have hlook : lastLook ∈ halfCrewLooks := List.get_mem _ _
  have hsteering : lastLook.1.steering = some lastWatch := (Option.some_get _).symm
  have hdone : lastLook.1.progress.completed.toNat = lastLook.1.enabledCount := by decide +kernel
  have hshare : ¬ lastWatch.policy.share.2 * lastLook.1.enabledCount <
      lastWatch.policy.share.1 * lastLook.1.count := by decide +kernel
  obtain ⟨-, hcount, -⟩ := slowed_when_done.2 .execute (crew 2 3000) {} lastLook hlook
  have hsize : lastLook.1.count < 2 ^ 64 := by decide +kernel
  refine ⟨hlook, hsteering, hcount, hsize, hdone, by decide +kernel, fun hslowed => ?_⟩
  exact hshare ((slowed_when_done.1 _ _ _ hsteering hsize hdone).mp hslowed).2.2.2.2

def loneLook : Register Val World × World :=
  (Launch.execute.looks (crew 1 6000) {}).get ⟨0, by decide +kernel⟩

def loneWatch : Steering World := loneLook.1.steering.get (by decide +kernel)

/-- **A run can be slow although it is done**: all that takes part has completed, nothing has
failed, and the strategy is changed. -/
theorem slow_although_done :
    loneLook ∈ Launch.execute.looks (crew 1 6000) {} ∧ loneLook.1.steering = some loneWatch ∧
      loneWatch.policy = .timeout ∧ loneLook.1.enabledCount = 1 ∧
      loneLook.1.progress.completed = 1 ∧ loneLook.1.progress.failed = 0 ∧
      loneLook.1.trigger? loneWatch (Clocked.read loneLook.2).1 = some .timeout ∧
      loneLook.1.change loneLook.2 = some .lastWins :=
  ⟨List.get_mem _ _, (Option.some_get _).symm, by decide +kernel, by decide +kernel,
    by decide +kernel, by decide +kernel, by decide +kernel, by decide +kernel⟩

end Samples

end Register

end Superpose
