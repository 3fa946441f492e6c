import Superpose.Proofs.Register.Equipment
import Superpose.Workbench.Script

/-!
# The history of scores over many operations

The history of scores is the only thing that a strategy keeps from one run to the next. It has room
for a few numbers, so what it holds is described by a ghost beside the register: the list of all
that was recorded since the history was begun anew (`remembered`), from which each slot is read as
the latest scoring that reaches it. An operation does to history and ghost alike
(`Operation.recalls_perform`), hence so do all operations one after the other
(`recalls_performAll`). `Operation.trend_perform` says which operations change what is recorded.
-/

namespace Superpose.Register

open Choice

variable {α ω : Type} [Inhabited α] [BEq α] [Clocked ω]

/-! ## The ghost -/

/-- What has been recorded since the history was begun anew, the latest scoring first, after an
operation. -/
def Operation.remember (op : Operation α ω) (r : Register α ω) (w : ω) (past : List Scoring) :
    List Scoring :=
  if op.renewsTrend r then [] else (op.scoring? r w).toList ++ past

/-- What has been recorded since the history was begun anew, after operations one after the
other. -/
def remembered : List (Operation α ω) → Register α ω → ω → List Scoring → List Scoring
  | [], _, _, past => past
  | op :: ops, r, w, past =>
    remembered ops (op.perform r w).2.1 (op.perform r w).2.2 (op.remember r w past)

theorem Operation.remember_of_renews {op : Operation α ω} {r : Register α ω}
    (h : op.renewsTrend r = true) (w : ω) (past : List Scoring) : op.remember r w past = [] :=
  if_pos h

theorem Operation.remember_of_keeps {op : Operation α ω} {r : Register α ω} {w : ω}
    {s? : Option Scoring} (h : op.renewsTrend r = false) (hs : op.scoring? r w = s?)
    (past : List Scoring) : op.remember r w past = s?.toList ++ past := by
  rw [remember, h, hs]
  rfl

/-- **A step of the ghost.** -/
theorem Operation.recalls_perform {r : Register α ω} (hr : r.Fitted) {past : List Scoring}
    (h : ∀ t ∈ r.toolkit.trend, t.Recalls past) (op : Operation α ω) (w : ω) :
    ∀ t ∈ (op.perform r w).2.1.toolkit.trend, t.Recalls (op.remember r w past) := by
  have hstep := (op.refitted_perform r w).trend
  generalize (op.perform r w).2.1.toolkit.trend = trend at hstep
  intro t ht
  cases hstep with
  | kept hrenews hscoring =>
    rw [remember_of_keeps hrenews hscoring]
    exact h t ht
  | weighed hrenews hscoring ht₀ =>
    cases ht
    rw [remember_of_keeps hrenews hscoring]
    exact (h _ ht₀).withWeight _
  | begun hrenews =>
    cases ht
    rw [remember_of_renews hrenews]
    exact Trend.recalls_ofWindow _ _
  | cleared hrenews =>
    obtain ⟨t₀, ht₀, rfl⟩ := Option.map_eq_some_iff.mp ht
    rw [remember_of_renews hrenews]
    exact (hr.trend t₀ ht₀).recalls_clear
  | recorded hrenews hscoring =>
    obtain ⟨t₀, ht₀, rfl⟩ := Option.map_eq_some_iff.mp ht
    rw [remember_of_keeps hrenews hscoring]
    exact (h t₀ ht₀).record _

/-- **The ghost of a whole course.** -/
theorem recalls_performAll : ∀ {ops : List (Operation α ω)} {r : Register α ω} {w : ω}
    {past : List Scoring}, r.Fitted → (∀ t ∈ r.toolkit.trend, t.Recalls past) →
      (performAll ops r w).1.Fitted ∧
        ∀ t ∈ (performAll ops r w).1.toolkit.trend, t.Recalls (remembered ops r w past) := by
  intro ops
  induction ops with
  | nil => exact fun hr h => ⟨hr, h⟩
  | cons op ops ih => exact fun hr h => ih (op.fitted_perform hr _) (op.recalls_perform hr h _)

/-- What a new register has, after any operations, for a history. -/
theorem IsNew.recalled {r : Register α ω} (hnew : IsNew r) (w : ω) (ops : List (Operation α ω))
    {t : Trend} (ht : t ∈ (performAll ops r w).1.toolkit.trend) :
    t.Sound ∧ t.Recalls (remembered ops r w []) := by
  have hnone : ∀ t ∈ r.toolkit.trend, t.Recalls [] := by
    obtain ⟨ids, strategy, waitsForAll, dispatcher, rfl⟩ := hnew.eq
    exact nofun
  obtain ⟨hfitted, hrecalls⟩ := recalls_performAll hnew.fitted hnone
  exact ⟨hfitted.trend t ht, hrecalls t ht⟩

/-! ## What changes a history -/

omit [Inhabited α] [BEq α] [Clocked ω] in
/-- The operations that forget what was recorded, or replace a history by one of another window. -/
theorem Operation.of_renewsTrend {op : Operation α ω} {r : Register α ω} {t : Trend}
    (ht : r.toolkit.trend = some t) (h : op.renewsTrend r = true) :
    op = .set .clearTrend ∨
      ∃ window weight, op = .set (.setTrend window weight) ∧ window ≠ t.window := by
  unfold renewsTrend at h
  split at h
  · exact Or.inl rfl
  · rename_i window weight
    refine Or.inr ⟨window, weight, rfl, fun hwindow => ?_⟩
    rw [ht, hwindow] at h
    simp at h
  · cases h

/-- What is recorded comes of a collapse under the temporal strategy that makes a new value. -/
theorem Operation.of_scoring? {op : Operation α ω} {r : Register α ω} {w : ω} {s : Scoring}
    (h : op.scoring? r w = some s) :
    op = .collapse ∧ r.collapsed = false ∧ r.strategy = .temporal ∧
      ∃ value, (r.collapse w).1 = .ok value := by
  unfold scoring? at h
  split at h
  · unfold Register.scoring? at h
    split at h
    · rename_i hopen hstrategy hvalue _
      exact ⟨rfl, hopen, hstrategy, _, hvalue⟩
    · cases h
  · cases h

/-- **What changes what is recorded**: to forget it, to install a history of another window, and a
collapse under the temporal strategy that makes a new value. Any other operation changes the weight
at most. -/
theorem Operation.trend_perform (op : Operation α ω) {r : Register α ω} (w : ω) {t : Trend}
    (ht : r.toolkit.trend = some t) :
    (∃ weight, (op.perform r w).2.1.toolkit.trend = some { t with weight }) ∨
      op = .set .clearTrend ∨
      (∃ window weight, op = .set (.setTrend window weight) ∧ window ≠ t.window) ∨
      (op = .collapse ∧ r.collapsed = false ∧ r.strategy = .temporal ∧
        ∃ value, (r.collapse w).1 = .ok value) := by
  have hstep := (op.refitted_perform r w).trend
  generalize (op.perform r w).2.1.toolkit.trend = trend at hstep
  cases hstep with
  | kept => exact Or.inl ⟨t.weight, ht⟩
  | weighed _ _ ht₀ =>
    cases ht.symm.trans ht₀
    exact Or.inl ⟨_, rfl⟩
  | begun hrenews | cleared hrenews =>
    rcases of_renewsTrend ht hrenews with hclear | hset
    · exact Or.inr (Or.inl hclear)
    · exact Or.inr (Or.inr (Or.inl hset))
  | recorded _ hscoring => exact Or.inr (Or.inr (Or.inr (of_scoring? hscoring)))

/-- **The history of scores over many operations.** Whatever is done to a new register, a history
that it then has fits its window, which is positive, and its weight is a percentage. Each slot holds
the score and the time of the latest scoring that reaches it among those recorded since the history
was begun anew, or 0 and 0, and as many slots count as recorded as one of these scorings has filled.
Only a collapse under the temporal strategy that makes a new value records, and only to forget what
was recorded, or to install a history of another window, begins the history anew: what is recorded
stays the same in any other operation. -/
theorem history_of_scores :
    (∀ (r : Register α ω) (w : ω) (ops : List (Operation α ω)), IsNew r →
      ∀ t ∈ (performAll ops r w).1.toolkit.trend,
        0 < t.window ∧ t.scores.length = t.window ∧ t.times.length = t.window ∧
        t.recorded ≤ t.window ∧ 0 ≤ t.weight ∧ t.weight ≤ 100 ∧
        (∀ i < t.window,
          t.scores[i]? = some (Scoring.latest i (remembered ops r w [])).1 ∧
          t.times[i]? = some (Scoring.latest i (remembered ops r w [])).2) ∧
        t.recorded = Scoring.reach t.window (remembered ops r w [])) ∧
    ∀ (op : Operation α ω) (r : Register α ω) (w : ω) (t : Trend), r.toolkit.trend = some t →
      (∃ weight, (op.perform r w).2.1.toolkit.trend = some { t with weight }) ∨
        op = .set .clearTrend ∨
        (∃ window weight, op = .set (.setTrend window weight) ∧ window ≠ t.window) ∨
        (op = .collapse ∧ r.collapsed = false ∧ r.strategy = .temporal ∧
          ∃ value, (r.collapse w).1 = .ok value) := by
  refine ⟨fun r w ops hnew t ht => ?_, fun op r w t ht => op.trend_perform w ht⟩
  obtain ⟨hsound, hholds⟩ := hnew.recalled w ops ht
  exact ⟨hsound.fit.window_pos, hsound.scores, hsound.times, hsound.recorded,
    hsound.fit.weight_nonneg, hsound.fit.weight_le,
    fun i hi => ⟨hholds.score i hi, hholds.time i hi⟩, hholds.recorded⟩

section Sample

open Workbench

/-- Two qubits that have nothing to do yet. -/
def workplace : Register Val World := { qubits := [.blank 0, .blank 1] }

/-- Two runs, each with a collapse under the temporal strategy; in the second run the second qubit
is switched off. -/
def twoScorings : List (Operation Val World) :=
  [.set (.setEvaluator fun v => Int32.ofInt v.magnitude), .set (.setTrend 3 50),
    .set (.setStrategy .temporal),
    .set (.initQubit 0 (Script.body ⟨[.add 1], 0, 0⟩) (.ofInt 1) 0),
    .set (.initQubit 1 (Script.body ⟨[.add 6], 0, 0⟩) (.ofInt 1) 0),
    .launch .execute, .outside fun w => { w with clock := 10 }, .collapse,
    .set (.setEnabled 1 false),
    .launch .execute, .outside fun w => { w with clock := 20 }, .collapse]

/-- The second slot still holds what the first collapse has recorded there, and a reset leaves it
alone. -/
theorem history_of_scores_twoScorings :
    let r := (performAll twoScorings workplace {}).1
    IsNew workplace ∧ r.toolkit.trend = some ⟨[3, 7, 0], [20, 10, 0], 2, 3, 50⟩ ∧
      remembered twoScorings workplace {} [] = [⟨[3], 20⟩, ⟨[2, 7], 10⟩] ∧
      ([3, 7, 0] : List Int32)[1]? =
        some (Choice.Scoring.latest 1 (remembered twoScorings workplace {} [])).1 ∧
      ∃ weight, (Operation.reset.perform r ({} : World)).2.1.toolkit.trend =
        some ⟨[3, 7, 0], [20, 10, 0], 2, 3, weight⟩ := by
  intro r
  have hnew : IsNew workplace := ⟨1, 2, {}, rfl⟩
  have htrend : r.toolkit.trend = some ⟨[3, 7, 0], [20, 10, 0], 2, 3, 50⟩ := rfl
  obtain ⟨-, -, -, -, -, -, hslots, -⟩ :=
    history_of_scores.1 workplace {} twoScorings hnew _ htrend
  refine ⟨hnew, htrend, rfl, (hslots 1 (by decide)).1, ?_⟩
  rcases history_of_scores.2 .reset r {} _ htrend with hkept | h | ⟨_, _, h, -⟩ | ⟨h, -⟩
  · exact hkept
  all_goals cases h

end Sample

end Superpose.Register
