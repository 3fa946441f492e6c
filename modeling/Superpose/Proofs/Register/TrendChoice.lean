import Superpose.Proofs.Choice.Blend
import Superpose.Proofs.Register.TrendHistory

/-!
# Temporal choices from the history of a register

Whatever is done to a new register, the history that it then has fits its window, and its weight is
a percentage. So blending is exact on it, a place counts as recorded just where it holds a score,
and nothing is blended where nothing has been recorded. A temporal choice looks at the history as it
was before the choice, although the same step overwrites it.
-/

namespace Superpose.Register

open Choice

variable {α ω : Type} [Inhabited α] [BEq α] [Clocked ω]

/-- **Temporal choices.** In a history that a register can have, a score is not blended at a place
that does not count as recorded. At any other place it is, in words none of which overflows, the
quotient by 100, truncated toward zero, of a hundred times the score and of its change since the
last record times the weight; it rises with the score. Among any results the first one whose score
blends to most is chosen, with the history as it was before, and then the scores are recorded.
Without a weight, or before anything is recorded, the choice is the best result. -/
theorem blended_choice {r : Register α ω} (hnew : IsNew r) (w : ω) (ops : List (Operation α ω))
    {t : Trend} (ht : t ∈ (performAll ops r w).1.toolkit.trend) :
    IsPercentage t.weight ∧
      (∀ place current,
        (t.recorded ≤ place → (t.blend place current).toInt = current.toInt) ∧
        (place < t.recorded → ∃ past, t.scores[place]? = some past ∧
          FaithfulBlend t.weight past current ∧
          (t.blend place current).toInt =
            (100 * current.toInt + t.weight.toInt * (current.toInt - past.toInt)).tdiv 100) ∧
        ∀ greater, current ≤ greater → t.blend place current ≤ t.blend place greater) ∧
      ∀ (score : α → Int32) (results : List α), results ≠ [] →
        (∀ place s, Foremost (fun place s => (t.blend place s).toInt) (results.map score) place s ↔
          place = t.choose (results.map score) ∧ (results.map score)[place]? = some s) ∧
        (∀ (output : α) (tools : Toolkit α) (now : UInt64), tools.evaluator = some score →
          tools.trend = some t →
            let reduced := reduce .temporal results output tools now
            reduced.verdict = .ok (some (t.choose (results.map score))) ∧
              reduced.trend = some (t.record (results.map score) now)) ∧
        (t.weight = 0 ∨ remembered ops r w [] = [] →
          t.choose (results.map score) = best score results) := by
  obtain ⟨hsound, hrecalls⟩ := hnew.recalled w ops ht
  have hweight := hsound.fit.isPercentage
  have hunrecorded : ∀ place current, t.recorded ≤ place →
      (t.blend place current).toInt = current.toInt := by
    intro place current hplace
    rw [t.blend_eq_blended, Trend.past_of_recorded_le hplace]
    exact Int32.toInt_toInt64 current
  refine ⟨hweight, fun place current => ⟨hunrecorded place current, fun hplace => ?_,
    fun greater hle => ?_⟩, fun score results hne => ⟨fun place s => ?_,
    fun output tools now hscore htrend => ?_, fun hplain => ?_⟩⟩
  · obtain ⟨past, hscore, hpast⟩ := hsound.exists_past hplace
    have hfaithful := faithfulBlend hweight past current
    rw [t.blend_eq_blended, hpast]
    exact ⟨past, hscore, hfaithful, hfaithful.quotient⟩
  · rw [t.blend_eq_blended, t.blend_eq_blended]
    exact blended_le_blended hweight _ hle
  · exact t.foremost_iff_choose (mt List.map_eq_nil_iff.mp hne)
  · have hsome : results.isEmpty = false := List.isEmpty_eq_false_iff.mpr hne
    simp only [reduce, ruling, hsome, hscore, htrend, Bool.false_eq_true, ↓reduceIte]
    exact ⟨trivial, trivial⟩
  · refine Trend.choose_eq_best (fun place s => ?_) score results
    rcases hplain with hzero | hnothing
    · rw [t.blend_eq_blended, hzero]
      exact blended_zero _ s
    · have hrecorded : t.recorded = 0 := by
        rw [hrecalls.recorded, hnothing]
        rfl
      exact hunrecorded place s (hrecorded ▸ Nat.zero_le place)

section Sample

open Workbench

/-- The history is forgotten after both scorings. -/
def forgotten : List (Operation Val World) := twoScorings ++ [.set .clearTrend]

/-- The score of the first result has risen and that of the second has fallen, which is the best
one. The third has none to be compared with, and blends to as much as the first. Once the history is
forgotten the second result is chosen. -/
theorem blended_choice_twoScorings :
    let t : Trend := ⟨[3, 7, 0], [20, 10, 0], 2, 3, 50⟩
    let u : Trend := ⟨[0, 0, 0], [0, 0, 0], 0, 3, 50⟩
    let score : Val → Int32 := fun v => Int32.ofInt v.magnitude
    let results : List Val := [.int 5, .int 6, .int 6]
    IsNew workplace ∧ (performAll twoScorings workplace {}).1.toolkit.trend = some t ∧
      (performAll forgotten workplace {}).1.toolkit.trend = some u ∧
      (∃ past, t.scores[1]? = some past ∧ FaithfulBlend t.weight past (-2) ∧
        (t.blend 1 (-2)).toInt = (100 * (-2 : Int) + 50 * (-2 - past.toInt)).tdiv 100) ∧
      (t.blend 1 (-2)).toInt = -6 ∧ t.blend 1 (-2) ≤ t.blend 1 6 ∧
      (results.map score).mapIdx t.key = [6, 5, 6] ∧
      Foremost (fun place s => (t.blend place s).toInt) (results.map score) 0 5 ∧
      remembered forgotten workplace {} [] = [] ∧ u.choose (results.map score) = 1 := by
  intro t u score results
  have hnew : IsNew workplace := ⟨1, 2, {}, rfl⟩
  have ht : (performAll twoScorings workplace {}).1.toolkit.trend = some t := rfl
  have hu : (performAll forgotten workplace {}).1.toolkit.trend = some u := rfl
  have hnothing : remembered forgotten workplace {} [] = [] := rfl
  have hne : results ≠ [] := List.cons_ne_nil _ _
  obtain ⟨-, hblend, hchoice⟩ := blended_choice hnew {} twoScorings ht
  obtain ⟨-, hrecorded, hrises⟩ := hblend 1 (-2)
  obtain ⟨-, -, hbest⟩ := (blended_choice hnew {} forgotten hu).2.2 score results hne
  refine ⟨hnew, ht, hu, hrecorded (by decide), by decide +kernel, hrises 6 (by decide),
    by decide +kernel, ((hchoice score results hne).1 0 5).mpr ⟨by decide +kernel, rfl⟩,
    hnothing, ?_⟩
  exact (hbest (Or.inr hnothing)).trans (by decide +kernel)

end Sample

end Superpose.Register
