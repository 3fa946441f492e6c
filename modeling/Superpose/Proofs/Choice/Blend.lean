import Mathlib.Algebra.Order.Ring.Int
import Mathlib.Tactic.Ring
import Superpose.Proofs.Choice.Recall
import Superpose.Proofs.Choice.Greatest

/-!
# Blended scores

A blended score weighs a score against its change since the last record, on 64-bit words. `Carries`
follows the numbers that the words stand for and how large they can get: with a weight in percent no
word on the way is too small (`faithfulBlend`), so the blend is the truncated quotient that the
formula gives in whole numbers, and rises with the score (`blended_le_blended`). A temporal choice
takes the first score that blends to most (`Trend.foremost_iff_choose`). Where blending changes no
score this is the best one (`Trend.choose_eq_best`).
-/

namespace Superpose.Choice

/-! ## Words that are wide enough -/

/-- A word stands for a number of limited size. -/
structure Carries (word : Int64) (n : Int) (size : Nat) : Prop where
  value : word.toInt = n
  bound : n.natAbs ≤ size

namespace Carries

variable {a b : Int64} {m n : Int} {k l : Nat}

theorem ofScore (s : Int32) : Carries s.toInt64 s.toInt (2 ^ 31) :=
  ⟨Int32.toInt_toInt64 s, natAbs_toInt_le s⟩

theorem add (ha : Carries a m k) (hb : Carries b n l) (h : k + l < 2 ^ 63) :
    Carries (a + b) (m + n) (k + l) := by
  have hk := ha.bound
  have hl := hb.bound
  refine ⟨?_, by omega⟩
  rw [Int64.toInt_add, ha.value, hb.value]
  exact Int.bmod_eq_of_le (by omega) (by omega)

theorem sub (ha : Carries a m k) (hb : Carries b n l) (h : k + l < 2 ^ 63) :
    Carries (a - b) (m - n) (k + l) := by
  have hk := ha.bound
  have hl := hb.bound
  refine ⟨?_, by omega⟩
  rw [Int64.toInt_sub, ha.value, hb.value]
  exact Int.bmod_eq_of_le (by omega) (by omega)

theorem mul (ha : Carries a m k) (hb : Carries b n l) (h : k * l < 2 ^ 63) :
    Carries (a * b) (m * n) (k * l) := by
  have hsize : (m * n).natAbs ≤ k * l := by
    rw [Int.natAbs_mul]
    exact Nat.mul_le_mul ha.bound hb.bound
  refine ⟨?_, hsize⟩
  rw [Int64.toInt_mul, ha.value, hb.value]
  exact Int.bmod_eq_of_le (by omega) (by omega)

end Carries

/-! ## Blending -/

/-- A score that is blended with its change since the given past one, of which the weight is the
share in percent. -/
def blended (weight : Int32) (past : Option Int32) (current : Int32) : Int64 :=
  match past with
  | none => current.toInt64
  | some past =>
    let now := current.toInt64
    let change := now - past.toInt64
    (now * (100 - weight.toInt64) + (now + change) * weight.toInt64) / 100

/-- A weight in percent. -/
def IsPercentage (weight : Int32) : Prop := 0 ≤ weight.toInt ∧ weight.toInt ≤ 100

/-- The score for itself, weighed with what the trend leaves. -/
def level (weight current : Int32) : Int64 := current.toInt64 * (100 - weight.toInt64)

/-- The score continued by its change, weighed. -/
def drift (weight past current : Int32) : Int64 :=
  (current.toInt64 + (current.toInt64 - past.toInt64)) * weight.toInt64

theorem blended_some (weight past current : Int32) :
    blended weight (some past) current = (level weight current + drift weight past current) / 100 :=
  rfl

/-- Each word on the way to a blended score holds the number that it stands for. -/
structure FaithfulBlend (weight past current : Int32) : Prop where
  change : (current.toInt64 - past.toInt64).toInt = current.toInt - past.toInt
  continued : (current.toInt64 + (current.toInt64 - past.toInt64)).toInt =
    current.toInt + (current.toInt - past.toInt)
  rest : (100 - weight.toInt64).toInt = 100 - weight.toInt
  level : (level weight current).toInt = current.toInt * (100 - weight.toInt)
  drift : (drift weight past current).toInt =
    (current.toInt + (current.toInt - past.toInt)) * weight.toInt
  sum : (Choice.level weight current + Choice.drift weight past current).toInt =
    100 * current.toInt + weight.toInt * (current.toInt - past.toInt)
  quotient : (blended weight (some past) current).toInt =
    (100 * current.toInt + weight.toInt * (current.toInt - past.toInt)).tdiv 100

section Percentage

variable {weight : Int32} (h : IsPercentage weight)

include h

/-- **No word on the way to a blended score overflows.** -/
theorem faithfulBlend (past current : Int32) : FaithfulBlend weight past current := by
  have hhundred : Carries 100 100 100 := ⟨rfl, Nat.le_refl 100⟩
  have hweight : Carries weight.toInt64 weight.toInt 100 :=
    ⟨Int32.toInt_toInt64 weight, by have := h.1; have := h.2; omega⟩
  have hcurrent := Carries.ofScore current
  have hchange := hcurrent.sub (.ofScore past) (by decide)
  have hcontinued := hcurrent.add hchange (by decide)
  have hrest := hhundred.sub hweight (by decide)
  have hlevel := hcurrent.mul hrest (by decide)
  have hdrift := hcontinued.mul hweight (by decide)
  have hsum : (level weight current + drift weight past current).toInt =
      100 * current.toInt + weight.toInt * (current.toInt - past.toInt) := by
    rw [level, drift, (hlevel.add hdrift (by decide)).value]
    ring
  refine ⟨hchange.value, hcontinued.value, hrest.value, hlevel.value, hdrift.value, hsum, ?_⟩
  rw [blended_some, Int64.toInt_div_of_ne_right _ _ (by decide), hsum]
  rfl

/-- **A blended score rises with the score.** -/
theorem blended_le_blended (past : Option Int32) {current greater : Int32}
    (hle : current ≤ greater) : blended weight past current ≤ blended weight past greater := by
  have hscores : current.toInt ≤ greater.toInt := Int32.le_iff_toInt_le.mp hle
  rw [Int64.le_iff_toInt_le]
  cases past with
  | none => simpa only [blended, Int32.toInt_toInt64] using hscores
  | some past =>
    rw [(faithfulBlend h past current).quotient, (faithfulBlend h past greater).quotient]
    have hchanges : weight.toInt * (current.toInt - past.toInt) ≤
        weight.toInt * (greater.toInt - past.toInt) :=
      Int.mul_le_mul_of_nonneg_left (by omega) h.1
    exact Int.tdiv_le_tdiv (by decide) (by omega)

end Percentage

/-- Without a share of the trend a score stays as it is. -/
theorem blended_zero (past : Option Int32) (current : Int32) :
    (blended 0 past current).toInt = current.toInt := by
  cases past with
  | none => exact Int32.toInt_toInt64 current
  | some past =>
    have hzero : IsPercentage 0 := ⟨by decide, by decide⟩
    rw [(faithfulBlend hzero past current).quotient, Int32.toInt_zero, Int.zero_mul, Int.add_zero]
    exact Int.mul_tdiv_cancel_left _ (by decide)

/-! ## Histories -/

namespace Trend

/-- The recorded score that one at a place is compared with. -/
def past (t : Trend) (place : Nat) : Option Int32 :=
  if place < t.recorded then t.scores[place]? else none

theorem blend_eq_blended (t : Trend) (place : Nat) (current : Int32) :
    t.blend place current = blended t.weight (t.past place) current := by
  unfold blend past
  by_cases h : place < t.recorded
  · rw [if_pos h]
    cases t.scores[place]? with
    | none => rfl
    | some past => exact if_neg (Nat.not_le.mpr h)
  · rw [if_neg h]
    cases t.scores[place]? with
    | none => rfl
    | some past => exact if_pos (Nat.not_lt.mp h)

theorem past_of_recorded_le {t : Trend} {place : Nat} (h : t.recorded ≤ place) :
    t.past place = none :=
  if_neg (Nat.not_lt.mpr h)

/-- A history that fits its window holds a score at each place that counts as recorded. -/
theorem Sound.exists_past {t : Trend} (h : t.Sound) {place : Nat} (hplace : place < t.recorded) :
    ∃ past, t.scores[place]? = some past ∧ t.past place = some past := by
  have hlt : place < t.scores.length := by
    rw [h.scores]
    exact Nat.lt_of_lt_of_le hplace h.recorded
  have hscore := List.getElem?_eq_getElem hlt
  exact ⟨_, hscore, (if_pos hplace).trans hscore⟩

theorem Fit.isPercentage {window : Nat} {weight : Int32} (h : Fit window weight) :
    IsPercentage weight :=
  ⟨Int32.le_iff_toInt_le.mp h.weight_nonneg, Int32.le_iff_toInt_le.mp h.weight_le⟩

/-! ## Choices -/

/-- The key of a score at a place. -/
def key (t : Trend) (place : Nat) (score : Int32) : Int := (t.blend place score).toInt

theorem getElem?_blendAll (t : Trend) (scores : List Int32) : ∀ next place,
    (t.blendAll next scores)[place]? =
      scores[place]?.map fun s => (t.blend (next + place) s).toInt := by
  induction scores with
  | nil => exact fun _ _ => rfl
  | cons s ss ih =>
    intro next place
    cases place with
    | zero => rfl
    | succ place =>
      rw [blendAll, List.getElem?_cons_succ, List.getElem?_cons_succ, ih, Nat.add_right_comm]
      rfl

theorem blendAll_eq_mapIdx (t : Trend) (scores : List Int32) :
    t.blendAll 0 scores = scores.mapIdx t.key := by
  refine List.ext_getElem? fun place => ?_
  rw [getElem?_blendAll, List.getElem?_mapIdx, Nat.zero_add]
  rfl

/-- **The first score that blends to most is chosen.** -/
theorem foremost_iff_choose (t : Trend) {scores : List Int32} (h : scores ≠ []) {place : Nat}
    {score : Int32} :
    Foremost t.key scores place score ↔ place = t.choose scores ∧ scores[place]? = some score := by
  rw [choose, blendAll_eq_mapIdx]
  exact foremost_iff h

/-- The place that is chosen is the first whose score blends to most. -/
theorem exists_score_choose (t : Trend) {scores : List Int32} (h : scores ≠ []) :
    ∃ top, scores[t.choose scores]? = some top ∧ ∀ place s, scores[place]? = some s →
      t.blend place s ≤ t.blend (t.choose scores) top ∧
        (place < t.choose scores → t.blend place s < t.blend (t.choose scores) top) := by
  obtain ⟨top, htop⟩ := exists_foremost_firstGreatest t.key h
  rw [← blendAll_eq_mapIdx] at htop
  exact ⟨top, htop.here, fun place s hs => ⟨Int64.le_iff_toInt_le.mpr (htop.most place s hs),
    fun hbefore => Int64.lt_iff_toInt_lt.mpr (htop.first place s hs hbefore)⟩⟩

/-- Where blending changes no score, the best result is chosen. -/
theorem choose_eq_best {t : Trend} (h : ∀ place s, (t.blend place s).toInt = s.toInt) {α : Type}
    (score : α → Int32) (results : List α) : t.choose (results.map score) = best score results := by
  refine congrArg firstGreatest (List.ext_getElem? fun place => ?_)
  rw [getElem?_blendAll, List.getElem?_map, List.getElem?_map, Option.map_map]
  exact congrArg (results[place]?.map ·) (funext fun r => h _ _)

end Trend

end Superpose.Choice
