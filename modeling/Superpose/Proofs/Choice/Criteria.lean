import Mathlib.Algebra.Order.Ring.Int
import Superpose.Proofs.Checked
import Superpose.Proofs.Choice.Greatest
import Superpose.Reduction

/-!
# The weighted mean in words

The weighted mean of a result is taken on 64-bit words. Each product of a score and a weight fits
into its word, and so does the sum of the weights, but the sum of three products need not: `mean` is
the mean in whole numbers, and `aggregate_eq_mean_iff` says that the words come to it just where the
weighted sum is in the range of a word. Weights that come to less than `2 ^ 32` in absolute value
keep it there whatever the scores (`fits_of_light`). Within the range the mean behaves as a mean
should (`exact_mean`).

Where only one of the three weights is not 0, the mean is the score in this dimension
(`Criteria.Sole`), so the choice is that of the best score.
-/

namespace Superpose.Choice

namespace Criteria

variable {α : Type}

/-! ## Whole numbers -/

/-- The score in one dimension as a whole number. -/
def points (score? : Option (α → Int32)) (r : α) : Int :=
  match score? with
  | none => 0
  | some score => (score r).toInt

/-- The weighted sum of the scores in the first two dimensions. -/
def leadingSum (c : Criteria α) (r : α) : Int :=
  points c.quality r * c.qualityWeight.toInt + points c.speed r * c.speedWeight.toInt

/-- The weighted sum of the scores of a result. -/
def weightedSum (c : Criteria α) (r : α) : Int :=
  c.leadingSum r + points c.resource r * c.resourceWeight.toInt

/-- The sum of the weights. -/
def mass (c : Criteria α) : Int :=
  c.qualityWeight.toInt + c.speedWeight.toInt + c.resourceWeight.toInt

/-- What the weighted sum is divided by. -/
def unit (c : Criteria α) : Int := if c.mass = 0 then 1 else c.mass

/-- The weighted mean of the scores of a result, truncated toward zero. -/
def mean (c : Criteria α) (r : α) : Int := (c.weightedSum r).tdiv c.unit

/-- The weights in absolute value. -/
def load (c : Criteria α) : Nat :=
  c.qualityWeight.toInt.natAbs + c.speedWeight.toInt.natAbs + c.resourceWeight.toInt.natAbs

/-! ## Words -/

/-- The range of a 64-bit word. -/
def InWord (n : Int) : Prop := -2 ^ 63 ≤ n ∧ n < 2 ^ 63

instance (n : Int) : Decidable (InWord n) := inferInstanceAs (Decidable (_ ∧ _))

theorem bmod_eq_self_iff {n : Int} : n.bmod (2 ^ 64) = n ↔ InWord n := by
  constructor
  · intro h
    have hlow := Int.le_bmod (x := n) (m := 2 ^ 64) (by decide)
    have hhigh := Int.bmod_lt (x := n) (m := 2 ^ 64) (by decide)
    rw [h] at hlow hhigh
    exact ⟨by omega, by omega⟩
  · rintro ⟨hlow, hhigh⟩
    exact Int.bmod_eq_of_le (by omega) (by omega)

/-- The word of the first two products. -/
def leadingWord (c : Criteria α) (r : α) : Int64 :=
  dimension c.quality r * c.qualityWeight.toInt64 + dimension c.speed r * c.speedWeight.toInt64

/-- The word of all products. -/
def sumWord (c : Criteria α) (r : α) : Int64 :=
  c.leadingWord r + dimension c.resource r * c.resourceWeight.toInt64

theorem aggregate_eq (c : Criteria α) (r : α) : c.aggregate r = c.sumWord r / c.divisor := rfl

theorem natAbs_points_le (score? : Option (α → Int32)) (r : α) :
    (points score? r).natAbs ≤ 2 ^ 31 := by
  cases score? with
  | none => exact Nat.zero_le _
  | some score => exact natAbs_toInt_le (score r)

theorem natAbs_product_le (score? : Option (α → Int32)) (weight : Int32) (r : α) :
    (points score? r * weight.toInt).natAbs ≤ 2 ^ 31 * weight.toInt.natAbs := by
  rw [Int.natAbs_mul]
  exact Nat.mul_le_mul_right _ (natAbs_points_le score? r)

theorem toInt_dimension (score? : Option (α → Int32)) (r : α) :
    (dimension score? r).toInt = points score? r := by
  cases score? with
  | none => rfl
  | some score => exact Int32.toInt_toInt64 _

/-- A product of a score and a weight fits into its word. -/
theorem toInt_product (score? : Option (α → Int32)) (weight : Int32) (r : α) :
    (dimension score? r * weight.toInt64).toInt = points score? r * weight.toInt := by
  have hle := natAbs_product_le score? weight r
  have hweight := natAbs_toInt_le weight
  rw [Int64.toInt_mul, toInt_dimension, Int32.toInt_toInt64]
  exact bmod_eq_self_iff.mpr ⟨by omega, by omega⟩

theorem toInt_leadingWord (c : Criteria α) (r : α) :
    (c.leadingWord r).toInt = (c.leadingSum r).bmod (2 ^ 64) := by
  rw [leadingWord, Int64.toInt_add, toInt_product, toInt_product, leadingSum]

theorem toInt_sumWord (c : Criteria α) (r : α) :
    (c.sumWord r).toInt = (c.weightedSum r).bmod (2 ^ 64) := by
  rw [sumWord, Int64.toInt_add, toInt_leadingWord, toInt_product, Int.bmod_add_bmod, weightedSum]

theorem toInt_leadingWeights (c : Criteria α) :
    (c.qualityWeight.toInt64 + c.speedWeight.toInt64).toInt =
      c.qualityWeight.toInt + c.speedWeight.toInt := by
  have hquality := natAbs_toInt_le c.qualityWeight
  have hspeed := natAbs_toInt_le c.speedWeight
  rw [Int64.toInt_add, Int32.toInt_toInt64, Int32.toInt_toInt64]
  exact bmod_eq_self_iff.mpr ⟨by omega, by omega⟩

theorem natAbs_mass_le (c : Criteria α) : c.mass.natAbs ≤ 3 * 2 ^ 31 := by
  have hquality := natAbs_toInt_le c.qualityWeight
  have hspeed := natAbs_toInt_le c.speedWeight
  have hresource := natAbs_toInt_le c.resourceWeight
  rw [mass]
  omega

theorem toInt_weightSum (c : Criteria α) : c.weightSum.toInt = c.mass := by
  have hle := c.natAbs_mass_le
  rw [weightSum, Int64.toInt_add, toInt_leadingWeights, Int32.toInt_toInt64]
  exact bmod_eq_self_iff.mpr ⟨by rw [mass] at hle; omega, by rw [mass] at hle; omega⟩

theorem toInt_divisor (c : Criteria α) : c.divisor.toInt = c.unit := by
  have hzero : c.weightSum = 0 ↔ c.mass = 0 := by
    rw [← toInt_weightSum, ← Int64.toInt_inj]
    rfl
  rw [divisor, unit]
  by_cases h : c.mass = 0
  · rw [if_pos h, if_pos (hzero.mpr h)]
    rfl
  · rw [if_neg h, if_neg (mt hzero.mp h)]
    exact c.toInt_weightSum

/-! ## Light weights -/

theorem natAbs_weightedSum_le (c : Criteria α) (r : α) :
    (c.leadingSum r).natAbs ≤ 2 ^ 31 * c.load ∧ (c.weightedSum r).natAbs ≤ 2 ^ 31 * c.load := by
  have hquality := natAbs_product_le c.quality c.qualityWeight r
  have hspeed := natAbs_product_le c.speed c.speedWeight r
  have hresource := natAbs_product_le c.resource c.resourceWeight r
  rw [weightedSum, leadingSum, load]
  omega

/-- Neither running sum of the products leaves the range of a word. -/
structure Fits (c : Criteria α) (r : α) : Prop where
  leading : InWord (c.leadingSum r)
  whole : InWord (c.weightedSum r)

theorem fits_of_light {c : Criteria α} (h : c.load < 2 ^ 32) (r : α) : c.Fits r := by
  obtain ⟨hleading, hwhole⟩ := c.natAbs_weightedSum_le r
  exact ⟨⟨by omega, by omega⟩, ⟨by omega, by omega⟩⟩

theorem light_of_mass_eq {c : Criteria α} (h : c.mass = -1) : c.load < 2 ^ 32 := by
  -- one of the two signs has a single weight at most, and the other comes to the same but for 1
  have hquality := c.qualityWeight.toInt_lt
  have hspeed := c.speedWeight.toInt_lt
  have hresource := c.resourceWeight.toInt_lt
  have hquality' := c.qualityWeight.le_toInt
  have hspeed' := c.speedWeight.le_toInt
  have hresource' := c.resourceWeight.le_toInt
  rw [mass] at h
  rw [load]
  omega

/-! ## The quotient -/

/-- **The quotient of words is the quotient of the wrapped sum.** -/
theorem toInt_aggregate (c : Criteria α) (r : α) :
    (c.aggregate r).toInt = ((c.weightedSum r).bmod (2 ^ 64)).tdiv c.unit := by
  rw [aggregate_eq, ← toInt_sumWord, ← toInt_divisor]
  -- the one division that overflows is that of the least word by -1
  by_cases hunit : c.divisor = -1
  · -- weights that come to -1 are too light for the least word
    refine Int64.toInt_div_of_ne_left _ _ fun hleast => ?_
    have hmass : c.mass = -1 := by
      have hdivisor := c.toInt_divisor
      rw [hunit, unit] at hdivisor
      split at hdivisor
      · cases hdivisor
      · exact hdivisor.symm
    have hlight := light_of_mass_eq hmass
    have hsum : (c.sumWord r).toInt = -2 ^ 63 := by
      rw [hleast]
      rfl
    have hle := (c.natAbs_weightedSum_le r).2
    rw [toInt_sumWord, bmod_eq_self_iff.mpr (fits_of_light hlight r).whole] at hsum
    omega
  · exact Int64.toInt_div_of_ne_right _ _ hunit

theorem unit_bounds (c : Criteria α) : c.unit ≠ 0 ∧ c.unit.natAbs ≤ 3 * 2 ^ 31 := by
  rw [unit]
  split
  · decide
  · next hmass => exact ⟨hmass, c.natAbs_mass_le⟩

/-- Numbers whose quotients agree are less than two divisors apart. -/
theorem natAbs_sub_lt_of_tdiv_eq {m n d : Int} (hd : d ≠ 0) (h : m.tdiv d = n.tdiv d) :
    (m - n).natAbs < 2 * d.natAbs := by
  have hm := Int.tmod_add_mul_tdiv m d
  have hn := Int.tmod_add_mul_tdiv n d
  have hm' := Int.natAbs_tmod m d
  have hn' := Int.natAbs_tmod n d
  have hlt := Nat.mod_lt m.natAbs (Int.natAbs_pos.mpr hd)
  have hlt' := Nat.mod_lt n.natAbs (Int.natAbs_pos.mpr hd)
  rw [h] at hm
  omega

/-- **The words come to the mean** just where the weighted sum is in the range of a word. -/
theorem aggregate_eq_mean_iff (c : Criteria α) (r : α) :
    (c.aggregate r).toInt = c.mean r ↔ InWord (c.weightedSum r) := by
  rw [toInt_aggregate, mean]
  constructor
  · intro hsame
    have hclose := natAbs_sub_lt_of_tdiv_eq c.unit_bounds.1 hsame
    have hunit := c.unit_bounds.2
    have hlow := Int.le_bmod (x := c.weightedSum r) (m := 2 ^ 64) (by decide)
    have hhigh := Int.bmod_lt (x := c.weightedSum r) (m := 2 ^ 64) (by decide)
    -- a sum that was wrapped around is `2 ^ 64` off, which is too far for the same quotient
    have hwrapped := Int.bmod_eq_self_sub_mul_bdiv (c.weightedSum r) (2 ^ 64)
    exact ⟨by omega, by omega⟩
  · intro hword
    rw [bmod_eq_self_iff.mpr hword]

/-- Each word on the way to the weighted mean holds the number that it stands for. -/
structure Faithful (c : Criteria α) (r : α) : Prop where
  quality : (dimension c.quality r * c.qualityWeight.toInt64).toInt =
    points c.quality r * c.qualityWeight.toInt
  speed : (dimension c.speed r * c.speedWeight.toInt64).toInt =
    points c.speed r * c.speedWeight.toInt
  resource : (dimension c.resource r * c.resourceWeight.toInt64).toInt =
    points c.resource r * c.resourceWeight.toInt
  leadingSum : (c.leadingWord r).toInt = c.leadingSum r
  weightedSum : (c.sumWord r).toInt = c.weightedSum r
  leadingWeights : (c.qualityWeight.toInt64 + c.speedWeight.toInt64).toInt =
    c.qualityWeight.toInt + c.speedWeight.toInt
  weights : c.weightSum.toInt = c.mass
  quotient : (c.sumWord r / c.divisor).toInt = c.mean r

/-- Nothing but the two running sums can overflow. -/
theorem faithful_iff_fits (c : Criteria α) (r : α) : c.Faithful r ↔ c.Fits r := by
  constructor
  · intro h
    have hleading := h.leadingSum
    have hwhole := h.weightedSum
    rw [toInt_leadingWord] at hleading
    rw [toInt_sumWord] at hwhole
    exact ⟨bmod_eq_self_iff.mp hleading, bmod_eq_self_iff.mp hwhole⟩
  · intro h
    exact {
      quality := toInt_product ..
      speed := toInt_product ..
      resource := toInt_product ..
      leadingSum := by rw [toInt_leadingWord, bmod_eq_self_iff.mpr h.leading]
      weightedSum := by rw [toInt_sumWord, bmod_eq_self_iff.mpr h.whole]
      leadingWeights := c.toInt_leadingWeights
      weights := c.toInt_weightSum
      quotient := (c.aggregate_eq_mean_iff r).mpr h.whole }

/-! ## Overflow checks -/

theorem weightSum?_eq (c : Criteria α) : c.weightSum? = some c.weightSum := by
  refine Option.bind_eq_some_iff.mpr ⟨_, Checked.signed_eq_some_iff.mpr
    c.toInt_leadingWeights.symm, Checked.signed_eq_some_iff.mpr ?_⟩
  rw [toInt_leadingWeights, toInt_weightSum, mass]

theorem product?_eq (score? : Option (α → Int32)) (weight : Int32) (r : α) :
    product? score? weight r = some (dimension score? r * weight.toInt64) := by
  rw [product?, Checked.signed_eq_some_iff, toInt_product, toInt_dimension]

/-- **Overflow checks break off just where a running sum leaves the range of a word.** Otherwise
they make no difference. -/
theorem aggregate?_eq_some_iff (c : Criteria α) (r : α) (mean : Int64) :
    c.aggregate? r = some mean ↔ c.Fits r ∧ mean = c.aggregate r := by
  simp only [aggregate?, weightSum?_eq, product?_eq, Option.bind_some, Option.bind_eq_bind,
    Option.bind_eq_some_iff, Checked.signed_eq_some_iff, toInt_product]
  constructor
  · rintro ⟨leading, hleading, sum, hsum, hmean⟩
    rw [← leadingSum] at hleading
    rw [← hleading, ← weightedSum] at hsum
    have hfits : c.Fits r :=
      ⟨hleading ▸ ⟨leading.le_toInt, leading.toInt_lt⟩, hsum ▸ ⟨sum.le_toInt, sum.toInt_lt⟩⟩
    have hexact := (c.faithful_iff_fits r).mpr hfits
    refine ⟨hfits, Int64.toInt_inj.mp ?_⟩
    rw [← hmean, ← hsum, aggregate_eq, hexact.quotient, Criteria.mean, ← toInt_divisor]
    rfl
  · rintro ⟨hfits, rfl⟩
    have hexact := (c.faithful_iff_fits r).mpr hfits
    refine ⟨c.leadingWord r, hexact.leadingSum.symm, c.sumWord r, ?_, ?_⟩
    · rw [hexact.leadingSum, hexact.weightedSum, weightedSum]
    · rw [hexact.weightedSum, aggregate_eq, hexact.quotient, Criteria.mean, ← toInt_divisor]
      rfl

/-! ## The mean as a mean -/

/-- Weights none of which is negative and not all of which are 0. -/
structure Proper (c : Criteria α) : Prop where
  quality : 0 ≤ c.qualityWeight.toInt
  speed : 0 ≤ c.speedWeight.toInt
  resource : 0 ≤ c.resourceWeight.toInt
  pos : 0 < c.mass

theorem Proper.unit_eq {c : Criteria α} (h : c.Proper) : c.unit = c.mass :=
  if_neg (Int.ne_of_gt h.pos)

/-- A result that another one does not fall behind in any dimension. -/
structure Below (c : Criteria α) (r r' : α) : Prop where
  quality : points c.quality r ≤ points c.quality r'
  speed : points c.speed r ≤ points c.speed r'
  resource : points c.resource r ≤ points c.resource r'

theorem Proper.mean_le_mean {c : Criteria α} (h : c.Proper) {r r' : α} (hbelow : c.Below r r') :
    c.mean r ≤ c.mean r' := by
  have hquality := Int.mul_le_mul_of_nonneg_right hbelow.quality h.quality
  have hspeed := Int.mul_le_mul_of_nonneg_right hbelow.speed h.speed
  have hresource := Int.mul_le_mul_of_nonneg_right hbelow.resource h.resource
  have hsum : c.weightedSum r ≤ c.weightedSum r' := by
    rw [weightedSum, weightedSum, leadingSum, leadingSum]
    omega
  rw [mean, mean, h.unit_eq]
  exact Int.tdiv_le_tdiv h.pos hsum

/-- The least score of a result. -/
def lowest (c : Criteria α) (r : α) : Int :=
  min (min (points c.quality r) (points c.speed r)) (points c.resource r)

/-- The greatest score of a result. -/
def highest (c : Criteria α) (r : α) : Int :=
  max (max (points c.quality r) (points c.speed r)) (points c.resource r)

/-- Bounds of all scores, weighed with all weights, are bounds of the weighted sum. -/
theorem Proper.weightedSum_bounds {c : Criteria α} (h : c.Proper) (r : α) :
    c.lowest r * c.mass ≤ c.weightedSum r ∧ c.weightedSum r ≤ c.highest r * c.mass := by
  have hbounds : ∀ p w : Int, 0 ≤ w → c.lowest r ≤ p → p ≤ c.highest r →
      c.lowest r * w ≤ p * w ∧ p * w ≤ c.highest r * w := fun p w hw hlow hhigh =>
    ⟨Int.mul_le_mul_of_nonneg_right hlow hw, Int.mul_le_mul_of_nonneg_right hhigh hw⟩
  have hquality := hbounds (points c.quality r) _ h.quality (by rw [lowest]; omega)
    (by rw [highest]; omega)
  have hspeed := hbounds (points c.speed r) _ h.speed (by rw [lowest]; omega)
    (by rw [highest]; omega)
  have hresource := hbounds (points c.resource r) _ h.resource (by rw [lowest]; omega)
    (by rw [highest]; omega)
  rw [weightedSum, leadingSum, mass, Int.mul_add, Int.mul_add, Int.mul_add, Int.mul_add]
  omega

theorem Proper.mean_bounds {c : Criteria α} (h : c.Proper) (r : α) :
    c.lowest r ≤ c.mean r ∧ c.mean r ≤ c.highest r := by
  obtain ⟨hlow, hhigh⟩ := h.weightedSum_bounds r
  have hlow := Int.tdiv_le_tdiv h.pos hlow
  have hhigh := Int.tdiv_le_tdiv h.pos hhigh
  rw [Int.mul_tdiv_cancel _ (Int.ne_of_gt h.pos)] at hlow hhigh
  rw [mean, h.unit_eq]
  exact ⟨hlow, hhigh⟩

/-- **The weighted mean of words.** All of its words are exact just where its two running sums are
in the range of a word; a build with overflow checks breaks off just where they are not, and comes
to the same otherwise. The value is that of whole numbers just where the weighted sum is in range.
Weights that come to less than `2 ^ 32` in absolute value ensure it. In range, and with weights none
of which is negative and not all 0, the mean lies between the least and the greatest score, and does
not fall where no score does. -/
theorem exact_mean (c : Criteria α) (r : α) :
    (c.Faithful r ↔ c.Fits r) ∧
      (∀ mean, c.aggregate? r = some mean ↔ c.Fits r ∧ mean = c.aggregate r) ∧
      ((c.aggregate r).toInt = c.mean r ↔ InWord (c.weightedSum r)) ∧
      (c.load < 2 ^ 32 → c.Fits r) ∧
      (c.Proper → InWord (c.weightedSum r) →
        (c.lowest r ≤ (c.aggregate r).toInt ∧ (c.aggregate r).toInt ≤ c.highest r) ∧
        ∀ r', InWord (c.weightedSum r') → c.Below r r' → c.aggregate r ≤ c.aggregate r') := by
  refine ⟨c.faithful_iff_fits r, c.aggregate?_eq_some_iff r, c.aggregate_eq_mean_iff r,
    fun h => fits_of_light h r, fun hproper hword => ?_⟩
  have hexact := (c.aggregate_eq_mean_iff r).mpr hword
  refine ⟨?_, fun r' hword' hbelow => ?_⟩
  · rw [hexact]
    exact hproper.mean_bounds r
  · rw [Int64.le_iff_toInt_le, hexact, (c.aggregate_eq_mean_iff r').mpr hword']
    exact hproper.mean_le_mean hbelow

section Samples

/-- Three scores of a number, weighed against each other. -/
def blend : Criteria Int32 where
  quality := some id
  speed := some fun v => v / 3
  resource := some fun _ => -5
  qualityWeight := 50
  speedWeight := 30
  resourceWeight := 20

theorem exact_mean_blend :
    blend.load < 2 ^ 32 ∧ blend.Proper ∧ blend.Faithful (-91) ∧
      blend.aggregate? (-91) = some (blend.aggregate (-91)) ∧
      (blend.aggregate (-91)).toInt = -55 ∧ blend.lowest (-91) = -91 ∧ blend.highest (-91) = -5 ∧
      blend.lowest (-91) ≤ (blend.aggregate (-91)).toInt ∧
      (blend.aggregate (-91)).toInt ≤ blend.highest (-91) ∧
      blend.Below (-91) 4 ∧ blend.aggregate (-91) ≤ blend.aggregate 4 := by
  have hlight : blend.load < 2 ^ 32 := by decide
  have hproper : blend.Proper := ⟨by decide, by decide, by decide, by decide⟩
  have hbelow : blend.Below (-91) 4 := ⟨by decide, by decide, by decide⟩
  obtain ⟨hfaithful, hchecked, -, hfits, hmean⟩ := exact_mean blend (-91)
  obtain ⟨⟨hlow, hhigh⟩, hrises⟩ := hmean hproper (hfits hlight).whole
  exact ⟨hlight, hproper, hfaithful.mpr (hfits hlight), (hchecked _).mpr ⟨hfits hlight, rfl⟩,
    by decide, by decide, by decide, hlow, hhigh, hbelow, hrises 4 (by decide) hbelow⟩

/-- Three scores and three weights that are all as great as can be. -/
def heavy : Criteria Int32 where
  quality := some id
  speed := some id
  resource := some id
  qualityWeight := 2147483647
  speedWeight := 2147483647
  resourceWeight := 2147483647

/-- **The weighted sum can overflow**: the mean of three equal scores is none of them, and with
overflow checks there is none at all. -/
theorem overflowing_mean :
    heavy.Proper ∧ heavy.mean 2147483647 = 2147483647 ∧ heavy.aggregate? 2147483647 = none ∧
      (heavy.aggregate 2147483647).toInt = -715827885 ∧ ¬ heavy.Faithful 2147483647 := by
  refine ⟨⟨by decide, by decide, by decide, by decide⟩, by decide, by decide, by decide,
    fun h => ?_⟩
  exact absurd h.weightedSum (by decide)

end Samples

/-! ## One criterion -/

/-- A score that is the only one to have a weight. -/
inductive Sole (c : Criteria α) (score : α → Int32) : Prop
  | quality (hscore : c.quality = some score) (hweight : c.qualityWeight ≠ 0)
      (hspeed : c.speedWeight = 0) (hresource : c.resourceWeight = 0)
  | speed (hscore : c.speed = some score) (hweight : c.speedWeight ≠ 0)
      (hquality : c.qualityWeight = 0) (hresource : c.resourceWeight = 0)
  | resource (hscore : c.resource = some score) (hweight : c.resourceWeight ≠ 0)
      (hquality : c.qualityWeight = 0) (hspeed : c.speedWeight = 0)

theorem Sole.weightedSum_eq {c : Criteria α} {score : α → Int32} (h : c.Sole score) (r : α) :
    ∃ w : Int32, w ≠ 0 ∧ c.mass = w.toInt ∧ c.load = w.toInt.natAbs ∧
      c.weightedSum r = (score r).toInt * w.toInt := by
  rw [mass, load, weightedSum, leadingSum]
  cases h with
  | quality hscore hweight hspeed hresource =>
    exact ⟨_, hweight, by simp [hspeed, hresource], by simp [hspeed, hresource],
      by simp [hscore, hspeed, hresource, points]⟩
  | speed hscore hweight hquality hresource =>
    exact ⟨_, hweight, by simp [hquality, hresource], by simp [hquality, hresource],
      by simp [hscore, hquality, hresource, points]⟩
  | resource hscore hweight hquality hspeed =>
    exact ⟨_, hweight, by simp [hquality, hspeed], by simp [hquality, hspeed],
      by simp [hscore, hquality, hspeed, points]⟩

theorem Sole.toInt_aggregate {c : Criteria α} {score : α → Int32} (h : c.Sole score) (r : α) :
    (c.aggregate r).toInt = (score r).toInt := by
  obtain ⟨w, hw, hmass, hload, hsum⟩ := h.weightedSum_eq r
  have hne : w.toInt ≠ 0 :=
    fun hzero => hw (Int32.toInt_inj.mp (hzero.trans Int32.toInt_zero.symm))
  -- a single weight is light, and divides its product with the score
  have hlight : c.load < 2 ^ 32 := by
    have hle := natAbs_toInt_le w
    omega
  rw [(c.aggregate_eq_mean_iff r).mpr (fits_of_light hlight r).whole, mean, unit, hmass,
    if_neg hne, hsum, Int.mul_tdiv_cancel _ hne]

end Criteria

open Criteria

/-- **One criterion chooses as its score does**, for either sign of its weight and however the
others score: each mean is the score, so the same result is the first greatest, and the two
strategies come to the same. -/
theorem sole_criterion {α : Type} {c : Criteria α} {score : α → Int32} (h : c.Sole score) :
    (∀ r, (c.aggregate r).toInt = (score r).toInt) ∧
      (∀ results, weighted c results = best score results) ∧
      ∀ [BEq α] (results : List α) (output : α) (tools : Toolkit α) (now : UInt64),
        tools.criteria = some c → tools.evaluator = some score →
          reduce .multiDim results output tools now = reduce .best results output tools now := by
  have hchoice : ∀ results, weighted c results = best score results := fun results =>
    congrArg firstGreatest (List.map_congr_left fun r _ => h.toInt_aggregate r)
  refine ⟨h.toInt_aggregate, hchoice, fun results output tools now hcriteria hscore => ?_⟩
  have hruling : ruling .multiDim results output tools now =
      ruling .best results output tools now := by
    rw [ruling, ruling, hcriteria, hscore]
    exact congrArg Ruling.select (hchoice results)
  rw [reduce, reduce, hruling]

section Samples

/-- The speed of a number is all that counts, and what is fast is bad. -/
def unhurried : Criteria Int32 where
  quality := some id
  speed := some fun v => 100 - v
  resource := none
  qualityWeight := 0
  speedWeight := -3
  resourceWeight := 0

/-- A negative weight does not turn the scores around: it weighs the divisor as well. -/
theorem sole_criterion_negative :
    unhurried.Sole (fun v => 100 - v) ∧ weighted unhurried [60, 20, 20, 90] = 1 ∧
      best (fun v => 100 - v) [(60 : Int32), 20, 20, 90] = 1 ∧
      weighted unhurried [60, 20, 20, 90] = best (fun v => 100 - v) [60, 20, 20, 90] := by
  have hsole : unhurried.Sole (fun v => 100 - v) := .speed rfl (by decide) rfl rfl
  exact ⟨hsole, by decide, by decide, (sole_criterion hsole).2.1 _⟩

end Samples

end Superpose.Choice
