import Mathlib

/-!
# The order of binary64 numbers

Floats are compared by sign first, then by exponent and then by mantissa. `rank` gives these three,
and floats are in order as their ranks are lexicographically (`lt_iff`, `le_iff`). What is not a
number has no rank, and so stands neither below nor above anything. Every other law of a linear
order holds.
-/

namespace Superpose.Binary64

open Float.Model

/-! ## Ranks -/

/-- Where a float stands in the order of floats, unless it is not a number. -/
def rank : UnpackedFloat → Option (ℤ ×ₗ ℤ ×ₗ ℤ)
  | .notANumber => none
  | .infinity .negative => some (toLex (-2, toLex (0, 0)))
  | .finite .negative m e _ => some (toLex (-1, toLex (-e, -m)))
  | .zero _ => some (toLex (0, toLex (0, 0)))
  | .finite .positive m e _ => some (toLex (1, toLex (e, m)))
  | .infinity .positive => some (toLex (2, toLex (0, 0)))

theorem compare_natCast (m n : ℕ) : compare (m : ℤ) n = compare m n := by
  rw [← cmp_eq_compare, ← cmp_eq_compare]
  exact Nat.strictMono_cast.cmp_map_eq m n

theorem compare_neg (p q : ℤ) : compare (-p) (-q) = compare q p := by
  have hanti : StrictAnti fun n : ℤ => -n := fun _ _ => neg_lt_neg
  rw [← cmp_eq_compare, ← cmp_eq_compare]
  exact hanti.cmp_map_eq p q

/-- **Floats are compared as their ranks are.** -/
theorem compare_eq (a b : UnpackedFloat) :
    a.compare b = (rank a).bind fun p => (rank b).map fun q => compare p q := by
  cases a with
  | notANumber => rfl
  | infinity s =>
    cases b with
    | notANumber | zero => cases s <;> rfl
    | infinity t | finite t => cases s <;> cases t <;> rfl
  | zero s =>
    cases b with
    | notANumber | zero => rfl
    | infinity t | finite t => cases t <;> rfl
  | finite s m e =>
    cases b with
    | notANumber | zero => cases s <;> rfl
    | infinity t => cases s <;> cases t <;> rfl
    | finite t n f =>
      cases s with
      | negative =>
        cases t with
        | positive => rfl
        | negative =>
          show some ((compare e f).then (compare m n)).swap =
            some ((compare (-e) (-f)).then (compare (-m : ℤ) (-n)))
          rw [Ordering.swap_then, Int.compare_swap, Nat.compare_swap, compare_neg, compare_neg,
            compare_natCast]
      | positive =>
        cases t with
        | negative => rfl
        | positive =>
          show some ((compare e f).then (compare m n)) =
            some ((compare e f).then (compare (m : ℤ) n))
          rw [compare_natCast]

theorem rank_eq_none_iff {a : UnpackedFloat} : rank a = none ↔ a = .notANumber := by
  cases a with
  | notANumber => exact iff_of_true rfl rfl
  | infinity s | zero s | finite s => cases s <;> simp [rank]

/-! ## Floats in order -/

variable {x y z : Float}

theorem lt_iff : x < y ↔ ∃ p ∈ rank x.toModel.unpack, ∃ q ∈ rank y.toModel.unpack, p < q := by
  have hdecided : x < y ↔ x.toModel.unpack.lt y.toModel.unpack = true := decide_eq_true_iff
  rw [hdecided, UnpackedFloat.lt, compare_eq]
  cases rank x.toModel.unpack <;> cases rank y.toModel.unpack <;> simp [compare_lt_iff_lt]

theorem le_iff : x ≤ y ↔ ∃ p ∈ rank x.toModel.unpack, ∃ q ∈ rank y.toModel.unpack, p ≤ q := by
  have hdecided : x ≤ y ↔ x.toModel.unpack.le y.toModel.unpack = true := decide_eq_true_iff
  rw [hdecided, UnpackedFloat.le, compare_eq]
  cases rank x.toModel.unpack <;> cases rank y.toModel.unpack <;>
    simp [← Ordering.ne_gt_iff_isLE, compare_le_iff_le]

theorem isNaN_iff : x.isNaN = true ↔ rank x.toModel.unpack = none :=
  UnpackedFloat.isNaN_iff.trans rank_eq_none_iff.symm

theorem exists_rank (h : x.isNaN = false) : ∃ p, rank x.toModel.unpack = some p := by
  refine Option.ne_none_iff_exists'.mp fun hnone => ?_
  rw [isNaN_iff.mpr hnone] at h
  cases h

protected theorem lt_irrefl (x : Float) : ¬ x < x := by
  intro h
  obtain ⟨p, hp, q, hq, hlt⟩ := lt_iff.mp h
  obtain rfl : p = q := Option.mem_unique hp hq
  exact hlt.false

protected theorem le_of_lt (h : x < y) : x ≤ y := by
  obtain ⟨p, hp, q, hq, hlt⟩ := lt_iff.mp h
  exact le_iff.mpr ⟨p, hp, q, hq, hlt.le⟩

protected theorem le_trans (h : x ≤ y) (h' : y ≤ z) : x ≤ z := by
  obtain ⟨p, hp, q, hq, hle⟩ := le_iff.mp h
  obtain ⟨q', hq', r, hr, hle'⟩ := le_iff.mp h'
  obtain rfl : q = q' := Option.mem_unique hq hq'
  exact le_iff.mpr ⟨p, hp, r, hr, hle.trans hle'⟩

protected theorem lt_of_lt_of_le (h : x < y) (h' : y ≤ z) : x < z := by
  obtain ⟨p, hp, q, hq, hlt⟩ := lt_iff.mp h
  obtain ⟨q', hq', r, hr, hle⟩ := le_iff.mp h'
  obtain rfl : q = q' := Option.mem_unique hq hq'
  exact lt_iff.mpr ⟨p, hp, r, hr, hlt.trans_le hle⟩

/-- What stands in any order is a number. -/
theorem isNaN_eq_false_of_lt (h : x < y) : y.isNaN = false := by
  obtain ⟨p, hp, q, hq, -⟩ := lt_iff.mp h
  refine Bool.eq_false_iff.mpr fun hnan => ?_
  rw [isNaN_iff.mp hnan] at hq
  cases hq

/-- What is not a number stands below nothing. -/
theorem not_lt_of_isNaN (h : x.isNaN = true) : ¬ x < y := by
  intro hlt
  obtain ⟨p, hp, -⟩ := lt_iff.mp hlt
  rw [isNaN_iff.mp h] at hp
  cases hp

/-- **Of two numbers, one is below the other or the other is at most that one.** -/
theorem lt_iff_not_le (hx : x.isNaN = false) (hy : y.isNaN = false) : x < y ↔ ¬ y ≤ x := by
  obtain ⟨p, hp⟩ := exists_rank hx
  obtain ⟨q, hq⟩ := exists_rank hy
  simp [lt_iff, le_iff, hp, hq]

theorem le_or_isNaN (hy : y.isNaN = false) (h : ¬ y < x) : x ≤ y ∨ x.isNaN = true := by
  cases hx : x.isNaN with
  | true => exact .inr rfl
  | false => exact .inl (not_not.mp (mt (lt_iff_not_le hy hx).mpr h))

theorem lt_or_isNaN (hy : y.isNaN = false) (h : ¬ y ≤ x) : x < y ∨ x.isNaN = true := by
  cases hx : x.isNaN with
  | true => exact .inr rfl
  | false => exact .inl ((lt_iff_not_le hx hy).mpr h)

end Superpose.Binary64
