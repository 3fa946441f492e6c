import Superpose.Proofs.Binary64.Holding
import Superpose.Proofs.Binary64.Order

/-!
# Quotients in binary64

A quotient of normal numbers is cut off at 53 bits or more before it is rounded (`divCore_eq`), and
so it is held up to rounding as a product is (`Holds.div`). Against a float that is a threshold for
shares, a quotient of words stands where the exact share does, unless that is within a unit of the
threshold (`Marks.div_lt_iff`).
-/

namespace Superpose.Binary64

open Float.Model Float.Model.UnpackedFloat

/-! ## Order -/

theorem Holds.isNaN_eq_false {x : Float} {p : ℚ} (h : Holds x p) : x.isNaN = false := by
  refine Bool.eq_false_iff.mpr fun hnan => ?_
  have hunpack := UnpackedFloat.isNaN_iff.mp hnan
  cases h with
  | zero s h => cases h.symm.trans hunpack
  | normal s h => cases h.symm.trans hunpack

theorem Holds.lt_iff {x y : Float} {p q : ℚ} (hx : Holds x p) (hy : Holds y q) :
    x < y ↔ p < q := by
  rw [lt_iff_not_le hx.isNaN_eq_false hy.isNaN_eq_false, hy.le_iff hx, not_le]

/-! ## Division -/

/-- The mantissa of a quotient of normal numbers is made 53 bits longer first. -/
theorem divCore_eq {m n : Nat} {e f : Int} (h : Normal m e) (h' : Normal n f)
    (hlow : -1021 ≤ e - f) :
    divCore .binary64 m e n f =
      ((m <<< 53) / n, e - f - 53, accuracyOfFraction ((m <<< 53) % n) n) := by
  have hbits : ((Format.binary64.mantissaBits : Nat) : Int) = 53 := rfl
  have hmin : Format.binary64.minExponent = -1074 := rfl
  have hm := log2_eq h.low h.high
  have hn := log2_eq h'.low h'.high
  have htarget : min (e - f) (Format.binary64.targetExponent
      (totalExponent m e - totalExponent n f)) = e - f - 53 := by
    rw [Format.targetExponent, totalExponent, totalExponent, hm, hn, hbits, hmin]
    omega
  have hamount : (e - f - (e - f - 53)).toNat = 53 := by omega
  simp only [divCore, htarget, hamount]

theorem apply_div_apply (s s' : Sign) (m n : Nat) :
    ((s.apply m : Int) / (s'.apply n : Int) : ℚ) = ((s / s').apply m : Int) / n := by
  cases s <;> cases s' <;> simp only [Sign.apply, Int.cast_neg, Int.cast_natCast]
  · exact neg_div_neg_eq _ _
  · exact (congrArg (· / (n : ℚ)) (Int.cast_neg (m : Int))).symm
  · rw [div_neg, ← neg_div]
    exact (congrArg (· / (n : ℚ)) (Int.cast_neg (m : Int))).symm
  · rfl

/-- The quotient of two mantissas that are both full is near 1. -/
theorem shifted_quotient_bounds {m n : Nat} {e f : Int} (h : Normal m e) (h' : Normal n f) :
    52 ≤ ((m <<< 53) / n).log2 ∧ ((m <<< 53 : Nat) : ℚ) / n < 2 ^ 54 := by
  obtain ⟨hlow, hhigh, -, -⟩ := h
  obtain ⟨hlow', hhigh', -, -⟩ := h'
  have hpos : 0 < n := by omega
  rw [Nat.shiftLeft_eq]
  constructor
  · have hle : 2 ^ 52 ≤ m * 2 ^ 53 / n := (Nat.le_div_iff_mul_le hpos).mpr (by omega)
    exact (Nat.le_log2 (by omega)).mpr hle
  · rw [div_lt_iff₀ (by exact_mod_cast hpos)]
    exact_mod_cast (by omega : m * 2 ^ 53 < 2 ^ 54 * n)

/-- **A quotient is held up to rounding**, unless it is extremely small or large. -/
theorem Holds.div {x y : Float} {p q : ℚ} (hx : Holds x p) (hy : Holds y q)
    (hlow : (2 : ℚ) ^ (-1021 : Int) ≤ |p / q|) (hhigh : |p / q| < 2 ^ (1022 : Int)) :
    ∃ r t, Holds (x / y) r ∧ (2 : ℚ) ^ (t + 52 : Int) ≤ |p / q| ∧
      |p / q| < 2 ^ (t + 53 : Int) ∧ NearestOn t (p / q) r := by
  have hne : p / q ≠ 0 := by
    intro hzero
    rw [hzero, abs_zero] at hlow
    exact absurd hlow (not_le_of_gt (zpow_pos (by norm_num) _))
  obtain ⟨hp, hq⟩ := div_ne_zero_iff.mp hne
  obtain ⟨s, m, e, hpos, hunpack, hnormal, rfl⟩ := hx.exists_normal hp
  obtain ⟨s', n, f, hpos', hunpack', hnormal', rfl⟩ := hy.exists_normal hq
  have hquotient : ((s.apply m : Int) * 2 ^ e : ℚ) / ((s'.apply n : Int) * 2 ^ f : ℚ) =
      ((s / s').apply (m <<< 53 : Nat) : Int) / n * 2 ^ (e - f - 53) := by
    rw [← apply_div_apply, Nat.shiftLeft_eq, zpow_sub₀ (by norm_num), zpow_sub₀ (by norm_num)]
    have hshifted : (s.apply (m * 2 ^ 53 : Nat) : Int) = s.apply m * 2 ^ 53 := by
      cases s <;> simp only [Sign.apply] <;> push_cast <;> ring
    rw [hshifted]
    push_cast
    field_simp
  obtain ⟨hlog, hsize⟩ := shifted_quotient_bounds hnormal hnormal'
  rw [hquotient, abs_apply_div_mul] at hlow hhigh
  rw [hquotient, abs_apply_div_mul]
  have hexponent : -1021 ≤ e - f := by
    have hpower : (2 : ℚ) ^ 54 * 2 ^ (e - f - 53) = 2 ^ (e - f + 1) := by
      rw [← zpow_natCast, ← zpow_add₀ (by norm_num)]
      congr 1
      omega
    have hlt := hlow.trans_lt (mul_lt_mul_of_pos_right hsize (zpow_pos (by norm_num) _))
    rw [hpower] at hlt
    have hgap := (zpow_lt_zpow_iff_right₀ (by norm_num)).mp hlt
    omega
  have hdiv : x / y = ⟨Float.Model.pack (roundWithAccuracy .binary64 (s / s') ((m <<< 53) / n)
      (e - f - 53) (accuracyOfFraction ((m <<< 53) % n) n))⟩ := by
    show Float.ofModel (Float.Model.pack (UnpackedFloat.div .binary64 _ _)) = _
    rw [hunpack, hunpack', UnpackedFloat.div, divCore_eq hnormal hnormal' hexponent]
  rw [hdiv]
  exact exists_holds_of_size (s / s') hpos' hlog hlow hhigh

/-- Nothing divided by a number is nothing. -/
theorem Holds.zero_div {x y : Float} {q : ℚ} {s : Sign} (hx : x.toModel.unpack = .zero s)
    (hy : Holds y q) (hq : q ≠ 0) : Holds (x / y) 0 := by
  obtain ⟨s', n, f, hpos, hunpack, -, -⟩ := hy.exists_normal hq
  have hdiv : (x / y).toModel.unpack = (Float.Model.pack (.zero (s / s'))).unpack := by
    show (Float.Model.pack (UnpackedFloat.div .binary64 x.toModel.unpack y.toModel.unpack)).unpack =
      _
    rw [hx, hunpack]
    rfl
  exact .zero (s / s') (hdiv.trans (unpack_pack_zero _))

/-! ## Thresholds -/

section Threshold

variable {t u : Int} {z r : ℚ} {k : Nat}

/-- A mantissa of 53 bits at most and its exponent stay below the next power of two. -/
theorem mul_zpow_lt (hk : k < 2 ^ 53) (u : Int) : (k : ℚ) * 2 ^ u < 2 ^ (u + 53) := by
  rw [zpow_add₀ (by norm_num), mul_comm]
  have hlt : (k : ℚ) < 2 ^ (53 : Int) := by exact_mod_cast hk
  exact mul_lt_mul_of_pos_left hlt (zpow_pos (by norm_num) u)

variable (h : NearestOn t z r) (hz : (2 : ℚ) ^ (t + 52) ≤ z) (hk : k < 2 ^ 53)

include h hz hk

/-- A rounding stays at or above a number of 53 bits. -/
theorem NearestOn.le_of_le (hle : k * 2 ^ u ≤ z) : k * 2 ^ u ≤ r := by
  rcases le_or_gt t u with htu | hut
  · exact_mod_cast (h.compare_mul htu k).2 (by exact_mod_cast hle)
  · -- the grid is too coarse for the number, but holds the power of two between it and `z`
    have hfull := (h.compare_mul (u := t + 52) (by omega) 1).2
    rw [Int.cast_one, one_mul] at hfull
    have hpower : (2 : ℚ) ^ (u + 53) ≤ 2 ^ (t + 52) :=
      zpow_le_zpow_right₀ (by norm_num) (by omega)
    exact (mul_zpow_lt hk u).le.trans (hpower.trans (hfull hz))

/-- A rounding stays below a number of 53 bits from which it is one unit away. -/
theorem NearestOn.lt_of_le_sub (hle : z ≤ (k - 1) * 2 ^ u) : r < k * 2 ^ u := by
  have hunit : (0 : ℚ) < 2 ^ u := zpow_pos (by norm_num) u
  have hpower : (2 : ℚ) ^ (t + 52) < 2 ^ (u + 53) := by linarith [mul_zpow_lt hk u]
  have hgap := (zpow_lt_zpow_iff_right₀ (by norm_num)).mp hpower
  have hr := (h.compare_mul (u := u) (by omega) (k - 1)).1 (by exact_mod_cast hle)
  push_cast at hr
  linarith

end Threshold

/-! ## Shares -/

/-- A float that marks the share `p / q`: it is at most that, and even one unit lower not much
less. -/
structure Marks (b : Float) (p q k : Nat) (u : Int) : Prop where
  holds : Holds b (k * 2 ^ u)
  digits : k < 2 ^ 53
  large : (1 / 8 : ℚ) ≤ (k - 1) * 2 ^ u
  below : (k : ℚ) * 2 ^ u ≤ p / q
  near : (p / q : ℚ) ≤ (k - 1) * 2 ^ u + 1 / 2 ^ 40
  pos : 0 < q
  small : q ≤ 16

theorem marks_half : Marks 0.5 1 2 4503599627370496 (-53) where
  holds := .normal .positive (rfl : (0.5 : Float).toModel.unpack =
    .finite .positive 4503599627370496 (-53) (by decide))
    ⟨by decide, by decide, by decide, by decide⟩
  digits := by decide
  large := by norm_num
  below := by norm_num
  near := by norm_num
  pos := by decide
  small := by decide

theorem marks_three_tenths : Marks 0.3 3 10 5404319552844595 (-54) where
  holds := .normal .positive (rfl : (0.3 : Float).toModel.unpack =
    .finite .positive 5404319552844595 (-54) (by decide))
    ⟨by decide, by decide, by decide, by decide⟩
  digits := by decide
  large := by norm_num
  below := by norm_num
  near := by norm_num
  pos := by decide
  small := by decide

/-- What a float holds of a word other than 0: the word, unless that is long. -/
theorem exists_holds_toFloat_pos {n : UInt64} (hn : 0 < n.toNat) :
    ∃ r, Holds n.toFloat r ∧ 1 ≤ r ∧ r ≤ 2 ^ 64 ∧
      (r = n.toNat ∨ 2 ^ 53 ≤ r ∧ 2 ^ 53 ≤ n.toNat) := by
  rcases Nat.lt_or_ge n.toNat (2 ^ 53) with hshort | hlong
  · have hhigh : n.toNat ≤ 2 ^ 64 := n.toNat_lt.le
    exact ⟨n.toNat, holds_toFloat hshort, by exact_mod_cast hn, by exact_mod_cast hhigh, .inl rfl⟩
  · obtain ⟨r, hr, hlow, hhigh⟩ := exists_holds_toFloat hlong
    exact ⟨r, hr, by linarith, hhigh, .inr ⟨hlow, hlong⟩⟩

namespace Marks

variable {b : Float} {p q k : Nat} {u : Int} (h : Marks b p q k u)

include h

theorem mark_pos : (0 : ℚ) < k * 2 ^ u := by
  have hunit : (0 : ℚ) < 2 ^ u := zpow_pos (by norm_num) u
  have hlarge := h.large
  linarith

theorem share_pos : 0 < p := by
  refine Nat.pos_of_ne_zero fun hzero => ?_
  have hbelow := h.mark_pos.trans_le h.below
  rw [hzero, Nat.cast_zero, zero_div] at hbelow
  exact hbelow.false

variable {c n : Nat} {r : ℚ} (hc : c < 2 ^ 32) (hr : r = n ∨ 2 ^ 53 ≤ r ∧ 2 ^ 53 ≤ n)

include hc hr

/-- A share that is smaller than the marked one is so by a unit. -/
theorem le_sub_of_lt (hpos : 1 ≤ r) (hlt : q * c < p * n) : c / r ≤ (k - 1) * 2 ^ u := by
  have hcount : (c : ℚ) < 2 ^ 32 := by exact_mod_cast hc
  rcases le_or_gt (2 ^ 35) r with hlong | hshort
  · refine LE.le.trans ?_ h.large
    rw [div_le_iff₀ (by linarith)]
    linarith
  · have hword : r = n := hr.resolve_right fun hlong => by linarith [hlong.1]
    have hq : (0 : ℚ) < q := by exact_mod_cast h.pos
    have hsmall : (q : ℚ) ≤ 16 := by exact_mod_cast h.small
    have hstep : (q * c + 1 : ℚ) ≤ p * n := by exact_mod_cast hlt
    have hrpos : 0 < r := by linarith
    have hunits : q * r ≤ 2 ^ 40 := by nlinarith
    have hgap : c / r + 1 / 2 ^ 40 ≤ p / q := by
      calc c / r + 1 / 2 ^ 40 ≤ c / r + 1 / (q * r) := by gcongr
        _ = (q * c + 1) / (q * r) := by field_simp
        _ ≤ p * n / (q * r) := by gcongr
        _ = p / q := by
          rw [hword] at hrpos ⊢
          field_simp
    linarith [h.near]

/-- A share that is not smaller than the marked one is not smaller than the mark. -/
theorem le_of_le (hn : 0 < n) (hle : p * n ≤ q * c) : k * 2 ^ u ≤ c / r := by
  have hp : n ≤ p * n := Nat.le_mul_of_pos_left n h.share_pos
  have hq : q * c ≤ 16 * c := Nat.mul_le_mul_right c h.small
  have hword : r = n := hr.resolve_right fun hlong => by omega
  refine h.below.trans ?_
  have hpos : (0 : ℚ) < q := by exact_mod_cast h.pos
  have hpos' : (0 : ℚ) < n := by exact_mod_cast hn
  rw [hword, div_le_div_iff₀ hpos hpos', mul_comm (c : ℚ)]
  exact_mod_cast hle

end Marks

/-- **A rounded share of two words is below a mark just if the exact one is below the marked
share.** -/
theorem Marks.div_lt_iff {b : Float} {p q k : Nat} {u : Int} (h : Marks b p q k u) {c n : UInt64}
    (hc : c.toNat < 2 ^ 32) (hn : 0 < n.toNat) :
    c.toFloat / n.toFloat < b ↔ q * c.toNat < p * n.toNat := by
  obtain ⟨r, hr, hpos, hhigh, hword⟩ := exists_holds_toFloat_pos hn
  have hrpos : 0 < r := by linarith
  by_cases hzero : c.toNat = 0
  · have hnone : c.toFloat.toModel.unpack = .zero .positive := by
      have hword : c = 0 := UInt64.toNat_inj.mp hzero
      rw [hword]
      rfl
    rw [(Holds.zero_div hnone hr hrpos.ne').lt_iff h.holds, hzero, Nat.mul_zero]
    exact iff_of_true h.mark_pos (Nat.mul_pos h.share_pos hn)
  · have hcount : (c.toNat : ℚ) < 2 ^ 32 := by exact_mod_cast hc
    have hone : (1 : ℚ) ≤ c.toNat := by exact_mod_cast Nat.pos_of_ne_zero hzero
    have hshare : 0 < c.toNat / r := by positivity
    have hlow : (2 : ℚ) ^ (-1021 : Int) ≤ |c.toNat / r| := by
      have hpower : (2 : ℚ) ^ (-1021 : Int) ≤ 2 ^ (-64 : Int) :=
        zpow_le_zpow_right₀ (by norm_num) (by norm_num)
      rw [abs_of_pos hshare, le_div_iff₀ hrpos]
      calc (2 : ℚ) ^ (-1021 : Int) * r ≤ 2 ^ (-64 : Int) * 2 ^ 64 := by gcongr
        _ ≤ c.toNat := by norm_num [hone]
    have hhigh : |c.toNat / r| < (2 : ℚ) ^ (1022 : Int) := by
      have hpower : (2 : ℚ) ^ (32 : Int) ≤ 2 ^ (1022 : Int) :=
        zpow_le_zpow_right₀ (by norm_num) (by norm_num)
      rw [abs_of_pos hshare, div_lt_iff₀ hrpos]
      calc (c.toNat : ℚ) < 2 ^ (32 : Int) := by exact_mod_cast hcount
        _ ≤ 2 ^ (1022 : Int) := hpower
        _ ≤ 2 ^ (1022 : Int) * r := le_mul_of_one_le_right (by positivity) hpos
    obtain ⟨s, t, hs, hsize, -, hnearest⟩ := (holds_toFloat (by omega)).div hr hlow hhigh
    rw [abs_of_pos hshare] at hsize
    rw [hs.lt_iff h.holds]
    constructor
    · intro hbelow
      by_contra hle
      have hfull := h.le_of_le hc hword hn (not_lt.mp hle)
      exact absurd (hnearest.le_of_le hsize h.digits hfull) (not_le.mpr hbelow)
    · intro hlt
      exact hnearest.lt_of_le_sub hsize h.digits (h.le_sub_of_lt hc hword hpos hlt)

end Superpose.Binary64
