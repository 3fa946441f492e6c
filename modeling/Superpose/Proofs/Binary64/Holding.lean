import Superpose.Proofs.Binary64.Rounding

/-!
# The numbers that binary64 holds

`Holds` ties a float to the rational number that it stands for, where that is zero or normal. Floats
are compared as these numbers are (`Holds.le_iff`), words of up to 53 bits are held exactly
(`holds_toFloat`), and a product is held up to rounding to the nearest number of 53 bits
(`Holds.mul`, `NearestOn`).
-/

namespace Superpose.Binary64

open Float.Model Float.Model.UnpackedFloat

/-! ## Packing -/

theorem unpack_pack_zero (s : Sign) : (Float.Model.pack (.zero s)).unpack = .zero s := by
  cases s <;> rfl

/-- A normal number is packed without loss. -/
theorem unpack_pack_normal (s : Sign) {m : Nat} {e : Int} (hpos : 0 < m) (h : Normal m e) :
    (Float.Model.pack (.finite s m e hpos)).unpack = .finite s m e hpos := by
  obtain ⟨hlow, hhigh, hminimal, hmaximal⟩ := h
  have hlog := log2_eq hlow hhigh
  have hbits : Format.binary64.mantissaBits = 53 := rfl
  have hbias : (Format.binary64.exponentBias : Int) = 1023 := rfl
  have hbiased : (e + (Format.binary64.exponentBias : Int) + (52 : Nat)).toNat =
      (e + 1075).toNat := by
    rw [hbias]
    omega
  have hpacked : UnpackedFloat.pack .binary64 (.finite s m e hpos) =
      packComponents .binary64 s (BitVec.ofNat 11 (e + 1075).toNat) (BitVec.ofNat 52 m) := by
    simp only [UnpackedFloat.pack, hlog, hbiased]
    rw [if_neg (by omega), if_pos (by omega)]
  have hexponent : (BitVec.ofNat 11 (e + 1075).toNat).toNat = (e + 1075).toNat := by
    rw [BitVec.toNat_ofNat, Nat.mod_eq_of_lt (by omega)]
  have hmantissa : (1#1 ++ BitVec.ofNat 52 m).toNat = m := by
    rw [BitVec.toNat_append, ← Nat.shiftLeft_add_eq_or_of_lt (BitVec.isLt _), BitVec.toNat_ofNat,
      Nat.shiftLeft_eq, BitVec.toNat_ofNat]
    omega
  -- the exponent field is neither that of an infinite number nor that of a subnormal one
  have hlast : BitVec.ofNat 11 (e + 1075).toNat ≠ -1#11 := by
    intro heq
    have hvalue := congrArg BitVec.toNat heq
    rw [hexponent] at hvalue
    have hones : (-1#11).toNat = 2047 := rfl
    omega
  have hfirst : BitVec.ofNat 11 (e + 1075).toNat ≠ 0#11 := by
    intro heq
    have hvalue := congrArg BitVec.toNat heq
    rw [hexponent] at hvalue
    have hzeros : (0#11).toNat = 0 := rfl
    omega
  show UnpackedFloat.unpack .binary64 (UnpackedFloat.pack .binary64 (.finite s m e hpos)) = _
  rw [hpacked, UnpackedFloat.unpack]
  simp only [unpackExponent_packComponents, unpackMantissa_packComponents,
    unpackSign_packComponents, Sign.ofBitVec_toBitVec]
  rw [if_neg hlast, if_neg hfirst]
  congr 1
  rw [hexponent, hbias]
  omega

/-! ## The number that a float holds -/

/-- The number that a float stands for, if that is zero or normal. -/
inductive Holds (x : Float) : ℚ → Prop
  | zero (s : Sign) (h : x.toModel.unpack = .zero s) : Holds x 0
  | normal (s : Sign) {m : Nat} {e : Int} {hpos : 0 < m}
      (h : x.toModel.unpack = .finite s m e hpos) (hnormal : Normal m e) :
      Holds x ((s.apply m : Int) * 2 ^ e)

theorem holds_pack_normal (s : Sign) {m : Nat} {e : Int} (hpos : 0 < m) (h : Normal m e) :
    Holds ⟨Float.Model.pack (.finite s m e hpos)⟩ ((s.apply m : Int) * 2 ^ e) :=
  .normal s (unpack_pack_normal s hpos h) h

theorem Normal.value_pos {m : Nat} {e : Int} (h : Normal m e) : (0 : ℚ) < m * 2 ^ e :=
  mul_pos (by exact_mod_cast h.pos) (zpow_pos (by norm_num) e)

theorem apply_neg (s : Sign) (n : Int) : (-s).apply n = -s.apply n := by
  cases s
  · exact (Int.neg_neg n).symm
  · rfl

theorem apply_mul (s s' : Sign) (m n : Int) : (s * s').apply (m * n) = s.apply m * s'.apply n := by
  cases s <;> cases s'
  · exact (Int.neg_mul_neg m n).symm
  · exact (Int.neg_mul m n).symm
  · exact (Int.mul_neg m n).symm
  · rfl

theorem Holds.neg {x : Float} {p : ℚ} (h : Holds x p) : Holds (-x) (-p) := by
  have hneg : (-x).toModel.unpack = (Float.Model.pack x.toModel.unpack.neg).unpack := rfl
  cases h with
  | zero s h =>
    rw [h] at hneg
    rw [neg_zero]
    exact .zero (-s) (hneg.trans (unpack_pack_zero (-s)))
  | @normal s m e hpos h hnormal =>
    rw [h] at hneg
    rw [← neg_mul, ← Int.cast_neg, ← apply_neg]
    exact .normal (-s) (hneg.trans (unpack_pack_normal (-s) hpos hnormal)) hnormal

/-! ## Comparison -/

/-- Normal numbers are compared by exponent first. -/
theorem Normal.lt_of_exponent_lt {m₁ m₂ : Nat} {e₁ e₂ : Int} (h₁ : Normal m₁ e₁)
    (h₂ : Normal m₂ e₂) (h : e₁ < e₂) : (m₁ : ℚ) * 2 ^ e₁ < m₂ * 2 ^ e₂ := by
  have hhigh : (m₁ : ℚ) < 2 ^ 53 := by exact_mod_cast h₁.high
  have hlow : (2 : ℚ) ^ 52 ≤ m₂ := by exact_mod_cast h₂.low
  have hstep : (2 : ℚ) ^ (e₁ + 1) ≤ 2 ^ e₂ := zpow_le_zpow_right₀ (by norm_num) h
  calc (m₁ : ℚ) * 2 ^ e₁ < 2 ^ 53 * 2 ^ e₁ := mul_lt_mul_of_pos_right hhigh (by positivity)
    _ = 2 ^ 52 * 2 ^ (e₁ + 1) := by rw [zpow_add_one₀ (by norm_num)]; ring
    _ ≤ m₂ * 2 ^ e₂ := mul_le_mul hlow hstep (by positivity) (by positivity)

theorem isLE_compare_iff {m₁ m₂ : Nat} {e₁ e₂ : Int} (h₁ : Normal m₁ e₁) (h₂ : Normal m₂ e₂) :
    ((compare e₁ e₂).then (compare m₁ m₂)).isLE = true ↔ (m₁ : ℚ) * 2 ^ e₁ ≤ m₂ * 2 ^ e₂ := by
  rcases lt_trichotomy e₁ e₂ with hlt | rfl | hgt
  · rw [compare_lt_iff_lt.mpr hlt]
    exact iff_of_true rfl (le_of_lt (h₁.lt_of_exponent_lt h₂ hlt))
  · rw [compare_eq_iff_eq.mpr rfl, mul_le_mul_iff_left₀ (by positivity), Nat.cast_le]
    exact Nat.isLE_compare
  · rw [compare_gt_iff_gt.mpr hgt]
    exact iff_of_false Bool.false_ne_true (not_le_of_gt (h₂.lt_of_exponent_lt h₁ hgt))

/-- **Floats are compared as the numbers that they hold.** -/
theorem Holds.le_iff {x y : Float} {p q : ℚ} (hx : Holds x p) (hy : Holds y q) :
    x ≤ y ↔ p ≤ q := by
  have hle : x ≤ y ↔ x.toModel.unpack.le y.toModel.unpack = true := decide_eq_true_iff
  rw [hle]
  cases hx with
  | zero s h =>
    cases hy with
    | zero s' h' =>
      rw [h, h']
      exact iff_of_true rfl (le_refl 0)
    | normal s' h' hnormal' =>
      have hpos' := hnormal'.value_pos
      rw [h, h']
      cases s' with
      | positive => exact iff_of_true rfl (le_of_lt hpos')
      | negative =>
        refine iff_of_false Bool.false_ne_true (not_le_of_gt ?_)
        rw [Sign.apply, Int.cast_neg, neg_mul, neg_lt_zero]
        exact hpos'
  | @normal s m e _ h hnormal =>
    have hpos := hnormal.value_pos
    cases hy with
    | zero s' h' =>
      rw [h, h']
      cases s with
      | positive => exact iff_of_false Bool.false_ne_true (not_le_of_gt hpos)
      | negative =>
        refine iff_of_true rfl (le_of_lt ?_)
        rw [Sign.apply, Int.cast_neg, neg_mul, neg_lt_zero]
        exact hpos
    | @normal s' m' e' _ h' hnormal' =>
      have hpos' := hnormal'.value_pos
      rw [h, h']
      cases s with
      | positive =>
        cases s' with
        | positive => exact isLE_compare_iff hnormal hnormal'
        | negative =>
          refine iff_of_false Bool.false_ne_true (not_le_of_gt ?_)
          rw [Sign.apply, Int.cast_neg, neg_mul]
          exact lt_trans (neg_lt_zero.mpr hpos') hpos
      | negative =>
        cases s' with
        | positive =>
          refine iff_of_true rfl (le_of_lt ?_)
          rw [Sign.apply, Int.cast_neg, neg_mul]
          exact lt_trans (neg_lt_zero.mpr hpos) hpos'
        | negative =>
          rw [Sign.apply, Sign.apply, Int.cast_neg, Int.cast_neg, neg_mul, neg_mul, neg_le_neg_iff]
          show (((compare e e').then (compare m m')).swap).isLE = true ↔ _
          rw [Ordering.swap_then, Int.compare_swap, Nat.compare_swap]
          exact isLE_compare_iff hnormal' hnormal

/-! ## Nearest numbers -/

/-- Of the multiples of `2 ^ t`, the number `r` is the nearest to `z`: none stands between them
unless it is half a unit away from `z`. -/
def NearestOn (t : Int) (z r : ℚ) : Prop :=
  ∀ k : Int, (z < (k + 1 / 2) * 2 ^ t → r ≤ k * 2 ^ t) ∧ ((k - 1 / 2) * 2 ^ t < z → k * 2 ^ t ≤ r)

theorem NearestOn.neg {t : Int} {z r : ℚ} (h : NearestOn t z r) : NearestOn t (-z) (-r) := by
  intro k
  obtain ⟨hbelow, habove⟩ := h (-k)
  rw [Int.cast_neg] at hbelow habove
  constructor
  · intro hz
    have hr := habove (by linarith)
    linarith
  · intro hz
    have hr := hbelow (by linarith)
    linarith

/-- The multiples of a unit are multiples of every smaller one. -/
theorem exists_mul_zpow {t u : Int} (htu : t ≤ u) (k : Int) :
    ∃ q : Int, (k * 2 ^ u : ℚ) = q * 2 ^ t := by
  refine ⟨k * 2 ^ (u - t).toNat, ?_⟩
  push_cast
  rw [mul_assoc, ← zpow_natCast, ← zpow_add₀ (by norm_num), Int.toNat_of_nonneg (by omega),
    Int.sub_add_cancel]

/-- **A rounding keeps the order** to the multiples of its unit, or of a larger one. -/
theorem NearestOn.compare_mul {t u : Int} {z r : ℚ} (h : NearestOn t z r) (htu : t ≤ u) (k : Int) :
    (z ≤ k * 2 ^ u → r ≤ k * 2 ^ u) ∧ (k * 2 ^ u ≤ z → k * 2 ^ u ≤ r) := by
  have hunit : (0 : ℚ) < 2 ^ t := zpow_pos (by norm_num) t
  obtain ⟨q, hgrid⟩ := exists_mul_zpow htu k
  rw [hgrid]
  exact ⟨fun hz => (h q).1 (by linarith), fun hz => (h q).2 (by linarith)⟩

/-- A rounding with a fractional unit keeps the order to the integers that are half a unit away. -/
theorem NearestOn.compare_intCast {t : Int} {z r : ℚ} (h : NearestOn t z r) (ht : t ≤ 0) (k : Int) :
    (z < k + 1 / 2 * 2 ^ t → r ≤ k) ∧ (k + 1 / 2 * 2 ^ t < z → k < r) := by
  have hunit : (0 : ℚ) < 2 ^ t := zpow_pos (by norm_num) t
  obtain ⟨q, hgrid⟩ := exists_mul_zpow ht k
  rw [zpow_zero, mul_one] at hgrid
  rw [hgrid]
  constructor
  · intro hz
    exact (h q).1 (by linarith)
  · intro hz
    have hnext := (h (q + 1)).2 (by push_cast; linarith)
    push_cast at hnext
    linarith

/-- A number on the grid of its own rounding is held exactly. -/
theorem NearestOn.eq_of_mul {t : Int} {k : Int} {r : ℚ} (h : NearestOn t (k * 2 ^ t) r) :
    r = k * 2 ^ t := by
  obtain ⟨hbelow, habove⟩ := h.compare_mul (le_refl t) k
  exact le_antisymm (hbelow (le_refl _)) (habove (le_refl _))

/-- A rounded mantissa is the nearest one. -/
theorem Divided.nearestOn {m d n : Nat} {em : ExtendedMantissa} (hd : 0 < d)
    (h : Divided m (d * 2 ^ n) em) (e : Int) :
    NearestOn (e + n) (m / d * 2 ^ e) (em.roundedMantissa * 2 ^ (e + n)) := by
  have hunit : (2 : ℚ) ^ (e + n) = 2 ^ n * 2 ^ e := by
    rw [zpow_add₀ (by norm_num), zpow_natCast, mul_comm]
  have hpos : (0 : ℚ) < 2 ^ e := zpow_pos (by norm_num) e
  have hdenominator : (0 : ℚ) < d := by exact_mod_cast hd
  have hsize : 0 < d * 2 ^ n := Nat.mul_pos hd (Nat.two_pow_pos n)
  intro k
  rw [hunit, ← mul_assoc, ← mul_assoc, ← mul_assoc, ← mul_assoc]
  rw [mul_lt_mul_iff_left₀ hpos, mul_lt_mul_iff_left₀ hpos, mul_le_mul_iff_left₀ hpos,
    mul_le_mul_iff_left₀ hpos, mul_le_mul_iff_left₀ (by positivity),
    mul_le_mul_iff_left₀ (by positivity), div_lt_iff₀ hdenominator, lt_div_iff₀ hdenominator]
  constructor
  · intro hz
    have hk : 0 ≤ k := by
      by_contra hneg
      have hle : (k : ℚ) ≤ -1 := by exact_mod_cast Int.le_sub_one_of_lt (not_le.mp hneg)
      have hm : (0 : ℚ) ≤ m := Nat.cast_nonneg m
      have hunits : (0 : ℚ) < 2 ^ n * d := by positivity
      nlinarith
    obtain ⟨q, rfl⟩ := Int.eq_ofNat_of_zero_le hk
    rw [Int.cast_natCast] at hz ⊢
    have hq : (2 * m : ℚ) < 2 * (d * 2 ^ n * q) + d * 2 ^ n := by linarith
    exact_mod_cast h.roundedMantissa_le hsize (by exact_mod_cast hq)
  · intro hz
    by_cases hk : k ≤ 0
    · exact le_trans (by exact_mod_cast hk) (Nat.cast_nonneg _)
    · obtain ⟨q, rfl⟩ : ∃ q : Nat, k = q + 1 := ⟨(k - 1).toNat, by omega⟩
      push_cast at hz ⊢
      have hq : 2 * (d * 2 ^ n * q) + d * 2 ^ n < (2 * m : ℚ) := by linarith
      exact_mod_cast Nat.succ_le_of_lt (h.lt_roundedMantissa hsize (by exact_mod_cast hq))

/-! ## Roundings -/

/-- A fraction whose whole part has 53 bits or more is rounded to the nearest number of 53 bits, and
packed. -/
theorem exists_holds_round (s : Sign) {m d : Nat} {e : Int} (hd : 0 < d) (hm : 52 ≤ (m / d).log2)
    (hlow : -1074 ≤ e + ((m / d).log2 - 52 : Nat)) (hhigh : e + ((m / d).log2 - 52 : Nat) ≤ 970) :
    ∃ r, Holds ⟨Float.Model.pack
        (roundWithAccuracy .binary64 s (m / d) e (accuracyOfFraction (m % d) d))⟩ r ∧
      NearestOn (e + ((m / d).log2 - 52 : Nat)) ((s.apply m : Int) / d * 2 ^ e) r := by
  obtain ⟨r, e', hpos, hround, hnormal, hvalue⟩ := exists_roundWithAccuracy_eq s hd hm hlow hhigh
  have hnearest := (divided_shift (m := m) hd ((m / d).log2 - 52)).nearestOn hd e
  rw [← hvalue] at hnearest
  refine ⟨(s.apply r : Int) * 2 ^ e', ?_, ?_⟩
  · rw [hround]
    exact holds_pack_normal s hpos hnormal
  · cases s with
    | positive => exact hnearest
    | negative =>
      rw [Sign.apply, Sign.apply, Int.cast_neg, Int.cast_neg, neg_div, neg_mul, neg_mul]
      exact hnearest.neg

/-- The size of a fraction in powers of two. -/
theorem log2_bounds {m d : Nat} (hd : 0 < d) (hm : m / d ≠ 0) (k : Int) :
    (2 : ℚ) ^ (k + (m / d).log2) ≤ m / d * 2 ^ k ∧
      (m / d * 2 ^ k : ℚ) < 2 ^ (k + (m / d).log2 + 1) := by
  have hunit : (0 : ℚ) < 2 ^ k := zpow_pos (by norm_num) k
  have hdenominator : (0 : ℚ) < d := by exact_mod_cast hd
  have hlow : d * 2 ^ (m / d).log2 ≤ m :=
    (Nat.mul_le_mul_left d (Nat.log2_self_le hm)).trans (Nat.mul_div_le m d)
  have hhigh : m < d * 2 ^ ((m / d).log2 + 1) :=
    (Nat.lt_mul_div_succ m hd).trans_le (Nat.mul_le_mul_left d Nat.lt_log2_self)
  generalize (m / d).log2 = n at hlow hhigh ⊢
  constructor
  · rw [zpow_add₀ (by norm_num), zpow_natCast, mul_comm]
    refine mul_le_mul_of_nonneg_right ?_ (le_of_lt hunit)
    rw [le_div_iff₀' hdenominator]
    exact_mod_cast hlow
  · rw [add_assoc, zpow_add₀ (by norm_num), mul_comm (2 ^ k), ← Nat.cast_succ, zpow_natCast]
    refine mul_lt_mul_of_pos_right ?_ hunit
    rw [div_lt_iff₀' hdenominator]
    exact_mod_cast hhigh

theorem abs_apply_div_mul (s : Sign) (m d : Nat) (k : Int) :
    |((s.apply m : Int) : ℚ) / d * 2 ^ k| = m / d * 2 ^ k := by
  have hvalue : (0 : ℚ) ≤ m / d * 2 ^ k := by positivity
  cases s with
  | positive => exact abs_of_nonneg hvalue
  | negative =>
    rw [Sign.apply, Int.cast_neg, neg_div, neg_mul, abs_neg]
    exact abs_of_nonneg hvalue

/-- Such a fraction is rounded at the bit that its size tells, if it is neither extremely small nor
extremely large. -/
theorem exists_holds_of_size (s : Sign) {m d : Nat} {k : Int} (hd : 0 < d)
    (hm : 52 ≤ (m / d).log2) (hlow : (2 : ℚ) ^ (-1021 : Int) ≤ m / d * 2 ^ k)
    (hhigh : (m : ℚ) / d * 2 ^ k < 2 ^ (1022 : Int)) :
    ∃ r t, Holds ⟨Float.Model.pack
        (roundWithAccuracy .binary64 s (m / d) k (accuracyOfFraction (m % d) d))⟩ r ∧
      (2 : ℚ) ^ (t + 52 : Int) ≤ m / d * 2 ^ k ∧ (m : ℚ) / d * 2 ^ k < 2 ^ (t + 53 : Int) ∧
      NearestOn t ((s.apply m : Int) / d * 2 ^ k) r := by
  have hne : m / d ≠ 0 := by
    intro hzero
    rw [hzero] at hm
    exact absurd hm (by decide)
  obtain ⟨hbelow, habove⟩ := log2_bounds hd hne k
  have hminimal : (-1021 : Int) < k + (m / d).log2 + 1 :=
    (zpow_lt_zpow_iff_right₀ (by norm_num)).mp (lt_of_le_of_lt hlow habove)
  have hmaximal : k + (m / d).log2 < (1022 : Int) :=
    (zpow_lt_zpow_iff_right₀ (by norm_num)).mp (lt_of_le_of_lt hbelow hhigh)
  obtain ⟨r, hr, hnearest⟩ := exists_holds_round s hd hm (e := k) (by omega) (by omega)
  refine ⟨r, _, hr, ?_, ?_, hnearest⟩
  · convert hbelow using 2
    omega
  · convert habove using 2
    omega

/-- A whole number is a fraction of which nothing is cut off. -/
theorem whole_eq (s : Sign) (m : Nat) (e : Int) :
    roundWithAccuracy .binary64 s (m / 1) e (accuracyOfFraction (m % 1) 1) =
      roundWithAccuracy .binary64 s m e .exact := by
  rw [Nat.div_one, Nat.mod_one]
  rfl

/-! ## Words -/

theorem log2_shiftLeft {n : Nat} (hn : n ≠ 0) (d : Nat) : (n <<< d).log2 = n.log2 + d := by
  induction d with
  | zero => rfl
  | succ d ih =>
    have hne : n <<< d ≠ 0 := mt Nat.shiftLeft_eq_zero_iff.mp hn
    rw [Nat.shiftLeft_succ, Nat.log2_two_mul hne, ih, Nat.add_assoc]

/-- A whole number is shifted to the left until it has 53 bits at least. -/
theorem normalize_eq {n : Nat} (hn : n ≠ 0) :
    UnpackedFloat.normalize .binary64 n 0 .positive =
      roundWithAccuracy .binary64 .positive (n <<< (52 - n.log2)) (-(52 - n.log2 : Nat))
        .exact := by
  have hbits : ((Format.binary64.mantissaBits : Nat) : Int) = 53 := rfl
  have hmin : Format.binary64.minExponent = -1074 := rfl
  have htarget : Format.binary64.targetExponent (totalExponent n 0) = n.log2 - 52 := by
    rw [Format.targetExponent, totalExponent, hbits, hmin]
    omega
  have hamount : (0 - ((n.log2 : Int) - 52)).toNat = 52 - n.log2 := by omega
  have hcompare : compare (n : Int) 0 = .gt := compare_gt_iff_gt.mpr (by omega)
  simp only [UnpackedFloat.normalize, hcompare, UnpackedFloat.round, Int.toNat_natCast, htarget,
    decreaseExponent, hamount]
  rw [Int.zero_sub]

/-- The float nearest to a word. -/
theorem toFloat_eq (n : UInt64) :
    n.toFloat = ⟨Float.Model.pack (UnpackedFloat.normalize .binary64 n.toNat 0 .positive)⟩ := rfl

/-- **Words of up to 53 bits are held exactly.** -/
theorem holds_toFloat {n : UInt64} (h : n.toNat < 2 ^ 53) : Holds n.toFloat n.toNat := by
  rw [toFloat_eq]
  generalize n.toNat = n at h
  by_cases hn : n = 0
  · rw [hn]
    exact .zero .positive rfl
  · have hlog : n.log2 < 53 := (Nat.log2_lt hn).mpr h
    have hround := normalize_eq hn
    obtain ⟨d, hd⟩ : ∃ d, 52 - n.log2 = d := ⟨_, rfl⟩
    rw [hd] at hround
    have hshifted : (n <<< d / 1).log2 = 52 := by
      rw [Nat.div_one, log2_shiftLeft hn]
      omega
    obtain ⟨r, hr, hnearest⟩ := exists_holds_round .positive (m := n <<< d) (e := -d) Nat.one_pos
      (by omega) (by omega) (by omega)
    rw [whole_eq, ← hround] at hr
    -- nothing is shifted out again, so the rounding is exact
    have hzero : ((n <<< d / 1).log2 - 52 : Nat) = 0 := by omega
    rw [hzero, Int.natCast_zero, Int.add_zero, Nat.cast_one, div_one] at hnearest
    have hvalue := hnearest.eq_of_mul
    have hsame : r = n := by
      rw [hvalue, Sign.apply, Nat.shiftLeft_eq]
      push_cast
      rw [mul_assoc, ← zpow_natCast, ← zpow_add₀ (by norm_num), add_neg_cancel, zpow_zero, mul_one]
    rwa [hsame] at hr

/-- A longer word is held by a number that is long as well. -/
theorem exists_holds_toFloat {n : UInt64} (h : 2 ^ 53 ≤ n.toNat) :
    ∃ r, Holds n.toFloat r ∧ 2 ^ 53 ≤ r ∧ r ≤ 2 ^ 64 := by
  have hhigh : n.toNat < 2 ^ 64 := n.toNat_lt
  rw [toFloat_eq]
  generalize n.toNat = n at h hhigh
  have hn : n ≠ 0 := by omega
  have hlow : 53 ≤ n.log2 := (Nat.le_log2 hn).mpr h
  have hlog : n.log2 < 64 := (Nat.log2_lt hn).mpr hhigh
  have hround := normalize_eq hn
  rw [Nat.sub_eq_zero_of_le (by omega), Nat.shiftLeft_zero, Int.natCast_zero, Int.neg_zero]
    at hround
  obtain ⟨r, hr, hnearest⟩ := exists_holds_round .positive (m := n) (e := 0) Nat.one_pos
    (by rw [Nat.div_one]; omega) (by rw [Nat.div_one]; omega) (by rw [Nat.div_one]; omega)
  rw [whole_eq, ← hround] at hr
  rw [Nat.div_one, Nat.cast_one, div_one, zpow_zero, mul_one, Sign.apply, Int.cast_natCast]
    at hnearest
  have hbelow := (hnearest.compare_mul (u := 53) (by omega) 1).2
  have habove := (hnearest.compare_mul (u := 64) (by omega) 1).1
  rw [Int.cast_one, one_mul] at hbelow habove
  exact ⟨r, hr, hbelow (by exact_mod_cast h), habove (by exact_mod_cast hhigh.le)⟩

/-! ## Products -/

theorem Holds.exists_normal {x : Float} {p : ℚ} (h : Holds x p) (hp : p ≠ 0) :
    ∃ s m e, ∃ hpos : 0 < m, x.toModel.unpack = .finite s m e hpos ∧ Normal m e ∧
      p = (s.apply m : Int) * 2 ^ e := by
  cases h with
  | zero => exact absurd rfl hp
  | normal s h hnormal => exact ⟨s, _, _, _, h, hnormal, rfl⟩

/-- **A product is held up to rounding**, unless it is extremely small or large. -/
theorem Holds.mul {x y : Float} {p q : ℚ} (hx : Holds x p) (hy : Holds y q)
    (hlow : (2 : ℚ) ^ (-1021 : Int) ≤ |p * q|) (hhigh : |p * q| < 2 ^ (1022 : Int)) :
    ∃ r t, Holds (x * y) r ∧ (2 : ℚ) ^ (t + 52 : Int) ≤ |p * q| ∧
      |p * q| < 2 ^ (t + 53 : Int) ∧ NearestOn t (p * q) r := by
  have hne : p * q ≠ 0 := by
    intro hzero
    rw [hzero, abs_zero] at hlow
    exact absurd hlow (not_le_of_gt (zpow_pos (by norm_num) _))
  obtain ⟨s, m, e, hpos, hunpack, hnormal, rfl⟩ := hx.exists_normal (left_ne_zero_of_mul hne)
  obtain ⟨s', m', e', hpos', hunpack', hnormal', rfl⟩ :=
    hy.exists_normal (right_ne_zero_of_mul hne)
  have hmul : x * y =
      ⟨Float.Model.pack (roundWithAccuracy .binary64 (s * s') (m * m') (e + e') .exact)⟩ := by
    show Float.ofModel (Float.Model.pack (UnpackedFloat.mul .binary64 _ _)) = _
    rw [hunpack, hunpack']
    rfl
  have hproduct : ((s.apply m : Int) * 2 ^ e : ℚ) * ((s'.apply m' : Int) * 2 ^ e') =
      ((s * s').apply (m * m' : Nat) : Int) / (1 : Nat) * 2 ^ (e + e') := by
    rw [Nat.cast_mul, apply_mul, Nat.cast_one, div_one, zpow_add₀ (by norm_num)]
    push_cast
    ring
  have hlarge : 2 ^ 52 ≤ m * m' := hnormal.low.trans (Nat.le_mul_of_pos_right m hpos')
  have hlog : 52 ≤ (m * m' / 1).log2 := by
    rw [Nat.div_one]
    exact (Nat.le_log2 (by omega)).mpr hlarge
  rw [hproduct, abs_apply_div_mul] at hlow hhigh
  rw [hproduct, abs_apply_div_mul, hmul, ← whole_eq]
  exact exists_holds_of_size (s * s') Nat.one_pos hlog hlow hhigh

end Superpose.Binary64
