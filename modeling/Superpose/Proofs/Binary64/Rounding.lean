import Mathlib

/-!
# Rounding to binary64

A result is rounded from a mantissa that has 53 bits at least: a whole product, or the whole part of
a quotient. The mantissa is shifted to the right until 53 bits are left, and what it loses in this
comes down to two bits. `Divided` says what these two know. The rounded mantissa is then the nearest
one: it is at most `q` if the exact one lies below the middle between `q` and `q + 1`, and above `q`
if it lies above (`roundedMantissa_le`, `lt_roundedMantissa`). Rounding gives a `Normal` number,
unless the exponent is extreme (`exists_roundWithAccuracy_eq`).
-/

namespace Superpose.Binary64

open Float.Model Float.Model.UnpackedFloat

/-! ## Shifts -/

/-- A mantissa after so many shifts to the right, with what it knows of the bits shifted out. -/
def shift (m : Nat) (a : Accuracy) (n : Nat) : ExtendedMantissa :=
  ExtendedMantissa.ofMantissaAndAccuracy m a >>> n

/-- What is left of the fraction `m / d` in a mantissa: the whole part, a round bit that tells
whether half a unit at least was cut off, and a sticky bit that tells whether anything else was. -/
structure Divided (m d : Nat) (em : ExtendedMantissa) : Prop where
  mantissa : em.mantissa = m / d
  roundBit : em.roundBit = decide (d ≤ 2 * (m % d))
  stickyBit : em.stickyBit = decide (2 * (m % d) % d ≠ 0)

section Divided

variable {m d : Nat} (hd : 0 < d)

include hd

theorem divided_shift_zero : Divided m d (shift (m / d) (accuracyOfFraction (m % d) d) 0) := by
  have hrest : m % d < d := Nat.mod_lt m hd
  unfold accuracyOfFraction
  split
  · next hnone =>
    refine ⟨rfl, ?_, ?_⟩
    · exact (decide_eq_false (by omega)).symm
    · exact (decide_eq_false (not_not.mpr (by rw [hnone, Nat.mul_zero, Nat.zero_mod]))).symm
  · next hsome =>
    rcases Nat.lt_trichotomy (2 * (m % d)) d with hlt | heq | hgt
    · have hsticky : 2 * (m % d) % d ≠ 0 := by
        rw [Nat.mod_eq_of_lt hlt]
        omega
      rw [Nat.compare_eq_lt.mpr hlt]
      exact ⟨rfl, (decide_eq_false (by omega)).symm, (decide_eq_true hsticky).symm⟩
    · have hsticky : ¬ 2 * (m % d) % d ≠ 0 := by
        rw [heq, Nat.mod_self, not_not]
      rw [Nat.compare_eq_eq.mpr heq]
      exact ⟨rfl, (decide_eq_true (by omega)).symm, (decide_eq_false hsticky).symm⟩
    · have hsticky : 2 * (m % d) % d ≠ 0 := by
        rw [Nat.mod_eq_sub_mod (by omega), Nat.mod_eq_of_lt (by omega)]
        omega
      rw [Nat.compare_eq_gt.mpr hgt]
      exact ⟨rfl, (decide_eq_true (by omega)).symm, (decide_eq_true hsticky).symm⟩

theorem Divided.shiftRightOne {em : ExtendedMantissa} (h : Divided m d em) :
    Divided m (d * 2) em.shiftRightOne := by
  have hrest : m % d < d := Nat.mod_lt m hd
  have hbit : m / d % 2 < 2 := Nat.mod_lt _ (by decide)
  -- what is cut off by one more shift begins with the lowest bit that was left
  have hsplit : m % (d * 2) = m % d + d * (m / d % 2) := Nat.mod_mul
  have hhalf : 2 * (m % (d * 2)) % (d * 2) = 2 * (m % d) := by
    rw [hsplit, Nat.mul_add, Nat.mul_comm d 2, ← Nat.mul_assoc,
      Nat.add_mul_mod_self_left, Nat.mod_eq_of_lt (by omega)]
  refine ⟨?_, ?_, ?_⟩
  · rw [ExtendedMantissa.shiftRightOne, h.mantissa, Nat.div_div_eq_div_mul]
  · rw [ExtendedMantissa.shiftRightOne, h.mantissa, hsplit, Bool.eq_iff_iff]
    rw [bne_iff_ne, decide_eq_true_iff]
    rcases Nat.lt_succ_iff_lt_or_eq.mp hbit with hzero | hone
    · rw [Nat.lt_one_iff.mp hzero]
      omega
    · rw [hone]
      omega
  · rw [ExtendedMantissa.shiftRightOne, h.roundBit, h.stickyBit, hhalf, Bool.eq_iff_iff]
    rw [Bool.or_eq_true, decide_eq_true_iff, decide_eq_true_iff, decide_eq_true_iff]
    constructor
    · rintro (hround | hsticky) hnone
      · omega
      · exact hsticky (by rw [hnone, Nat.zero_mod])
    · intro hsome
      by_cases hround : d ≤ 2 * (m % d)
      · exact Or.inl hround
      · exact Or.inr (by rwa [Nat.mod_eq_of_lt (by omega)])

theorem divided_shift (n : Nat) :
    Divided m (d * 2 ^ n) (shift (m / d) (accuracyOfFraction (m % d) d) n) := by
  induction n with
  | zero =>
    rw [Nat.pow_zero, Nat.mul_one]
    exact divided_shift_zero hd
  | succ n ih =>
    rw [Nat.pow_succ, ← Nat.mul_assoc]
    exact ih.shiftRightOne (Nat.mul_pos hd (Nat.two_pow_pos n))

end Divided

/-! ## The nearest mantissa -/

section Nearest

variable {m d : Nat} {em : ExtendedMantissa} (hd : 0 < d) (h : Divided m d em)

include hd h

/-- Rounding is down if less than half a unit was cut off, and up if more was. -/
theorem Divided.rounded_cases :
    (2 * (m % d) < d ∧ em.roundedMantissa = m / d) ∨
      (2 * (m % d) = d ∧ m / d ≤ em.roundedMantissa ∧
        em.roundedMantissa ≤ m / d + 1) ∨
      (d < 2 * (m % d) ∧ em.roundedMantissa = m / d + 1) := by
  have hrest : m % d < d := Nat.mod_lt m hd
  obtain ⟨mantissa, roundBit, stickyBit⟩ := em
  have hmantissa : mantissa = m / d := h.mantissa
  cases hround : roundBit with
  | false =>
    have hlt : ¬ d ≤ 2 * (m % d) := of_decide_eq_false (h.roundBit.symm.trans hround)
    refine Or.inl ⟨Nat.lt_of_not_le hlt, ?_⟩
    cases stickyBit <;> exact hmantissa
  | true =>
    have hle : d ≤ 2 * (m % d) := of_decide_eq_true (h.roundBit.symm.trans hround)
    have hmod : 2 * (m % d) % d = 2 * (m % d) - d := by
      rw [Nat.mod_eq_sub_mod hle, Nat.mod_eq_of_lt (by omega)]
    have hbit := h.stickyBit
    rw [hmod] at hbit
    cases hsticky : stickyBit with
    | false =>
      have hnone := of_decide_eq_false (hbit.symm.trans hsticky)
      have hbound : mantissa % 2 < 2 := Nat.mod_lt _ (by decide)
      refine Or.inr (Or.inl ⟨by omega, ?_⟩)
      show m / d ≤ mantissa + mantissa % 2 ∧ mantissa + mantissa % 2 ≤ m / d + 1
      omega
    | true =>
      have hsome := of_decide_eq_true (hbit.symm.trans hsticky)
      exact Or.inr (Or.inr ⟨by omega, congrArg (· + 1) hmantissa⟩)

theorem Divided.roundedMantissa_le {q : Nat} (hq : 2 * m < 2 * (d * q) + d) :
    em.roundedMantissa ≤ q := by
  have hdivision := Nat.div_add_mod m d
  have hle : m / d ≤ q := by
    refine Nat.le_of_not_lt fun hlt => ?_
    have hmul : d * (q + 1) ≤ d * (m / d) := Nat.mul_le_mul_left _ hlt
    rw [Nat.mul_add, Nat.mul_one] at hmul
    omega
  rcases Nat.eq_or_lt_of_le hle with heq | hlt
  · rw [heq] at hdivision
    rcases h.rounded_cases hd with ⟨-, hr⟩ | ⟨hhalf, -, -⟩ | ⟨hhalf, -⟩ <;> omega
  · rcases h.rounded_cases hd with ⟨-, hr⟩ | ⟨-, -, hr⟩ | ⟨-, hr⟩ <;> omega

theorem Divided.lt_roundedMantissa {q : Nat} (hq : 2 * (d * q) + d < 2 * m) :
    q < em.roundedMantissa := by
  have hdivision := Nat.div_add_mod m d
  have hrest : m % d < d := Nat.mod_lt m hd
  have hle : q ≤ m / d := by
    refine Nat.le_of_not_lt fun hlt => ?_
    have hmul : d * (m / d + 1) ≤ d * q := Nat.mul_le_mul_left _ hlt
    rw [Nat.mul_add, Nat.mul_one] at hmul
    omega
  rcases Nat.eq_or_lt_of_le hle with heq | hlt
  · rw [← heq] at hdivision
    rcases h.rounded_cases hd with ⟨hhalf, -⟩ | ⟨hhalf, -, -⟩ | ⟨-, hr⟩ <;> omega
  · rcases h.rounded_cases hd with ⟨-, hr⟩ | ⟨-, hr, -⟩ | ⟨-, hr⟩ <;> omega

end Nearest

/-! ## Normal numbers -/

/-- The mantissa and the exponent of a normal number. -/
structure Normal (m : Nat) (e : Int) : Prop where
  low : 2 ^ 52 ≤ m
  high : m < 2 ^ 53
  minimal : -1074 ≤ e
  maximal : e ≤ 971

theorem Normal.pos {m : Nat} {e : Int} (h : Normal m e) : 0 < m :=
  Nat.lt_of_lt_of_le (by decide) h.low

theorem log2_eq {m : Nat} (hlow : 2 ^ 52 ≤ m) (hhigh : m < 2 ^ 53) : m.log2 = 52 :=
  (Nat.log2_eq_iff (by omega)).mpr ⟨hlow, hhigh⟩

theorem shiftToTargetExponent_eq {m : Nat} {e : Int} (a : Accuracy) (hm : 52 ≤ m.log2)
    (he : -1074 ≤ e + (m.log2 - 52 : Nat)) :
    shiftToTargetExponent .binary64 m e a =
      (shift m a (m.log2 - 52), e + (m.log2 - 52 : Nat)) := by
  have hbits : ((Format.binary64.mantissaBits : Nat) : Int) = 53 := rfl
  have hmin : Format.binary64.minExponent = -1074 := rfl
  have htarget : Format.binary64.targetExponent (totalExponent m e) =
      e + (m.log2 - 52 : Nat) := by
    rw [Format.targetExponent, totalExponent, hbits, hmin]
    omega
  have hamount : (e + (m.log2 - 52 : Nat) - e).toNat = m.log2 - 52 := by omega
  unfold shiftToTargetExponent
  simp only [htarget, shiftToExponent, hamount]
  rfl

/-- A whole part of 53 bits or more tells the size of a fraction. -/
theorem mul_two_pow_log2_le {m d : Nat} (hd : 0 < d) (hm : 52 ≤ (m / d).log2) :
    d * 2 ^ ((m / d).log2 - 52) * 2 ^ 52 ≤ m ∧ m < d * 2 ^ ((m / d).log2 - 52) * 2 ^ 53 := by
  have hne : m / d ≠ 0 := by
    intro hzero
    rw [hzero] at hm
    exact absurd hm (by decide)
  have hbelow : d * 2 ^ (m / d).log2 ≤ d * (m / d) :=
    Nat.mul_le_mul_left d (Nat.log2_self_le hne)
  have habove : d * (m / d + 1) ≤ d * 2 ^ ((m / d).log2 + 1) :=
    Nat.mul_le_mul_left d Nat.lt_log2_self
  rw [Nat.mul_assoc, Nat.mul_assoc, ← Nat.pow_add, ← Nat.pow_add, Nat.sub_add_cancel hm,
    show (m / d).log2 - 52 + 53 = (m / d).log2 + 1 by omega]
  exact ⟨hbelow.trans (Nat.mul_div_le m d), (Nat.lt_mul_div_succ m hd).trans_le habove⟩

/-- **A fraction whose whole part has 53 bits or more is rounded to a normal number**, and the
exponent makes up for the bits that were shifted out. -/
theorem exists_roundWithAccuracy_eq (s : Sign) {m d : Nat} {e : Int} (hd : 0 < d)
    (hm : 52 ≤ (m / d).log2) (hlow : -1074 ≤ e + ((m / d).log2 - 52 : Nat))
    (hhigh : e + ((m / d).log2 - 52 : Nat) ≤ 970) :
    ∃ r e' h, roundWithAccuracy .binary64 s (m / d) e (accuracyOfFraction (m % d) d) =
        .finite s r e' h ∧ Normal r e' ∧ (r : ℚ) * 2 ^ e' =
          (shift (m / d) (accuracyOfFraction (m % d) d) ((m / d).log2 - 52)).roundedMantissa *
            2 ^ (e + ((m / d).log2 - 52 : Nat)) := by
  have hshifted := divided_shift (m := m) hd ((m / d).log2 - 52)
  have hround := shiftToTargetExponent_eq (accuracyOfFraction (m % d) d) hm hlow
  have hpos : 0 < d * 2 ^ ((m / d).log2 - 52) := Nat.mul_pos hd (Nat.two_pow_pos _)
  obtain ⟨hbelow, habove⟩ := mul_two_pow_log2_le hd hm
  generalize shift (m / d) (accuracyOfFraction (m % d) d) ((m / d).log2 - 52) = rounded
    at hshifted hround ⊢
  generalize hk : e + ((m / d).log2 - 52 : Nat) = k at hlow hhigh hround
  generalize d * 2 ^ ((m / d).log2 - 52) = D at hshifted hpos hbelow habove
  have hrlow : 2 ^ 52 - 1 < rounded.roundedMantissa := hshifted.lt_roundedMantissa hpos (by omega)
  have hrhigh : rounded.roundedMantissa ≤ 2 ^ 53 := hshifted.roundedMantissa_le hpos (by omega)
  rcases Nat.eq_or_lt_of_le hrhigh with hcarry | hrhigh
  · -- the mantissa has been rounded up to one bit more, and is shifted once more
    have hlog : (2 ^ 53 : Nat).log2 = 53 := Nat.log2_two_pow
    have hagain : shiftToTargetExponent .binary64 (2 ^ 53) k .exact =
        (shift (2 ^ 53) .exact 1, k + 1) := by
      rw [shiftToTargetExponent_eq .exact (by omega) (by omega), hlog]
      rfl
    refine ⟨2 ^ 52, k + 1, by decide, ?_, ⟨by omega, by omega, by omega, by omega⟩, ?_⟩
    · simp only [roundWithAccuracy, hround, hcarry, hagain]
      rfl
    · rw [hcarry, zpow_add_one₀ (by decide)]
      push_cast
      ring
  · have hlog : rounded.roundedMantissa.log2 = 52 := log2_eq (by omega) hrhigh
    have hagain : shiftToTargetExponent .binary64 rounded.roundedMantissa k .exact =
        (shift rounded.roundedMantissa .exact 0, k) := by
      rw [shiftToTargetExponent_eq .exact (by omega) (by omega), hlog]
      exact congrArg (Prod.mk _) (Int.add_zero k)
    have hrpos : 0 < rounded.roundedMantissa := by omega
    refine ⟨rounded.roundedMantissa, k, hrpos, ?_, ⟨by omega, hrhigh, hlow, by omega⟩, rfl⟩
    simp only [roundWithAccuracy, hround, hagain]
    exact dif_neg (Nat.ne_of_gt hrpos)

end Superpose.Binary64
