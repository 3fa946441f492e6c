import Superpose.Choice.Speculation
import Superpose.Proofs.Binary64.Holding
import Superpose.Proofs.Choice.Greatest

/-!
# When a guess falls

A guess is compared in binary64 with the other scores, through a product with a constant that
binary64 does not hold exactly. The rounding never matters: nine tenths of a score are a score or
miss one by a tenth at least, and the errors come to far less (`threshold_error`), so the test is
the exact one (`le_scoreFloat_iff`). Hence a speculative choice is the first result, unless
`Overturns` names another.
-/

namespace Superpose.Choice

open Binary64

/-! ## The threshold -/

/-- A score is held exactly. -/
theorem holds_scoreFloat (s : Int32) : Holds (scoreFloat s) s.toInt := by
  have hsize := natAbs_toInt_le s
  have hword : s.toInt.natAbs.toUInt64.toNat = s.toInt.natAbs := by
    rw [Nat.toUInt64_eq, UInt64.toNat_ofNat', Nat.mod_eq_of_lt (by omega)]
  have hheld : Holds s.toInt.natAbs.toUInt64.toFloat (s.toInt.natAbs : Nat) := by
    have h := holds_toFloat (n := s.toInt.natAbs.toUInt64) (by omega)
    rwa [hword] at h
  rw [scoreFloat]
  split
  · next hneg =>
    have hvalue : (s.toInt : ℚ) = -(s.toInt.natAbs : Nat) := by
      have hlt : s.toInt < 0 := Int32.lt_iff_toInt_lt.mp hneg
      rw [Nat.cast_natAbs, abs_of_neg hlt, Int.cast_neg, neg_neg]
    rw [hvalue]
    exact hheld.neg
  · next hnonneg =>
    have hvalue : (s.toInt : ℚ) = (s.toInt.natAbs : Nat) := by
      have hle : 0 ≤ s.toInt := not_lt.mp fun hlt => hnonneg (Int32.lt_iff_toInt_lt.mpr hlt)
      rw [Nat.cast_natAbs, abs_of_nonneg hle]
    rw [hvalue]
    exact hheld

/-- The number that binary64 holds for nine tenths. -/
def heldRatio : ℚ := 9 / 10 + 1 / (5 * 2 ^ 53)

theorem heldRatio_pos : 0 < heldRatio := by norm_num [heldRatio]

theorem holds_heldRatio : Holds 0.9 heldRatio := by
  have hnormal : Normal 8106479329266893 (-53) := ⟨by decide, by decide, by decide, by decide⟩
  have hunpack : (0.9 : Float).toModel.unpack =
      .finite .positive 8106479329266893 (-53) (by decide) := rfl
  have hheld : Holds 0.9 ((8106479329266893 : Int) * (2 : ℚ) ^ (-53 : Int)) :=
    .normal .positive hunpack hnormal
  have hvalue : heldRatio = (8106479329266893 : Int) * (2 : ℚ) ^ (-53 : Int) := by
    norm_num [heldRatio]
  rwa [hvalue]

/-- A threshold of a score is rounded at the 22nd binary place or behind it, and the constant is
wrong by less than a quarter of that place. -/
theorem threshold_error {t : Int} {g : Int} (hg : |(g : ℚ)| ≤ 2 ^ 31)
    (hlow : (2 : ℚ) ^ (t + 52) ≤ |g * heldRatio|) (hhigh : |g * heldRatio| < (2 : ℚ) ^ (t + 53)) :
    t ≤ -22 ∧ |g * heldRatio - 9 / 10 * g| < 1 / 4 * 2 ^ t := by
  rw [abs_mul, abs_of_pos heldRatio_pos, heldRatio] at hlow hhigh
  constructor
  · have hlt : (2 : ℚ) ^ (t + 52) < 2 ^ (31 : Int) := by
      have hnonneg : 0 ≤ |(g : ℚ)| := abs_nonneg _
      refine lt_of_le_of_lt hlow ?_
      norm_num at hg ⊢
      linarith
    have ht : t + 52 < 31 := (zpow_lt_zpow_iff_right₀ (by norm_num)).mp hlt
    omega
  · have hpos : (0 : ℚ) < 2 ^ t := zpow_pos (by norm_num) t
    have hsplit : (g : ℚ) * heldRatio - 9 / 10 * g = g * (1 / (5 * 2 ^ 53)) := by
      rw [heldRatio]
      ring
    rw [hsplit, abs_mul, abs_of_pos (by norm_num : (0 : ℚ) < 1 / (5 * 2 ^ 53))]
    rw [zpow_add₀ (by norm_num)] at hhigh
    norm_num at hhigh ⊢
    linarith

/-- **A rounded threshold stands on the same side of each score as nine tenths of the guess.** -/
theorem threshold_le_iff {t : Int} {g : Int} {r : ℚ} (hg : |(g : ℚ)| ≤ 2 ^ 31)
    (hlow : (2 : ℚ) ^ (t + 52) ≤ |g * heldRatio|) (hhigh : |g * heldRatio| < (2 : ℚ) ^ (t + 53))
    (h : NearestOn t (g * heldRatio) r) (k : Int) : r ≤ k ↔ 9 * g ≤ 10 * k := by
  obtain ⟨ht, herror⟩ := threshold_error hg hlow hhigh
  obtain ⟨hbelow, habove⟩ := abs_lt.mp herror
  obtain ⟨hdown, hup⟩ := h.compare_intCast (by omega) k
  have hunit : (2 : ℚ) ^ t ≤ 2 ^ (-22 : Int) := zpow_le_zpow_right₀ (by norm_num) ht
  norm_num at hunit
  constructor
  · -- nine tenths of a guess that are above a score are above it by a tenth at least
    intro hr
    by_contra hlt
    have hstep : (10 * k + 1 : ℚ) ≤ 9 * g := by exact_mod_cast not_le.mp hlt
    exact absurd (hup (by linarith)) (not_lt_of_ge hr)
  · intro hle
    have hscaled : (9 * g : ℚ) ≤ 10 * k := by exact_mod_cast hle
    have hpos : (0 : ℚ) < 2 ^ t := zpow_pos (by norm_num) t
    exact hdown (by linarith)

/-- The threshold of a score other than 0 is neither extremely small nor extremely large. -/
theorem threshold_size {g : Int} (hne : g ≠ 0) (hg : |(g : ℚ)| ≤ 2 ^ 31) :
    (2 : ℚ) ^ (-1021 : Int) ≤ |g * heldRatio| ∧ |g * heldRatio| < (2 : ℚ) ^ (1022 : Int) := by
  have hlarge : 1 ≤ |(g : ℚ)| := by exact_mod_cast Int.one_le_abs hne
  have hlow : (2 : ℚ) ^ (-1021 : Int) ≤ 2 ^ (-1 : Int) :=
    zpow_le_zpow_right₀ (by norm_num) (by decide)
  have hhigh : (2 : ℚ) ^ (32 : Int) ≤ 2 ^ (1022 : Int) :=
    zpow_le_zpow_right₀ (by norm_num) (by decide)
  rw [abs_mul, abs_of_pos heldRatio_pos, heldRatio]
  constructor
  · refine le_trans hlow ?_
    norm_num
    linarith
  · refine lt_of_lt_of_le ?_ hhigh
    norm_num at hg ⊢
    linarith

/-- **The test in binary64 is the exact one.** -/
theorem le_scoreFloat_iff (guess s : Int32) :
    scoreFloat guess * 0.9 ≤ scoreFloat s ↔ 9 * guess.toInt ≤ 10 * s.toInt := by
  by_cases hzero : guess.toInt = 0
  · have hguess : guess = 0 := Int32.toInt_inj.mp hzero
    have hheld : Holds (scoreFloat guess * 0.9) 0 := by
      rw [hguess]
      exact .zero .positive rfl
    rw [hheld.le_iff (holds_scoreFloat s), hzero]
    norm_cast
    omega
  · have hsmall : |(guess.toInt : ℚ)| ≤ 2 ^ 31 := by
      rw [← Int.cast_abs, Int.abs_eq_natAbs]
      exact_mod_cast natAbs_toInt_le guess
    obtain ⟨hmin, hmax⟩ := threshold_size hzero hsmall
    obtain ⟨r, t, hr, hlow, hhigh, hnearest⟩ :=
      (holds_scoreFloat guess).mul holds_heldRatio hmin hmax
    rw [hr.le_iff (holds_scoreFloat s)]
    exact threshold_le_iff hsmall hlow hhigh hnearest s.toInt

/-! ## Contradictions -/

/-- The score `s` of the result at `i`, which is not the first one, is below nine tenths of the
guess. -/
structure Contradicts (guess : Int32) (others : List Int32) (i : Nat) (s : Int32) : Prop where
  other : 1 ≤ i
  score : (guess :: others)[i]? = some s
  low : 10 * s.toInt < 9 * guess.toInt

theorem confirms_eq_false_iff {guess s : Int32} :
    confirms guess s = false ↔ 10 * s.toInt < 9 * guess.toInt := by
  rw [confirms, decide_eq_false_iff_not, le_scoreFloat_iff, not_le]

theorem mem_contradictions_iff {guess s : Int32} {others : List Int32} {i : Nat} :
    (s, i) ∈ contradictions guess 1 others ↔ Contradicts guess others i s := by
  rw [contradictions, List.mem_filter, List.mk_mem_zipIdx_iff_le_and_getElem?_sub,
    Bool.not_eq_true', confirms_eq_false_iff]
  constructor
  · rintro ⟨⟨hi, hs⟩, hlow⟩
    refine ⟨hi, ?_, hlow⟩
    rw [← Nat.sub_add_cancel hi, List.getElem?_cons_succ, hs]
  · rintro ⟨hi, hs, hlow⟩
    refine ⟨⟨hi, ?_⟩, hlow⟩
    rwa [← Nat.sub_add_cancel hi, List.getElem?_cons_succ] at hs

theorem pairwise_contradictions (guess : Int32) (next : Nat) (others : List Int32) :
    (contradictions guess next others).Pairwise fun a b => a.2 < b.2 := by
  refine List.Pairwise.filter _ (List.pairwise_map.mp ?_)
  rw [List.zipIdx_map_snd]
  exact List.pairwise_lt_range'

theorem length_contradictions (guess : Int32) (next : Nat) (others : List Int32) :
    (contradictions guess next others).length =
      others.countP fun s => 10 * s.toInt < 9 * guess.toInt := by
  have hcount : (fun s => !confirms guess s) =
      fun s : Int32 => decide (10 * s.toInt < 9 * guess.toInt) := by
    funext s
    rw [Bool.eq_iff_iff, Bool.not_eq_true', confirms_eq_false_iff, decide_eq_true_iff]
  rw [← hcount, contradictions, ← List.countP_eq_length_filter]
  conv_rhs => rw [← List.zipIdx_map_fst next others, List.countP_map]
  rfl

/-- The strongest of scores that stand in order is the first of the greatest. -/
theorem strongest_eq_some {contrary : List (Int32 × Nat)} {s : Int32} {i : Nat}
    (hsorted : contrary.Pairwise fun a b => a.2 < b.2) (h : strongest contrary = some (s, i)) :
    (s, i) ∈ contrary ∧ ∀ s' j, (s', j) ∈ contrary →
      s'.toInt ≤ s.toInt ∧ (j < i → s'.toInt < s.toInt) := by
  refine ⟨List.mem_of_getElem? h, fun s' j hmem => ?_⟩
  have hne : (contrary.map fun s => s.1.toInt) ≠ [] := by simp [List.ne_nil_of_mem hmem]
  obtain ⟨top, hat, htops⟩ := exists_tops_firstGreatest hne
  rw [strongest] at h
  rw [List.getElem?_map, h] at hat
  obtain rfl : s.toInt = top := Option.some.inj hat
  obtain ⟨m, hm⟩ := List.mem_iff_getElem?.mp hmem
  obtain ⟨hle, hlt⟩ := htops m s'.toInt (by rw [List.getElem?_map, hm]; rfl)
  refine ⟨hle, fun hji => hlt (Nat.lt_of_not_le fun hafter => ?_)⟩
  -- what stands behind the strongest has a later position
  obtain ⟨hbound, hs⟩ := List.getElem?_eq_some_iff.mp h
  obtain ⟨hbound', hs'⟩ := List.getElem?_eq_some_iff.mp hm
  rcases Nat.eq_or_lt_of_le hafter with heq | hlater
  · rw [← heq, h] at hm
    cases hm
    exact absurd hji (Nat.lt_irrefl i)
  · have horder := List.pairwise_iff_getElem.mp hsorted _ _ hbound hbound' hlater
    rw [hs, hs'] at horder
    exact absurd hji (Nat.lt_asymm horder)

/-! ## The choice -/

/-- The guess falls to the result at `i`, whose score is `s`: more of the other scores contradict it
than confirm it, and `s` is the first of the greatest that do, and greater than the guess. -/
structure Overturns (guess : Int32) (others : List Int32) (i : Nat) (s : Int32) : Prop where
  majority : (others.countP fun s => 9 * guess.toInt ≤ 10 * s.toInt) <
    others.countP fun s => 10 * s.toInt < 9 * guess.toInt
  contradicts : Contradicts guess others i s
  greatest : ∀ j s', Contradicts guess others j s' →
    s'.toInt ≤ s.toInt ∧ (j < i → s'.toInt < s.toInt)
  higher : guess.toInt < s.toInt

theorem countP_confirming (guess : Int32) (others : List Int32) :
    (others.countP fun s => 9 * guess.toInt ≤ 10 * s.toInt) =
      others.length - (contradictions guess 1 others).length := by
  have hlength := List.length_eq_countP_add_countP
    (fun s : Int32 => decide (10 * s.toInt < 9 * guess.toInt)) (l := others)
  simp only [decide_eq_true_iff, not_lt] at hlength
  rw [length_contradictions, hlength, Nat.add_sub_cancel_left]

/-- A guess falls to the strongest contradiction, or to none. -/
theorem speculate_cases (guess : Int32) (others : List Int32) :
    (∃ s, Overturns guess others (speculate guess others) s) ∨
      (speculate guess others = 0 ∧ ∀ i s, ¬ Overturns guess others i s) := by
  have hsorted := pairwise_contradictions guess 1 others
  have hconfirming := countP_confirming guess others
  have hcontrary := length_contradictions guess 1 others
  rw [speculate]
  cases hstrongest : strongest (contradictions guess 1 others) with
  | none =>
    refine Or.inr ⟨rfl, fun i s h => ?_⟩
    have hmem := mem_contradictions_iff.mpr h.contradicts
    have hne : ((contradictions guess 1 others).map fun s => s.1.toInt) ≠ [] := by
      simp [List.ne_nil_of_mem hmem]
    have hbound := firstGreatest_lt hne
    rw [List.length_map] at hbound
    exact absurd (List.getElem?_eq_none_iff.mp hstrongest) (Nat.not_le_of_lt hbound)
  | some strong =>
    obtain ⟨s, i⟩ := strong
    obtain ⟨hmem, hgreatest⟩ := strongest_eq_some hsorted hstrongest
    simp only
    split
    · next hfalls =>
      refine Or.inl ⟨s, ?_, mem_contradictions_iff.mp hmem, ?_, Int32.lt_iff_toInt_lt.mp hfalls.2⟩
      · rw [hconfirming, ← hcontrary]
        exact hfalls.1
      · exact fun j s' h => hgreatest s' j (mem_contradictions_iff.mpr h)
    · next hstays =>
      refine Or.inr ⟨rfl, fun j s' h => hstays ⟨?_, Int32.lt_iff_toInt_lt.mpr ?_⟩⟩
      · rw [← hconfirming, hcontrary]
        exact h.majority
      · exact lt_of_lt_of_le h.higher (hgreatest s' j (mem_contradictions_iff.mpr h.contradicts)).1

theorem Overturns.index_eq {guess : Int32} {others : List Int32} {i j : Nat} {s s' : Int32}
    (h : Overturns guess others i s) (h' : Overturns guess others j s') : i = j := by
  obtain ⟨hle, hbefore⟩ := h.greatest j s' h'.contradicts
  obtain ⟨hle', hbefore'⟩ := h'.greatest i s h.contradicts
  rcases Nat.lt_trichotomy i j with hlt | heq | hgt
  · exact absurd (hbefore' hlt) (not_lt_of_ge hle)
  · exact heq
  · exact absurd (hbefore hgt) (not_lt_of_ge hle')

/-- Below nine tenths of a guess and above it there is something only if the guess is negative. -/
theorem Overturns.guess_neg {guess : Int32} {others : List Int32} {i : Nat} {s : Int32}
    (h : Overturns guess others i s) : guess.toInt < 0 := by
  have hlow := h.contradicts.low
  have hhigher := h.higher
  omega

/-- **A speculative choice is the first result, unless the others overturn it.** A score confirms
the guess exactly if it reaches nine tenths of it, for all pairs of scores. The guess falls to the
first of the greatest contradictions if they are the majority and this one is greater than the
guess, and otherwise it stays. Hence nothing chosen scores below the guess, and one that is not
negative stays. -/
theorem speculation_rollback {α : Type} (score : α → Int32) (r : α) (rs : List α) :
    (∀ guess s : Int32,
        scoreFloat guess * 0.9 ≤ scoreFloat s ↔ 9 * guess.toInt ≤ 10 * s.toInt) ∧
      (∀ i s, Overturns (score r) (rs.map score) i s → speculative score (r :: rs) = i) ∧
      ((∀ i s, ¬ Overturns (score r) (rs.map score) i s) → speculative score (r :: rs) = 0) ∧
      (∃ a, (r :: rs)[speculative score (r :: rs)]? = some a ∧
        (score r).toInt ≤ (score a).toInt) ∧
      (0 ≤ (score r).toInt → speculative score (r :: rs) = 0) := by
  have hspeculative : speculative score (r :: rs) = speculate (score r) (rs.map score) := rfl
  rw [hspeculative]
  refine ⟨le_scoreFloat_iff, ?_⟩
  rcases speculate_cases (score r) (rs.map score) with ⟨s, h⟩ | ⟨hzero, hnone⟩
  · have hat := h.contradicts.score
    rw [← List.map_cons, List.getElem?_map] at hat
    obtain ⟨a, ha, rfl⟩ := Option.map_eq_some_iff.mp hat
    exact ⟨fun i s' h' => h.index_eq h', fun hnone => absurd h (hnone _ _),
      ⟨a, ha, le_of_lt h.higher⟩, fun hpos => absurd h.guess_neg (not_lt_of_ge hpos)⟩
  · rw [hzero]
    exact ⟨fun i s h => absurd h (hnone i s), fun _ => rfl, ⟨r, rfl, le_refl _⟩, fun _ => rfl⟩

/-- Of three scores behind a negative guess two contradict it, and the last of them is greater.
Without it the guess holds against a tie, and a positive guess against any majority. -/
theorem speculation_rollback_outvoted :
    Overturns (-100) [-50, -95, -91] 3 (-91) ∧
      speculative id [(-100 : Int32), -50, -95, -91] = 3 ∧
      (∀ i s, ¬ Overturns (-100) [-50, -95] i s) ∧ speculative id [(-100 : Int32), -50, -95] = 0 ∧
      0 ≤ (10 : Int32).toInt ∧ speculative id [(10 : Int32), 3, 4, 5] = 0 := by
  have hfalls : Overturns (-100) [-50, -95, -91] 3 (-91) := by
    refine ⟨by decide, ⟨by decide, rfl, by decide⟩, fun j s' h => ?_, by decide⟩
    obtain ⟨hother, hscore, hlow⟩ := h
    rcases j with _ | _ | _ | _ | j
    · exact absurd hother (by decide)
    · cases hscore
      exact absurd hlow (by decide)
    · cases hscore
      decide
    · cases hscore
      decide
    · cases hscore
  have hstays : ∀ i s, ¬ Overturns (-100) [-50, -95] i s := fun i s h =>
    absurd h.majority (by decide)
  exact ⟨hfalls, (speculation_rollback id (-100) [-50, -95, -91]).2.1 3 (-91) hfalls,
    hstays, (speculation_rollback id (-100) [-50, -95]).2.2.1 hstays,
    by decide, (speculation_rollback id 10 [3, 4, 5]).2.2.2.2 (by decide)⟩

end Superpose.Choice
