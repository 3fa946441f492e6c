import Mathlib.Algebra.Order.BigOperators.Group.List
import Mathlib.Algebra.Ring.Int.Defs
import Mathlib.Data.Nat.Find
import Superpose.Choice.Draw
import Superpose.Proofs.Choice.Range

/-!
# Weighted draws

A walk over scores stops at the first of them at which the running sum reaches a target
(`Crosses`). Scores may be negative, so the running sum goes up and down, but it starts below every
positive target and ends at the total: a share of a positive total is always reached
(`exists_crosses`), and what reaches it is a positive score (`Crosses.pos`). The words in which the
sums are taken are wide enough for as many results as a `Fit` list has, so the walk over words is
the walk over whole numbers (`reach?_eq`).
-/

namespace Superpose.Choice

/-! ## Running sums -/

/-- The sum of the first so many scores. -/
def runningSum (scores : List Int32) (n : Nat) : Int := ((scores.take n).map Int32.toInt).sum

@[simp] theorem runningSum_zero (scores : List Int32) : runningSum scores 0 = 0 := rfl

theorem runningSum_cons (s : Int32) (ss : List Int32) (n : Nat) :
    runningSum (s :: ss) (n + 1) = s.toInt + runningSum ss n := rfl

theorem runningSum_add_one {scores : List Int32} {i : Nat} {s : Int32} (h : scores[i]? = some s) :
    runningSum scores (i + 1) = runningSum scores i + s.toInt := by
  rw [runningSum, runningSum, List.take_add_one, h]
  simp

theorem exists_pos_of_runningSum_pos {scores : List Int32} {n : Nat}
    (h : 0 < runningSum scores n) : ∃ s ∈ scores, 0 < s.toInt := by
  by_contra hnone
  have hbound : ∀ k ∈ (scores.take n).map Int32.toInt, k ≤ 0 := by
    intro k hk
    obtain ⟨s, hs, rfl⟩ := List.mem_map.mp hk
    exact Int.not_lt.mp fun hpos => hnone ⟨s, List.mem_of_mem_take hs, hpos⟩
  have hle := List.sum_le_card_nsmul _ 0 hbound
  rw [nsmul_zero] at hle
  exact absurd h (Int.not_lt.mpr hle)

/-! ## Words that are wide enough -/

/-- A sum in a 64-bit word, to which scores can still be added. -/
def Fit (sum : Int64) (scores : List Int32) : Prop :=
  sum.toInt.natAbs + 2 ^ 31 * scores.length < 2 ^ 63

theorem Fit.toInt_add {sum : Int64} {s : Int32} {ss : List Int32} (h : Fit sum (s :: ss)) :
    (sum + s.toInt64).toInt = sum.toInt + s.toInt := by
  have hlow := s.le_toInt
  have hhigh := s.toInt_lt
  rw [Fit, List.length_cons] at h
  rw [Int64.toInt_add, Int32.toInt_toInt64]
  exact Int.bmod_eq_of_le (by omega) (by omega)

theorem Fit.step {sum : Int64} {s : Int32} {ss : List Int32} (h : Fit sum (s :: ss)) :
    Fit (sum + s.toInt64) ss := by
  have hsum := h.toInt_add
  have hlow := s.le_toInt
  have hhigh := s.toInt_lt
  rw [Fit, List.length_cons] at h
  rw [Fit, hsum]
  omega

theorem fit_zero {scores : List Int32} (h : scores.length ≤ 2 ^ 25) : Fit 0 scores := by
  rw [Fit, Int64.toInt_zero, Int.natAbs_zero]
  omega

theorem toInt_foldl_add : ∀ {scores : List Int32} {sum : Int64}, Fit sum scores →
    (scores.foldl (fun sum s => sum + s.toInt64) sum).toInt =
      sum.toInt + runningSum scores scores.length := by
  intro scores
  induction scores with
  | nil => intro sum _; exact (Int.add_zero _).symm
  | cons s ss ih =>
    intro sum h
    rw [List.foldl_cons, ih h.step, h.toInt_add, List.length_cons, runningSum_cons, Int.add_assoc]

theorem toInt_total {scores : List Int32} (h : scores.length ≤ 2 ^ 25) :
    (total scores).toInt = runningSum scores scores.length := by
  rw [total, toInt_foldl_add (fit_zero h), Int64.toInt_zero, Int.zero_add]

theorem runningSum_length_le (scores : List Int32) :
    runningSum scores scores.length ≤ scores.length * 2 ^ 31 := by
  have hbound : ∀ k ∈ scores.map Int32.toInt, k ≤ 2 ^ 31 := by
    intro k hk
    obtain ⟨s, -, rfl⟩ := List.mem_map.mp hk
    exact Int.le_of_lt s.toInt_lt
  have hle := List.sum_le_card_nsmul _ _ hbound
  rw [List.length_map, nsmul_eq_mul] at hle
  rwa [runningSum, List.take_length]

/-- The drawn share of a positive total. -/
theorem toInt_share {draw : Nat} (hdraw : draw < 100) {sum : Int64} (hpos : 0 < sum.toInt)
    (hle : sum.toInt ≤ 2 ^ 56) :
    (Int64.ofNat draw * sum / 100).toInt = draw * sum.toInt / 100 := by
  have hword : (Int64.ofNat draw).toInt = draw := Int64.toInt_ofNat_of_lt (by omega)
  have hnonneg : 0 ≤ (draw : Int) * sum.toInt := Int.mul_nonneg (by omega) (by omega)
  have hlt : (draw : Int) * sum.toInt ≤ 99 * 2 ^ 56 :=
    Int.mul_le_mul (by omega) hle (by omega) (by omega)
  have hproduct : (Int64.ofNat draw * sum).toInt = draw * sum.toInt := by
    rw [Int64.toInt_mul, hword]
    exact Int.bmod_eq_of_le (by omega) (by omega)
  have hhundred : (100 : Int64).toInt = 100 := rfl
  rw [Int64.toInt_div, hproduct, hhundred, Int.tdiv_eq_ediv_of_nonneg hnonneg]
  exact Int.bmod_eq_of_le (by omega) (by omega)

/-! ## The walk -/

/-- The first of some scores at which the running sum reaches a target. -/
structure Crosses (scores : List Int32) (target : Int) (i : Nat) : Prop where
  lt : i < scores.length
  reached : target ≤ runningSum scores (i + 1)
  first : ∀ j < i, runningSum scores (j + 1) < target

/-- Whatever the total reaches is crossed on the way. -/
theorem exists_crosses {scores : List Int32} {target : Int} (hne : scores ≠ [])
    (h : target ≤ runningSum scores scores.length) : ∃ i, Crosses scores target i := by
  have hpos : 0 < scores.length := List.length_pos_iff.mpr hne
  have hlast : target ≤ runningSum scores (scores.length - 1 + 1) := by
    rwa [Nat.sub_add_cancel hpos]
  have hsome : ∃ i, target ≤ runningSum scores (i + 1) := ⟨_, hlast⟩
  refine ⟨Nat.find hsome, ?_, Nat.find_spec hsome, fun j hj => ?_⟩
  · have hle := Nat.find_min' hsome hlast
    omega
  · exact Int.not_le.mp (Nat.find_min hsome hj)

/-- A score that crosses a target that is not negative is positive, unless it is the first one,
which reaches the target alone. -/
theorem Crosses.pos {scores : List Int32} {target : Int} {i : Nat} (h : Crosses scores target i)
    {s : Int32} (hs : scores[i]? = some s) : (i = 0 ∧ target ≤ s.toInt) ∨ 0 < s.toInt := by
  have hreached := h.reached
  rw [runningSum_add_one hs] at hreached
  cases i with
  | zero =>
    rw [runningSum_zero, Int.zero_add] at hreached
    exact Or.inl ⟨rfl, hreached⟩
  | succ j =>
    have hbefore := h.first j (Nat.lt_succ_self j)
    exact Or.inr (by omega)

theorem Crosses.tail {s : Int32} {ss : List Int32} {target : Int} {i : Nat}
    (h : Crosses (s :: ss) target (i + 1)) : Crosses ss (target - s.toInt) i where
  lt := Nat.lt_of_succ_lt_succ h.lt
  reached := by
    have hreached := h.reached
    rw [runningSum_cons] at hreached
    omega
  first j hj := by
    have hfirst := h.first (j + 1) (Nat.succ_lt_succ hj)
    rw [runningSum_cons] at hfirst
    omega

/-- **The walk stops where the running sum crosses the target.** -/
theorem reach?_eq {scores : List Int32} {target : Int64} : ∀ {sum : Int64} {i : Nat},
    Fit sum scores → Crosses scores (target.toInt - sum.toInt) i →
      ∀ next, reach? target sum next scores = some (next + i) := by
  induction scores with
  | nil => intro sum i _ h; exact absurd h.lt (Nat.not_lt_zero i)
  | cons s ss ih =>
    intro sum i hfit h next
    have hadd := hfit.toInt_add
    rw [reach?]
    cases i with
    | zero =>
      have hreached := h.reached
      rw [runningSum_cons, runningSum_zero, Int.add_zero] at hreached
      rw [if_pos (Int64.le_iff_toInt_le.mpr (by omega))]
      rfl
    | succ i =>
      have hbefore := h.first 0 (Nat.succ_pos i)
      rw [runningSum_cons, runningSum_zero, Int.add_zero] at hbefore
      have htail : Crosses ss (target.toInt - (sum + s.toInt64).toInt) i := by
        rw [hadd, ← Int.sub_sub]
        exact h.tail
      rw [if_neg (mt Int64.le_iff_toInt_le.mp (by omega)), ih hfit.step htail (next + 1)]
      rw [Nat.add_assoc, Nat.add_comm 1 i]

/-! ## The draw -/

theorem percentage_lt (seed : Int32) : percentage seed < 100 := Nat.mod_lt _ (by decide)

/-- The percentage that a score draws, computed on whole numbers. -/
theorem percentage_eq (seed : Int32) :
    (percentage seed : Int) = (1103515245 * seed.toInt + 12345) % 2 ^ 32 / 65536 % 100 := by
  have hseed : (seed.toUInt32.toNat : Int) % 2 ^ 32 = seed.toInt % 2 ^ 32 := by
    have hword : seed.toInt = (seed.toUInt32.toNat : Int).bmod (2 ^ 32) :=
      BitVec.toInt_eq_toNat_bmod seed.toBitVec
    rw [hword]
    exact (Int.bmod_emod (m := 2 ^ 32)).symm
  have hword : (1103515245 * seed.toUInt32.toNat + 12345 : Int) % 2 ^ 32 =
      (1103515245 * seed.toInt + 12345) % 2 ^ 32 := by
    rw [Int.add_emod, Int.mul_emod, hseed, ← Int.mul_emod, ← Int.add_emod]
  have hnat : (congruential seed).toNat =
      (1103515245 * seed.toUInt32.toNat + 12345) % 2 ^ 32 := by
    rw [congruential, UInt32.toNat_add, UInt32.toNat_mul, Nat.mul_comm]
    exact Nat.mod_add_mod ..
  rw [percentage, hnat, ← hword]
  push_cast
  rfl

section Drawn

variable {draw : Nat} {scores : List Int32} (hne : scores ≠ []) (hlength : scores.length ≤ 2 ^ 25)

include hlength in
theorem total_pos_iff : 0 < total scores ↔ 0 < runningSum scores scores.length := by
  rw [Int64.lt_iff_toInt_lt, toInt_total hlength, Int64.toInt_zero]

include hlength in
/-- A high draw from a positive total takes the result at which its share is crossed. -/
theorem drawn_of_crosses (hhigh : exploitBelow ≤ draw) (hdraw : draw < 100)
    (hpos : 0 < runningSum scores scores.length) {i : Nat}
    (h : Crosses scores (draw * runningSum scores scores.length / 100) i) :
    reach? (Int64.ofInt (draw * runningSum scores scores.length / 100)) 0 0 scores = some i ∧
      drawn draw scores = i := by
  have htotal := toInt_total hlength
  have hle := runningSum_length_le scores
  have hshare : (Int64.ofNat draw * total scores / 100).toInt =
      draw * runningSum scores scores.length / 100 := by
    rw [← htotal]
    exact toInt_share hdraw (by omega) (by omega)
  have hreach : reach? (Int64.ofNat draw * total scores / 100) 0 0 scores = some i := by
    rw [← hshare] at h
    have hstart : Crosses scores ((Int64.ofNat draw * total scores / 100).toInt -
        (0 : Int64).toInt) i := by
      rwa [Int64.toInt_zero, Int.sub_zero]
    rw [reach?_eq (fit_zero hlength) hstart 0, Nat.zero_add]
  refine ⟨?_, ?_⟩
  · rw [← hshare, Int64.ofInt_toInt, hreach]
  · rw [drawn, if_neg (Nat.not_lt.mpr hhigh), if_pos ((total_pos_iff hlength).mpr hpos), hreach]
    rfl

include hne in
theorem exists_crosses_share (hdraw : draw < 100) (hpos : 0 < runningSum scores scores.length) :
    ∃ i, Crosses scores (draw * runningSum scores scores.length / 100) i := by
  refine exists_crosses hne ?_
  have hle : (draw : Int) * runningSum scores scores.length ≤
      100 * runningSum scores scores.length :=
    Int.mul_le_mul_of_nonneg_right (by omega) (Int.le_of_lt hpos)
  omega

include hlength in
theorem drawn_of_total_nonpos (hhigh : exploitBelow ≤ draw)
    (hnone : runningSum scores scores.length ≤ 0) : drawn draw scores = draw % scores.length := by
  have htotal : ¬ 0 < total scores := mt (total_pos_iff hlength).mp (Int.not_lt.mpr hnone)
  rw [drawn, if_neg (Nat.not_lt.mpr hhigh), if_neg htotal]

end Drawn

/-- **A draw from a positive total takes a positive score.** -/
theorem exists_pos_of_drawn {s : Int32} {ss : List Int32} (hlength : (s :: ss).length ≤ 2 ^ 25)
    (hpos : 0 < runningSum (s :: ss) (s :: ss).length) :
    ∃ x, (s :: ss)[drawn (percentage s) (s :: ss)]? = some x ∧ 0 < x.toInt := by
  have hdraw := percentage_lt s
  by_cases hlow : percentage s < exploitBelow
  · -- the best score is no smaller than any positive one, and there is one
    have hne : (s :: ss).map Int32.toInt ≠ [] := List.cons_ne_nil _ _
    obtain ⟨top, hkey, hgreatest⟩ := exists_tops_firstGreatest hne
    rw [List.getElem?_map] at hkey
    obtain ⟨x, hx, rfl⟩ := Option.map_eq_some_iff.mp hkey
    obtain ⟨y, hy, hypos⟩ := exists_pos_of_runningSum_pos hpos
    obtain ⟨j, hj⟩ := List.mem_iff_getElem?.mp hy
    have hle := (hgreatest j y.toInt (by rw [List.getElem?_map, hj, Option.map_some])).1
    refine ⟨x, ?_, Int.lt_of_lt_of_le hypos hle⟩
    rw [drawn, if_pos hlow]
    exact hx
  · have hhigh : exploitBelow ≤ percentage s := Nat.le_of_not_lt hlow
    obtain ⟨i, hi⟩ := exists_crosses_share (List.cons_ne_nil s ss) hdraw hpos
    obtain ⟨x, hx⟩ : ∃ x, (s :: ss)[i]? = some x := ⟨_, List.getElem?_eq_getElem hi.lt⟩
    refine ⟨x, (drawn_of_crosses hlength hhigh hdraw hpos hi).2 ▸ hx, ?_⟩
    rcases hi.pos hx with ⟨rfl, hreached⟩ | hxpos
    · -- the first score seeds the draw, and 0 would not have drawn so high
      cases hx
      have hnonneg : 0 ≤ (percentage s : Int) * runningSum (s :: ss) (s :: ss).length :=
        Int.mul_nonneg (by omega) (Int.le_of_lt hpos)
      have hle : 0 ≤ s.toInt := by omega
      refine lt_of_le_of_ne hle fun hzero => ?_
      have hs : s = 0 := Int32.toInt_inj.mp hzero.symm
      rw [hs] at hhigh
      exact absurd hhigh (by decide)
    · exact hxpos

/-- **A fuzzy choice.** The score of the first of at most `2 ^ 25` results draws a percentage. A
draw below 70 takes the best result. From 70 on it takes the first result at which the running sum
of the scores reaches the drawn share of their total, if that is positive, and there is such a
result; otherwise it takes the draw modulo the number of results. Whenever the total is positive, so
is the score of the result that is taken. -/
theorem fuzzy_draw {α : Type} (score : α → Int32) (r : α) (rs : List α)
    (hlength : (r :: rs).length ≤ 2 ^ 25) :
    let results := r :: rs
    let draw := percentage (score r)
    let sum := runningSum (results.map score)
    let target : Int := draw * sum results.length / 100
    (draw : Int) = (1103515245 * (score r).toInt + 12345) % 2 ^ 32 / 65536 % 100 ∧
      (draw < 70 → fuzzy score results = best score results) ∧
      (70 ≤ draw → 0 < sum results.length →
        ∃ i < results.length,
          reach? (Int64.ofInt target) 0 0 (results.map score) = some i ∧
          fuzzy score results = i ∧ target ≤ sum (i + 1) ∧ ∀ j < i, sum (j + 1) < target) ∧
      (70 ≤ draw → sum results.length ≤ 0 → fuzzy score results = draw % results.length) ∧
      (0 < sum results.length → ∃ x, results[fuzzy score results]? = some x ∧ 0 < score x) := by
  intro results draw sum target
  have hcount : results.length = (results.map score).length := (List.length_map score).symm
  have hne : results.map score ≠ [] := List.cons_ne_nil _ _
  have hfit : (results.map score).length ≤ 2 ^ 25 := hcount ▸ hlength
  have hdraw : draw < 100 := percentage_lt (score r)
  refine ⟨percentage_eq (score r), fun hlow => ?_, fun hhigh hpos => ?_, fun hhigh hnone => ?_,
    fun hpos => ?_⟩
  · show drawn draw (results.map score) = _
    rw [drawn, if_pos (show draw < exploitBelow from hlow), List.map_map]
    rfl
  · simp only [target]
    rw [hcount] at hpos ⊢
    obtain ⟨i, hi⟩ := exists_crosses_share hne hdraw hpos
    obtain ⟨hreach, hdrawn⟩ := drawn_of_crosses hfit hhigh hdraw hpos hi
    exact ⟨i, hi.lt, hreach, hdrawn, hi.reached, hi.first⟩
  · rw [hcount] at hnone ⊢
    exact drawn_of_total_nonpos hfit hhigh hnone
  · rw [hcount] at hpos
    obtain ⟨s, hs, hspos⟩ := exists_pos_of_drawn hfit hpos
    rw [← List.map_cons, List.getElem?_map] at hs
    obtain ⟨x, hx, rfl⟩ := Option.map_eq_some_iff.mp hs
    exact ⟨x, hx, Int32.lt_iff_toInt_lt.mpr hspos⟩

/-- A draw of 76 over scores whose running sum goes up and down: 69 of 92 is reached at the end. -/
theorem fuzzy_draw_wavering :
    let results : List Int32 := [2, -40, 70, 60]
    percentage 2 = 76 ∧ runningSum results results.length = 92 ∧ fuzzy id results = 3 ∧
      ∃ x, results[fuzzy id results]? = some x ∧ 0 < x := by
  intro results
  obtain ⟨-, -, hhigh, -, hpos⟩ := fuzzy_draw id (2 : Int32) [-40, 70, 60] (by decide)
  obtain ⟨i, hi, -, hfuzzy, hreached, -⟩ := hhigh (by decide) (by decide)
  refine ⟨by decide, by decide, ?_, hpos (by decide)⟩
  -- before the last score the running sum does not reach the target
  match i with
  | 0 | 1 | 2 => exact absurd hreached (by decide)
  | 3 => exact hfuzzy
  | i + 4 => exact absurd hi (by simp)

end Superpose.Choice
