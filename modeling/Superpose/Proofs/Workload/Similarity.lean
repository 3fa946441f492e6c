import Mathlib.Algebra.Order.BigOperators.Group.List
import Mathlib.Algebra.Order.Field.Rat
import Mathlib.Data.Rat.Cast.Order
import Mathlib.Tactic.Linarith
import Mathlib.Tactic.NormNum
import Superpose.Workload.Similarity

/-!
# Likeness as a mean

In exact fractions the likeness of two workloads is a weighted mean of closenesses between 0 and 1
(`Weighed`), whichever of them can be compared. So it lies between 0 and 1 as well, and it is 1 just
if every closeness is, that is, if the two workloads agree on all figures that can be compared
(`Alike`). A closeness does not depend on which of two workloads comes first, and so neither does
the likeness (`terms_comm`).
-/

namespace Superpose.Workload

/-! ## Weighted means -/

/-- The weighted sum of closenesses. -/
def score (ts : List (Rat × Rat)) : Rat := (ts.map fun t => t.1 * t.2).sum

/-- The sum of the weights. -/
def weight (ts : List (Rat × Rat)) : Rat := (ts.map Prod.snd).sum

/-- A closeness between 0 and 1, with a weight. -/
structure Weighed (t : Rat × Rat) : Prop where
  nonneg : 0 ≤ t.1
  le_one : t.1 ≤ 1
  pos : 0 < t.2

theorem foldl_add_eq {β : Type} (f : β → Rat) (ts : List β) (x : Rat) :
    ts.foldl (fun sum t => sum + f t) x = x + (ts.map f).sum := by
  induction ts generalizing x with
  | nil => simp
  | cons t ts ih => rw [List.foldl_cons, ih, List.map_cons, List.sum_cons, add_assoc]

section Means

variable {ts : List (Rat × Rat)} (hweighed : ∀ t ∈ ts, Weighed t)

include hweighed

theorem score_nonneg : 0 ≤ score ts := by
  refine List.sum_nonneg fun x hx => ?_
  obtain ⟨t, ht, rfl⟩ := List.mem_map.mp hx
  exact mul_nonneg (hweighed t ht).nonneg (hweighed t ht).pos.le

theorem score_le_weight : score ts ≤ weight ts :=
  List.sum_le_sum fun t ht => mul_le_of_le_one_left (hweighed t ht).pos.le (hweighed t ht).le_one

/-- The weighted sum reaches the sum of the weights just if all is as close as can be. -/
theorem score_eq_weight_iff : score ts = weight ts ↔ ∀ t ∈ ts, t.1 = 1 := by
  induction ts with
  | nil => simp [score, weight]
  | cons t ts ih =>
    obtain ⟨hown, hothers⟩ := List.forall_mem_cons.mp hweighed
    have htop : t.1 * t.2 ≤ t.2 := mul_le_of_le_one_left hown.pos.le hown.le_one
    have hsums : score (t :: ts) = weight (t :: ts) ↔ t.1 * t.2 + score ts = t.2 + weight ts := by
      simp [score, weight]
    rw [hsums, add_eq_add_iff_eq_and_eq htop (score_le_weight hothers), ih hothers,
      List.forall_mem_cons, mul_eq_right₀ hown.pos.ne']

theorem weight_pos (hsome : ts ≠ []) : 0 < weight ts := by
  refine List.sum_pos _ (fun x hx => ?_) (by simpa using hsome)
  obtain ⟨t, ht, rfl⟩ := List.mem_map.mp hx
  exact (hweighed t ht).pos

theorem weightedMean_eq (hsome : ts ≠ []) : weightedMean ts = score ts / weight ts := by
  have hscores : ts.foldl (fun sum t => sum + t.1 * t.2) (0.0 : Rat) = score ts := by
    rw [foldl_add_eq, score]
    norm_num
  have hweights : ts.foldl (fun sum t => sum + t.2) (0.0 : Rat) = weight ts := by
    rw [foldl_add_eq, weight]
    norm_num
  have hpos : (0.0 : Rat) < weight ts := by
    have hpos := weight_pos hweighed hsome
    norm_num
    exact hpos
  unfold weightedMean
  simp only [hscores, hweights]
  exact if_pos hpos

end Means

/-! ## Closenesses -/

/-- The difference of two numbers of qubits. -/
def gap (m n : UInt32) : Nat := ((m.toNat : Int) - n.toNat).natAbs

theorem gap_comm (m n : UInt32) : gap m n = gap n m := by
  rw [gap, gap]
  omega

theorem gap_eq_zero_iff {m n : UInt32} : gap m n = 0 ↔ m = n := by
  rw [gap, ← UInt32.toNat_inj]
  omega

theorem ofWord_gap (m n : UInt32) :
    (Scale.ofWord (if m < n then (n - m).toUInt64 else (m - n).toUInt64) : Rat) = gap m n := by
  change (((if m < n then (n - m).toUInt64 else (m - n).toUInt64).toNat : Nat) : Rat) = _
  congr 1
  rw [gap]
  split
  · next hless =>
    rw [UInt32.toNat_toUInt64, UInt32.toNat_sub_of_le _ _ (UInt32.le_of_lt hless)]
    rw [UInt32.lt_iff_toNat_lt] at hless
    omega
  · next hgreater =>
    rw [UInt32.toNat_toUInt64, UInt32.toNat_sub_of_le _ _ (UInt32.not_lt.mp hgreater)]
    rw [UInt32.lt_iff_toNat_lt] at hgreater
    omega

theorem qubitCloseness_eq (m n : UInt32) :
    (qubitCloseness m n : Rat) = if gap m n < 10 then 1 - (gap m n : Rat) / 10 else 0 := by
  unfold qubitCloseness
  simp only [ofWord_gap]
  norm_num

theorem qubitCloseness_comm (m n : UInt32) : (qubitCloseness m n : Rat) = qubitCloseness n m := by
  rw [qubitCloseness_eq, qubitCloseness_eq, gap_comm]

theorem qubitCloseness_bounds (m n : UInt32) :
    0 ≤ (qubitCloseness m n : Rat) ∧ (qubitCloseness m n : Rat) ≤ 1 := by
  rw [qubitCloseness_eq]
  split
  · next hnear =>
    have hlow : (0 : Rat) ≤ gap m n := Nat.cast_nonneg _
    have hhigh : (gap m n : Rat) < 10 := by exact_mod_cast hnear
    constructor <;> linarith
  · exact ⟨le_rfl, zero_le_one⟩

theorem qubitCloseness_eq_one_iff {m n : UInt32} : (qubitCloseness m n : Rat) = 1 ↔ m = n := by
  rw [qubitCloseness_eq, ← gap_eq_zero_iff]
  split
  · rw [sub_eq_self, div_eq_zero_iff, Nat.cast_eq_zero]
    exact or_iff_left (by norm_num)
  · next hfar => exact ⟨fun h => absurd h zero_ne_one, fun h => absurd h (by omega)⟩

theorem ratio_comm (x y : Rat) : ratio x y = ratio y x := by
  rw [ratio, ratio]
  rcases lt_trichotomy x y with hless | rfl | hgreater
  · rw [if_neg hless.not_gt, if_pos hless]
  · rfl
  · rw [if_pos hgreater, if_neg hgreater.not_gt]

theorem ratio_bounds {x y : Rat} (hx : 0 < x) (hy : 0 < y) :
    0 ≤ ratio x y ∧ ratio x y ≤ 1 ∧ (ratio x y = 1 ↔ x = y) := by
  wlog h : x ≤ y generalizing x y
  · rw [ratio_comm, eq_comm (a := x)]
    exact this hy hx (le_of_not_ge h)
  · rw [ratio, if_neg h.not_gt]
    exact ⟨div_nonneg hx.le hy.le, (div_le_one₀ hy).mpr h, div_eq_one_iff_eq hy.ne'⟩

theorem ofWord_pos {n : UInt64} (h : 0 < n) : (0 : Rat) < Scale.ofWord n := by
  change (0 : Rat) < (n.toNat : Rat)
  exact_mod_cast UInt64.lt_iff_toNat_lt.mp h

theorem ofWord_inj {m n : UInt64} : (Scale.ofWord m : Rat) = Scale.ofWord n ↔ m = n := by
  change (m.toNat : Rat) = (n.toNat : Rat) ↔ _
  rw [Nat.cast_inj, UInt64.toNat_inj]

/-! ## What can be compared -/

section Terms

variable {weight : Rat} {a b : Workload} {P : Rat × Rat → Prop}

theorem forall_mem_ratioTerm {x y : UInt64} :
    (∀ t ∈ ratioTerm weight x y, P t) ↔
      (0 < x → 0 < y → P (ratio (Scale.ofWord x) (Scale.ofWord y), weight)) := by
  unfold ratioTerm
  split
  · next hboth => simp [hboth]
  · next hlacking => simpa using fun hx hy => absurd ⟨hx, hy⟩ hlacking

theorem forall_mem_flagTerm {x y : Bool} :
    (∀ t ∈ flagTerm weight x y, P t) ↔ (x = y → P (1.0, weight)) := by
  unfold flagTerm
  split
  · next hsame => simp [eq_of_beq hsame]
  · next hdiffer => simpa using fun hsame => absurd (beq_iff_eq.mpr hsame) hdiffer

/-- All that can be compared are the numbers of qubits, times and sizes that both sides have, and
flags that agree. -/
theorem forall_mem_terms :
    (∀ t ∈ terms a b, P t) ↔
      P (qubitCloseness a.qubits b.qubits, 0.30) ∧
        (0 < a.meanTime → 0 < b.meanTime →
          P (ratio (Scale.ofWord a.meanTime) (Scale.ofWord b.meanTime), 0.25)) ∧
        (a.scored = b.scored → P (1.0, 0.15)) ∧
        (a.waitsForAll = b.waitsForAll → P (1.0, 0.15)) ∧
        (0 < a.dataSize → 0 < b.dataSize →
          P (ratio (Scale.ofWord a.dataSize) (Scale.ofWord b.dataSize), 0.15)) := by
  simp only [terms, List.cons_append, List.forall_mem_cons, List.forall_mem_append,
    forall_mem_ratioTerm, forall_mem_flagTerm, and_assoc]

end Terms

theorem weighed_terms (a b : Workload) : ∀ t ∈ terms a b, Weighed t := by
  have hfigures {x y : UInt64} {weight : Rat} (hpos : 0 < weight) (hx : 0 < x) (hy : 0 < y) :
      Weighed (ratio (Scale.ofWord x) (Scale.ofWord y), weight) :=
    have hbounds := ratio_bounds (ofWord_pos hx) (ofWord_pos hy)
    ⟨hbounds.1, hbounds.2.1, hpos⟩
  have hflags : Weighed (1.0, 0.15) := ⟨by norm_num, by norm_num, by norm_num⟩
  have hqubits := qubitCloseness_bounds a.qubits b.qubits
  exact forall_mem_terms.mpr ⟨⟨hqubits.1, hqubits.2, by norm_num⟩, hfigures (by norm_num),
    fun _ => hflags, fun _ => hflags, hfigures (by norm_num)⟩

theorem terms_ne_nil (a b : Workload) : (terms a b : List (Rat × Rat)) ≠ [] := by simp [terms]

/-- Which of two workloads comes first makes no difference to what is compared. -/
theorem terms_comm (a b : Workload) : (terms a b : List (Rat × Rat)) = terms b a := by
  have hfigures (weight : Rat) (x y : UInt64) : ratioTerm weight x y = ratioTerm weight y x := by
    simp only [ratioTerm, and_comm (a := 0 < x), ratio_comm (Scale.ofWord x)]
  have hflags (weight : Rat) (x y : Bool) : flagTerm weight x y = flagTerm weight y x := by
    simp only [flagTerm, Bool.beq_comm (a := x)]
  rw [terms, terms, qubitCloseness_comm, hfigures _ a.meanTime, hfigures _ a.dataSize,
    hflags _ a.scored, hflags _ a.waitsForAll]

/-- Workloads that agree on all figures that can be compared. -/
structure Alike (a b : Workload) : Prop where
  qubits : a.qubits = b.qubits
  meanTime : 0 < a.meanTime → 0 < b.meanTime → a.meanTime = b.meanTime
  dataSize : 0 < a.dataSize → 0 < b.dataSize → a.dataSize = b.dataSize

theorem Alike.refl (a : Workload) : Alike a a := ⟨rfl, fun _ _ => rfl, fun _ _ => rfl⟩

theorem forall_closeness_eq_one_iff {a b : Workload} :
    (∀ t ∈ (terms a b : List (Rat × Rat)), t.1 = 1) ↔ Alike a b := by
  have hfigures {x y : UInt64} :
      (0 < x → 0 < y → ratio (Scale.ofWord x : Rat) (Scale.ofWord y) = 1) ↔
        (0 < x → 0 < y → x = y) :=
    forall₂_congr fun hx hy => (ratio_bounds (ofWord_pos hx) (ofWord_pos hy)).2.2.trans ofWord_inj
  have hflags : (1.0 : Rat) = 1 := by norm_num
  rw [forall_mem_terms, qubitCloseness_eq_one_iff, hfigures, hfigures]
  exact ⟨fun h => ⟨h.1, h.2.1, h.2.2.2.2⟩,
    fun h => ⟨h.qubits, h.meanTime, fun _ => hflags, fun _ => hflags, h.dataSize⟩⟩

/-- **Likeness is a mean.** In exact fractions it is the same from both sides, lies between 0 and 1,
and is 1 just if two workloads agree on all figures that can be compared, as each does with
itself. -/
theorem similarity_laws (a b : Workload) :
    (a.similarity b : Rat) = b.similarity a ∧
      0 ≤ (a.similarity b : Rat) ∧ (a.similarity b : Rat) ≤ 1 ∧
      ((a.similarity b : Rat) = 1 ↔ Alike a b) ∧
      (a.similarity a : Rat) = 1 := by
  have hmean (a b : Workload) : (a.similarity b : Rat) = score (terms a b) / weight (terms a b) :=
    weightedMean_eq (weighed_terms a b) (terms_ne_nil a b)
  have hpos (a b : Workload) : 0 < weight (terms a b) :=
    weight_pos (weighed_terms a b) (terms_ne_nil a b)
  have hone (a b : Workload) : (a.similarity b : Rat) = 1 ↔ Alike a b := by
    rw [hmean, div_eq_one_iff_eq (hpos a b).ne', score_eq_weight_iff (weighed_terms a b),
      forall_closeness_eq_one_iff]
  refine ⟨congrArg weightedMean (terms_comm a b), ?_, ?_, hone a b, (hone a a).mpr (.refl a)⟩
  · rw [hmean]
    exact div_nonneg (score_nonneg (weighed_terms a b)) (hpos a b).le
  · rw [hmean, div_le_one₀ (hpos a b)]
    exact score_le_weight (weighed_terms a b)

/-- Workloads that differ in both flags, and of which only one knows its times, can still be as like
as can be. -/
example : (similarity { qubits := 4, scored := true, waitsForAll := true, meanTime := 7 }
    { qubits := 4 } : Rat) = 1 := by decide +kernel

end Superpose.Workload
