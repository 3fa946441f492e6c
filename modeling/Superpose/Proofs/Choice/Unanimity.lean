import Superpose.Proofs.Choice.Plurality
import Superpose.Reduction

/-!
# Unanimity and plurality

A validation compares every result with the first one and stops at the first difference
(`validate_eq_error_iff`); a vote gathers the results into blocs of equals. For an equality that is
symmetric and transitive the two cannot contradict each other: results that validate are a single
bloc, whose first member wins the vote (`vote_eq_of_unanimous`), and results on which no vote can be
decided already differ in the second place (`second_ne_of_vote_error`).
-/

namespace Superpose.Choice

variable {α : Type} [BEq α]

/-! ## Validation -/

/-- The first of the results behind the head `r` that differs from it. -/
structure FirstDissent (results : List α) (r : α) (index : Nat) : Prop where
  behind : 0 < index
  here : ∃ s, results[index]? = some s ∧ (s == r) = false
  first : ∀ j s, 0 < j → j < index → results[j]? = some s → (s == r) = true

theorem firstDeviation_eq_findIdx? (r : α) (rs : List α) : ∀ next,
    firstDeviation r next rs = (rs.findIdx? fun s => !(s == r)).map (next + ·) := by
  induction rs with
  | nil => exact fun _ => rfl
  | cons s rs ih =>
    intro next
    rw [firstDeviation, List.findIdx?_cons]
    cases s == r with
    | true => simp [ih, Function.comp_def, Nat.add_comm, Nat.add_left_comm]
    | false => rfl

theorem firstDeviation_eq_none_iff {r : α} {rs : List α} (next : Nat) :
    firstDeviation r next rs = none ↔ ∀ s ∈ rs, (s == r) = true := by
  simp [firstDeviation_eq_findIdx?, List.findIdx?_eq_none_iff]

theorem firstDeviation_eq_some_iff {r : α} {rs : List α} {index : Nat} :
    firstDeviation r 1 rs = some index ↔ FirstDissent (r :: rs) r index := by
  rw [firstDeviation_eq_findIdx?, Option.map_eq_some_iff]
  constructor
  · rintro ⟨k, hk, rfl⟩
    obtain ⟨hlt, hdiffers, hbefore⟩ := List.findIdx?_eq_some_iff_getElem.mp hk
    rw [Nat.add_comm 1 k]
    refine ⟨Nat.succ_pos k, ⟨rs[k], by simp [hlt], by simpa using hdiffers⟩,
      fun j s hj hjk hs => ?_⟩
    obtain ⟨j, rfl⟩ := Nat.exists_eq_succ_of_ne_zero (Nat.ne_of_gt hj)
    obtain ⟨-, rfl⟩ := List.getElem?_eq_some_iff.mp hs
    simpa using hbefore j (Nat.lt_of_succ_lt_succ hjk)
  · rintro ⟨hbehind, ⟨s, hs, hdiffers⟩, hfirst⟩
    obtain ⟨k, rfl⟩ := Nat.exists_eq_succ_of_ne_zero (Nat.ne_of_gt hbehind)
    obtain ⟨hlt, rfl⟩ := List.getElem?_eq_some_iff.mp hs
    refine ⟨k, List.findIdx?_eq_some_iff_getElem.mpr ⟨Nat.lt_of_succ_lt_succ hlt, ?_, ?_⟩,
      Nat.add_comm 1 k⟩
    · simpa using hdiffers
    · intro j hj
      have hsame := hfirst (j + 1) _ (Nat.succ_pos j) (Nat.succ_lt_succ hj)
        (List.getElem?_eq_getElem (Nat.lt_trans (Nat.succ_lt_succ hj) hlt))
      simpa using hsame

/-- **A validation succeeds just where every result equals the first one.** -/
theorem validate_eq_ok_iff {r : α} {rs : List α} :
    validate (r :: rs) = .ok () ↔ ∀ s ∈ rs, (s == r) = true := by
  rw [← firstDeviation_eq_none_iff 1, validate]
  cases firstDeviation r 1 rs <;> simp

/-- **A validation that fails names the first result that differs.** -/
theorem validate_eq_error_iff {r : α} {rs : List α} {fault : CollapseFault} :
    validate (r :: rs) = .error fault ↔
      ∃ index, fault = .mismatch index ∧ FirstDissent (r :: rs) r index := by
  simp only [← firstDeviation_eq_some_iff, validate]
  cases firstDeviation r 1 rs with
  | none => simp
  | some index => simp [eq_comm]

/-! ## Votes on the same results -/

theorem following_le_length {results : List α} (h : results ≠ []) (a : α) :
    following results a ≤ results.length :=
  Nat.max_le.mpr ⟨List.length_pos_iff.mpr h, List.countP_le_length⟩

variable [PartialEquivBEq α]

/-- A result that another one equals equals itself. -/
theorem beq_self_of_beq {r s : α} (h : s == r) : r == r := BEq.trans (BEq.symm h) h

/-- Results that all equal the first one are behind it. -/
theorem following_eq_length {r : α} {rs : List α} (h : ∀ s ∈ rs, (s == r) = true) :
    following (r :: rs) r = (r :: rs).length := by
  cases rs with
  | nil =>
    exact Nat.le_antisymm (following_le_length (List.cons_ne_nil r []) r) (Nat.le_max_left ..)
  | cons s ss =>
    have hself : r == r := beq_self_of_beq (h s List.mem_cons_self)
    have hcount : (r :: s :: ss).countP (· == r) = (r :: s :: ss).length :=
      List.countP_eq_length.mpr (List.forall_mem_cons.mpr ⟨hself, h⟩)
    rw [following, hcount, List.length_cons]
    omega

theorem vote_eq_of_unanimous {r : α} {rs : List α} (h : ∀ s ∈ rs, (s == r) = true) :
    vote (r :: rs) = .ok 0 := by
  obtain ⟨i, a, hi, hgreatest, hvote⟩ := exists_vote_eq (List.cons_ne_nil r rs)
  have hfollowing := following_eq_length h
  obtain ⟨hle, hlt⟩ := hgreatest 0 r rfl
  have hmost := following_le_length (List.cons_ne_nil r rs) a
  have hzero : i = 0 := by omega
  rw [hvote, hzero, if_neg (by omega)]

theorem second_ne_of_vote_error {r : α} {rs : List α} {fault : CollapseFault}
    (h : vote (r :: rs) = .error fault) : ∃ s ss, rs = s :: ss ∧ (s == r) = false := by
  obtain ⟨i, a, -, hgreatest, hvote⟩ := exists_vote_eq (List.cons_ne_nil r rs)
  rw [hvote] at h
  split at h
  · next hdivided =>
    cases rs with
    | nil => exact absurd hdivided.1 (by simp)
    | cons s ss =>
      refine ⟨s, ss, rfl, Bool.of_not_eq_true fun hequal => ?_⟩
      -- then both of the first two results would be behind the first one
      have hself : r == r := beq_self_of_beq hequal
      have hpair : 2 ≤ following (r :: s :: ss) r := by
        simp only [following, List.countP_cons, hself, hequal, ↓reduceIte]
        omega
      have hle := (hgreatest 0 r rfl).1
      omega
  · cases h

/-- **Validation and vote agree.** A validation of one result or more succeeds just where every
other result equals the first one, and otherwise names the first one that does not. Where it
succeeds, the vote on the same results is for the first one, so that the two strategies come to the
same; where the vote is undecided, the validation fails at the second result. -/
theorem unanimity (r : α) (rs : List α) :
    (validate (r :: rs) = .ok () ↔ ∀ s ∈ rs, (s == r) = true) ∧
      (∀ fault, validate (r :: rs) = .error fault ↔
        ∃ index, fault = .mismatch index ∧ FirstDissent (r :: rs) r index) ∧
      (validate (r :: rs) = .ok () →
        vote (r :: rs) = .ok 0 ∧
          ∀ (output : α) (tools : Toolkit α) (now : UInt64),
            reduce .validate (r :: rs) output tools now = reduce .vote (r :: rs) output tools now) ∧
      ∀ fault, vote (r :: rs) = .error fault → validate (r :: rs) = .error (.mismatch 1) := by
  refine ⟨validate_eq_ok_iff, fun fault => validate_eq_error_iff, fun hvalid => ?_,
    fun fault hundecided => ?_⟩
  · have hvote := vote_eq_of_unanimous (validate_eq_ok_iff.mp hvalid)
    refine ⟨hvote, fun output tools now => ?_⟩
    simp only [reduce, ruling, hvalid, hvote]
  · obtain ⟨s, ss, rfl, hdiffers⟩ := second_ne_of_vote_error hundecided
    refine validate_eq_error_iff.mpr ⟨1, rfl, Nat.one_pos, ⟨s, rfl, hdiffers⟩, ?_⟩
    exact fun j t hpos hlt => absurd hlt (Nat.not_lt.mpr hpos)

/-- Equal numbers validate, and the first wins the vote. Numbers none of which equals another, nor
itself where it is undefined, leave the vote undecided and differ at once. -/
theorem unanimity_undefined :
    let equal : List Float := [3, 3, 3]
    let different : List Float := [.nan, 3, .nan]
    validate equal = .ok () ∧ vote equal = .ok 0 ∧
      vote different = .error (.noConsensus 1 3) ∧ validate different = .error (.mismatch 1) ∧
      FirstDissent different .nan 1 := by
  intro equal different
  have hequal : ∀ s ∈ [(3 : Float), 3], (s == 3) = true := by decide +kernel
  have hundecided : vote different = .error (.noConsensus 1 3) := by decide +kernel
  have hvalid := (unanimity (3 : Float) [3, 3]).1.mpr hequal
  obtain ⟨-, hnames, -, hdiffers⟩ := unanimity Float.nan [3, .nan]
  have hinvalid := hdiffers _ hundecided
  obtain ⟨index, hindex, hdissent⟩ := (hnames _).mp hinvalid
  cases hindex
  exact ⟨hvalid, ((unanimity (3 : Float) [3, 3]).2.2.1 hvalid).1, hundecided, hinvalid, hdissent⟩

end Superpose.Choice
