import Mathlib
import Superpose.Choice.Agreement
import Superpose.Proofs.Choice.Greatest

/-!
# The plurality of a vote

A vote sorts the results into blocs while it walks over them, and compares each result with the
first members of the blocs only. Where equality is symmetric and transitive that is enough:
`Canvassed` says what the blocs amount to after every step, and `canvassed_enrolAll` that they do so
in the end. A value that differs from itself founds a bloc of its own, in which it stays alone. The
largest bloc is then found without any bloc: it is known by the first result that most others equal
(`exists_vote_eq`).
-/

namespace Superpose.Choice

variable {α : Type} [BEq α]

/-- How many of some results a value has behind it: all that equal it, and at least itself. -/
def following (results : List α) (a : α) : Nat := max 1 (results.countP (· == a))

/-- A value at a position that no result before it equals. -/
structure Leads (seen : List α) (index : Nat) (a : α) : Prop where
  here : seen[index]? = some a
  first : ∀ j < index, ∀ s, seen[j]? = some s → (s == a) = false

theorem Leads.index_lt {seen : List α} {index : Nat} {a : α} (h : Leads seen index a) :
    index < seen.length :=
  (List.getElem?_eq_some_iff.mp h.here).1

theorem Leads.append {seen : List α} {index : Nat} {a : α} (h : Leads seen index a)
    (more : List α) : Leads (seen ++ more) index a where
  here := by rw [List.getElem?_append_left h.index_lt, h.here]
  first j hj s hs := by
    rw [List.getElem?_append_left (Nat.lt_trans hj h.index_lt)] at hs
    exact h.first j hj s hs

/-- Blocs that account for the results seen so far. -/
structure Canvassed (seen : List α) (blocs : List (Bloc α)) : Prop where
  ordered : (blocs.map Bloc.index).Pairwise (· < ·)
  leads : ∀ b ∈ blocs, Leads seen b.index b.member
  votes : ∀ b ∈ blocs, b.votes = following seen b.member
  joined : ∀ j s, seen[j]? = some s → ∃ b ∈ blocs, b.index = j ∨ b.member == s

/-- **What an enrolment can do**: it adds a vote to one bloc that the result belongs to, or opens a
bloc where the result belongs to none. -/
theorem enrol_cases (index : Nat) (r : α) (blocs : List (Bloc α)) :
    (∃ pre b post, blocs = pre ++ b :: post ∧ (b.member == r) = true ∧
        enrol index r blocs = pre ++ { b with votes := b.votes + 1 } :: post) ∨
      ((∀ b ∈ blocs, (b.member == r) = false) ∧
        enrol index r blocs = blocs ++ [⟨index, r, 1⟩]) := by
  induction blocs with
  | nil => exact Or.inr ⟨nofun, rfl⟩
  | cons c blocs ih =>
    cases hc : c.member == r with
    | true =>
      refine Or.inl ⟨[], c, blocs, rfl, hc, ?_⟩
      rw [enrol, if_pos hc]
      rfl
    | false =>
      have henrol : enrol index r (c :: blocs) = c :: enrol index r blocs := by
        rw [enrol, hc, if_neg Bool.false_ne_true]
      rcases ih with ⟨pre, b, post, rfl, hb, hjoin⟩ | ⟨hnone, hopen⟩
      · refine Or.inl ⟨c :: pre, b, post, rfl, hb, ?_⟩
        rw [henrol, hjoin]
        rfl
      · refine Or.inr ⟨List.forall_mem_cons.mpr ⟨hc, hnone⟩, ?_⟩
        rw [henrol, hopen]
        rfl

section Equality

variable [PartialEquivBEq α]

/-- Results that equal each other have the same results behind them. -/
theorem following_congr (results : List α) {a b : α} (h : a == b) :
    following results a = following results b := by
  have hcount : results.countP (· == a) = results.countP (· == b) :=
    List.countP_congr fun s _ => by rw [BEq.congr_right h]
  rw [following, following, hcount]

omit [PartialEquivBEq α] in
theorem following_concat_of_ne (seen : List α) {r a : α} (h : (r == a) = false) :
    following (seen ++ [r]) a = following seen a := by
  simp [following, h]

/-- A value among the results that equals the next one gets one result more behind it. -/
theorem following_concat_of_beq {seen : List α} {r a : α} (ha : a ∈ seen) (h : a == r) :
    following (seen ++ [r]) a = following seen a + 1 := by
  have hself : a == a := BEq.trans h (BEq.symm h)
  have hpos : 0 < seen.countP (· == a) := List.countP_pos_iff.mpr ⟨a, ha, hself⟩
  have hra : (r == a) = true := BEq.symm h
  simp only [following, List.countP_append, List.countP_singleton, hra, ↓reduceIte]
  omega

namespace Canvassed

variable {seen : List α} {blocs : List (Bloc α)}

/-- First members of two blocs differ: the later one is preceded by no result that equals it. -/
theorem member_ne {b c : Bloc α} (h : Canvassed seen blocs) (hb : b ∈ blocs) (hc : c ∈ blocs)
    (hindex : b.index ≠ c.index) : (b.member == c.member) = false := by
  rcases Nat.lt_or_gt_of_ne hindex with hlt | hgt
  · exact (h.leads c hc).first b.index hlt b.member (h.leads b hb).here
  · rw [BEq.comm]
    exact (h.leads b hb).first c.index hgt c.member (h.leads c hc).here

/-- Every result has a bloc that was opened with it or before it, and as many results behind it as
the first member there. -/
theorem exists_bloc (h : Canvassed seen blocs) {j : Nat} {s : α} (hs : seen[j]? = some s) :
    ∃ b ∈ blocs, b.index ≤ j ∧ b.votes = following seen s := by
  obtain ⟨b, hb, hjoined⟩ := h.joined j s hs
  have hleads := h.leads b hb
  refine ⟨b, hb, ?_⟩
  rcases hjoined with rfl | hequal
  · have hsame : b.member = s := Option.some.inj (hleads.here.symm.trans hs)
    exact ⟨Nat.le_refl _, hsame ▸ h.votes b hb⟩
  · refine ⟨Nat.le_of_not_lt fun hlt => ?_, ?_⟩
    · have hdiffers := hleads.first j hlt s hs
      rw [BEq.comm, hequal] at hdiffers
      cases hdiffers
    · rw [h.votes b hb, following_congr seen hequal]

omit [PartialEquivBEq α] in
/-- Blocs stand in the order in which they were opened. -/
theorem position_lt {b c : Bloc α} (h : Canvassed seen blocs) {j k : Nat} (hb : blocs[j]? = some b)
    (hc : blocs[k]? = some c) (hindex : b.index < c.index) : j < k := by
  obtain ⟨hj, rfl⟩ := List.getElem?_eq_some_iff.mp hb
  obtain ⟨hk, rfl⟩ := List.getElem?_eq_some_iff.mp hc
  rcases Nat.lt_trichotomy j k with hlt | rfl | hgt
  · exact hlt
  · exact absurd hindex (Nat.lt_irrefl _)
  · have hpair := List.pairwise_iff_getElem.mp h.ordered k j (by simpa using hk) (by simpa using hj)
      hgt
    rw [List.getElem_map, List.getElem_map] at hpair
    exact absurd hindex (Nat.lt_asymm hpair)

theorem join {pre post : List (Bloc α)} {b : Bloc α} {r : α}
    (h : Canvassed seen (pre ++ b :: post)) (hb : (b.member == r) = true) :
    Canvassed (seen ++ [r]) (pre ++ { b with votes := b.votes + 1 } :: post) := by
  have hmem : b ∈ pre ++ b :: post := List.mem_append_right pre List.mem_cons_self
  have hordered : (pre.map Bloc.index ++ b.index :: post.map Bloc.index).Pairwise (· < ·) := by
    simpa using h.ordered
  -- every bloc of the new list is an old one, and has the place and the first member of that
  have hold : ∀ c ∈ pre ++ { b with votes := b.votes + 1 } :: post,
      c = { b with votes := b.votes + 1 } ∨ (c ∈ pre ++ b :: post ∧ c.index ≠ b.index) := by
    intro c hc
    rw [List.pairwise_append, List.pairwise_cons] at hordered
    rcases List.mem_append.mp hc with hpre | hpost
    · have hlt := hordered.2.2 c.index (List.mem_map_of_mem hpre) b.index List.mem_cons_self
      exact Or.inr ⟨List.mem_append_left _ hpre, Nat.ne_of_lt hlt⟩
    · rcases List.mem_cons.mp hpost with rfl | hpost
      · exact Or.inl rfl
      · have hlt := hordered.2.1.1 c.index (List.mem_map_of_mem hpost)
        exact Or.inr ⟨List.mem_append_right pre (List.mem_cons_of_mem b hpost), Nat.ne_of_gt hlt⟩
  refine ⟨?_, fun c hc => ?_, fun c hc => ?_, fun j s hs => ?_⟩
  · simpa using h.ordered
  · rcases hold c hc with rfl | ⟨hc, -⟩
    · exact (h.leads b hmem).append [r]
    · exact (h.leads c hc).append [r]
  · rcases hold c hc with rfl | ⟨hc, hindex⟩
    · have hseen : b.member ∈ seen := List.mem_of_getElem? (h.leads b hmem).here
      show b.votes + 1 = following (seen ++ [r]) b.member
      rw [following_concat_of_beq hseen hb, h.votes b hmem]
    · -- the result equals the first member of `b`, and so no other one
      have hrc : (r == c.member) = false := by
        rw [← BEq.congr_left hb]
        exact h.member_ne hmem hc (Ne.symm hindex)
      rw [following_concat_of_ne seen hrc, h.votes c hc]
  · have hjoins : ∀ c ∈ pre ++ b :: post,
        ∃ d ∈ pre ++ { b with votes := b.votes + 1 } :: post,
          d.index = c.index ∧ d.member = c.member := by
      intro c hc
      rcases List.mem_append.mp hc with hpre | hpost
      · exact ⟨c, List.mem_append_left _ hpre, rfl, rfl⟩
      · rcases List.mem_cons.mp hpost with rfl | hpost
        · exact ⟨_, List.mem_append_right pre List.mem_cons_self, rfl, rfl⟩
        · exact ⟨c, List.mem_append_right pre (List.mem_cons_of_mem _ hpost), rfl, rfl⟩
    rcases getElem?_concat_cases hs with hs | ⟨-, rfl⟩
    · obtain ⟨c, hc, hjoined⟩ := h.joined j s hs
      obtain ⟨d, hd, hindex, hmember⟩ := hjoins c hc
      exact ⟨d, hd, by rwa [hindex, hmember]⟩
    · exact ⟨_, List.mem_append_right pre List.mem_cons_self, Or.inr hb⟩

theorem found {r : α} (h : Canvassed seen blocs) (hnone : ∀ b ∈ blocs, (b.member == r) = false) :
    Canvassed (seen ++ [r]) (blocs ++ [⟨seen.length, r, 1⟩]) := by
  -- a result seen before that equals this one would belong to a bloc, and this one with it
  have hnew : ∀ (j : Nat) (s : α), seen[j]? = some s → (s == r) = false := by
    intro j s hs
    obtain ⟨b, hb, hjoined⟩ := h.joined j s hs
    rw [← hnone b hb]
    rcases hjoined with rfl | hequal
    · rw [Option.some.inj (hs.symm.trans (h.leads b hb).here)]
    · exact (BEq.congr_left hequal).symm
  have hleads : Leads (seen ++ [r]) seen.length r := by
    refine ⟨List.getElem?_concat_length, fun j hj s hs => ?_⟩
    rw [List.getElem?_append_left hj] at hs
    exact hnew j s hs
  refine ⟨?_, fun c hc => ?_, fun c hc => ?_, fun j s hs => ?_⟩
  · rw [List.map_append, List.map_singleton, List.pairwise_append]
    refine ⟨h.ordered, List.pairwise_singleton _ _, fun i hi k hk => ?_⟩
    obtain ⟨b, hb, rfl⟩ := List.mem_map.mp hi
    rw [List.mem_singleton.mp hk]
    exact (h.leads b hb).index_lt
  · rcases List.mem_append.mp hc with hc | hc
    · exact (h.leads c hc).append [r]
    · rw [List.mem_singleton.mp hc]
      exact hleads
  · rcases List.mem_append.mp hc with hc | hc
    · have hrc : (r == c.member) = false := by rw [BEq.comm, hnone c hc]
      rw [following_concat_of_ne seen hrc, h.votes c hc]
    · have hcount : seen.countP (· == r) = 0 := by
        rw [List.countP_eq_zero]
        intro s hs
        obtain ⟨j, hj⟩ := List.mem_iff_getElem?.mp hs
        simp [hnew j s hj]
      rw [List.mem_singleton.mp hc]
      simp only [following, List.countP_append, List.countP_singleton, hcount]
      split <;> rfl
  · rcases getElem?_concat_cases hs with hs | ⟨rfl, -⟩
    · obtain ⟨c, hc, hjoined⟩ := h.joined j s hs
      exact ⟨c, List.mem_append_left _ hc, hjoined⟩
    · exact ⟨_, List.mem_append_right blocs (List.mem_singleton.mpr rfl), Or.inl rfl⟩

/-- One step of a vote. -/
theorem enrol (h : Canvassed seen blocs) (r : α) :
    Canvassed (seen ++ [r]) (Choice.enrol seen.length r blocs) := by
  rcases enrol_cases seen.length r blocs with ⟨pre, b, post, rfl, hb, hjoin⟩ | ⟨hnone, hopen⟩
  · rw [hjoin]
    exact h.join hb
  · rw [hopen]
    exact h.found hnone

/-- **The blocs account for all results seen so far.** -/
theorem enrolAll (h : Canvassed seen blocs) (rest : List α) :
    Canvassed (seen ++ rest) (Choice.enrolAll blocs seen.length rest) := by
  induction rest generalizing seen blocs with
  | nil => simpa only [Choice.enrolAll, List.append_nil] using h
  | cons r rest ih =>
    have hnext := ih (h.enrol r)
    rw [List.length_append, List.length_singleton, List.append_assoc] at hnext
    exact hnext

end Canvassed

theorem canvassed_enrolAll (results : List α) : Canvassed results (enrolAll [] 0 results) := by
  have hnone : Canvassed ([] : List α) [] := ⟨List.Pairwise.nil, nofun, nofun, nofun⟩
  exact hnone.enrolAll results

/-- **The result that most others equal**: the first of greatest following, and a vote is for it
unless there are several results and no two of them agree. -/
theorem exists_vote_eq {results : List α} (h : results ≠ []) :
    ∃ i a, results[i]? = some a ∧
      (∀ j s, results[j]? = some s → following results s ≤ following results a ∧
        (j < i → following results s < following results a)) ∧
      vote results = if 1 < results.length ∧ following results a < 2 then
        .error (.noConsensus (following results a) results.length) else .ok i := by
  have hcanvassed := canvassed_enrolAll results
  generalize hblocs : enrolAll [] 0 results = blocs at hcanvassed
  have hne : (blocs.map fun b => (b.votes : Int)) ≠ [] := by
    obtain ⟨a, ha⟩ := List.exists_mem_of_ne_nil results h
    obtain ⟨j, hj⟩ := List.mem_iff_getElem?.mp ha
    obtain ⟨b, hb, -⟩ := hcanvassed.exists_bloc hj
    simpa using List.ne_nil_of_mem hb
  obtain ⟨top, hkey, hgreatest⟩ := exists_tops_firstGreatest hne
  generalize hk : firstGreatest (blocs.map fun b => (b.votes : Int)) = k at hkey hgreatest
  simp only at hkey hgreatest
  rw [List.getElem?_map] at hkey
  obtain ⟨w, hw, rfl⟩ := Option.map_eq_some_iff.mp hkey
  have hmem : w ∈ blocs := List.mem_of_getElem? hw
  have hvotes := hcanvassed.votes w hmem
  refine ⟨w.index, w.member, (hcanvassed.leads w hmem).here, fun j s hs => ?_, ?_⟩
  · obtain ⟨b, hb, hle, hbvotes⟩ := hcanvassed.exists_bloc hs
    obtain ⟨m, hm⟩ := List.mem_iff_getElem?.mp hb
    obtain ⟨hmost, hmore⟩ := hgreatest m b.votes (by rw [List.getElem?_map, hm, Option.map_some])
    rw [← hbvotes, ← hvotes]
    refine ⟨Int.ofNat_le.mp hmost, fun hlt => Int.ofNat_lt.mp (hmore ?_)⟩
    exact hcanvassed.position_lt hm hw (Nat.lt_of_le_of_lt hle hlt)
  · simp only [vote, hblocs, hk, hw, hvotes]

/-- A value that more than half of the results equal outnumbers every value that differs from it. -/
theorem countP_beq_add_le {a b : α} (h : (a == b) = false) (results : List α) :
    results.countP (· == a) + results.countP (· == b) ≤ results.length := by
  induction results with
  | nil => exact Nat.le_refl 0
  | cons r results ih =>
    -- a result that equals `a` differs from `b`, as `a` does
    have hone : (if r == a then 1 else 0) + (if r == b then 1 else 0) ≤ 1 := by
      cases hra : r == a with
      | false => cases r == b <;> decide
      | true =>
        rw [BEq.congr_left hra, h]
        decide
    rw [List.countP_cons, List.countP_cons, List.length_cons]
    omega

/-- **The plurality wins a vote.** For an equality that is symmetric and transitive, the first
result of greatest following wins if it is the only result or if two results at least agree on it;
otherwise no two results agree, and there is no consensus. A value that more than half of two or
more results equal always wins. -/
theorem plurality {results : List α} (h : results ≠ []) :
    ∃ i a, results[i]? = some a ∧
      (∀ j s, results[j]? = some s → following results s ≤ following results a ∧
        (j < i → following results s < following results a)) ∧
      (results.length = 1 ∨ 2 ≤ following results a → vote results = .ok i) ∧
      (¬ (results.length = 1 ∨ 2 ≤ following results a) →
        vote results = .error (.noConsensus 1 results.length)) ∧
      ∀ b, 2 ≤ results.length → results.length < 2 * results.countP (· == b) →
        vote results = .ok i ∧ a == b := by
  obtain ⟨i, a, hi, hgreatest, hvote⟩ := exists_vote_eq h
  have hlength : 0 < results.length := List.length_pos_iff.mpr h
  have hfollowing : 1 ≤ following results a := Nat.le_max_left ..
  have hwins : results.length = 1 ∨ 2 ≤ following results a → vote results = .ok i := by
    intro hagreed
    rw [hvote, if_neg (by omega)]
  refine ⟨i, a, hi, hgreatest, hwins, fun hdivided => ?_, fun b htwo hmost => ?_⟩
  · have hone : following results a = 1 := by omega
    rw [hvote, if_pos (by omega), hone]
  · -- some result equals `b`, and it has as many behind it as `b`
    have hpos : 0 < results.countP (· == b) := by omega
    obtain ⟨s, hs, hsb⟩ := List.countP_pos_iff.mp hpos
    obtain ⟨j, hj⟩ := List.mem_iff_getElem?.mp hs
    have hle := (hgreatest j s hj).1
    rw [following_congr results hsb] at hle
    have hmajority : results.countP (· == b) ≤ following results a :=
      Nat.le_trans (Nat.le_max_right ..) hle
    refine ⟨hwins (Or.inr (by omega)), ?_⟩
    refine Bool.of_not_eq_false fun hdiffers => ?_
    have hboth := countP_beq_add_le hdiffers results
    have hcount : following results a = results.countP (· == a) := by
      rw [following] at hmajority ⊢
      omega
    omega

end Equality

/-- Three equal numbers of five win, and the others, which are none, agree with nothing. -/
theorem plurality_undefined :
    let results : List Float := [.nan, 3, .nan, 3, 3]
    results.map (following results) = [1, 3, 1, 3, 3] ∧
      ∃ i a, results[i]? = some a ∧ vote results = .ok i ∧ a == 3 := by
  intro results
  have hne : results ≠ [] := List.cons_ne_nil _ _
  obtain ⟨i, a, hi, -, -, -, hmost⟩ := plurality hne
  obtain ⟨hvote, ha⟩ := hmost 3 (by decide) (by decide +kernel)
  exact ⟨by decide +kernel, i, a, hi, hvote, ha⟩

end Superpose.Choice
