import Superpose.Proofs.Choice.Greatest
import Superpose.Reduction

/-!
# Choices stay among the results

However results score, every choice among one result or more names one of them. Most choices name
the place of a greatest key, and `firstGreatest_lt` settles them; the draws, the blocs of a vote and
the members of a panel have an arithmetic of their own. `Trend.Kept` are the histories that come
about by recording and forgetting; their lists are as long as their window.
-/

namespace Superpose.Choice

variable {α : Type}

theorem firstGreatest_map_lt (key : α → Int) {results : List α} (h : results ≠ []) :
    firstGreatest (results.map key) < results.length := by
  have hne : results.map key ≠ [] := by simpa using h
  have hlt := firstGreatest_lt hne
  rwa [List.length_map] at hlt

theorem best_lt (score : α → Int32) {results : List α} (h : results ≠ []) :
    best score results < results.length := firstGreatest_map_lt _ h

theorem progressive_lt (score? : Option (α → Int32)) {results : List α} (h : results ≠ []) :
    progressive score? results < results.length := by
  cases score? with
  | none => exact List.length_pos_iff.mpr h
  | some score =>
    have hclimb : progressive (some score) results = best score results := climb_add_one 2 _
    rw [hclimb]
    exact best_lt score h

theorem weighted_lt (criteria : Criteria α) {results : List α} (h : results ≠ []) :
    weighted criteria results < results.length := firstGreatest_map_lt _ h

/-! ## Draws -/

theorem reach?_lt {target : Int64} {scores : List Int32} : ∀ {sum : Int64} {next i : Nat},
    reach? target sum next scores = some i → i < next + scores.length := by
  induction scores with
  | nil => intro sum next i h; cases h
  | cons s ss ih =>
    intro sum next i h
    rw [reach?] at h
    rw [List.length_cons]
    split at h
    · cases h
      omega
    · have := ih h
      omega

theorem drawn_lt (draw : Nat) {scores : List Int32} (h : scores ≠ []) :
    drawn draw scores < scores.length := by
  have hpos : 0 < scores.length := List.length_pos_iff.mpr h
  unfold drawn
  split
  · exact firstGreatest_map_lt _ h
  · split
    · cases hreach : reach? (Int64.ofNat draw * total scores / 100) 0 0 scores with
      | none => exact hpos
      | some i => simpa using reach?_lt hreach
    · exact Nat.mod_lt draw hpos

theorem fuzzy_lt (score : α → Int32) {results : List α} (h : results ≠ []) :
    fuzzy score results < results.length := by
  cases results with
  | nil => exact absurd rfl h
  | cons r rs =>
    have hne : (r :: rs).map score ≠ [] := by simp
    have hlt := drawn_lt (percentage (score r)) hne
    rwa [List.length_map] at hlt

theorem simpleDraw_lt (score : α → Int32) {results : List α} (h : results ≠ []) :
    simpleDraw score results < results.length := by
  have htop := best_lt score h
  have hpos : 0 < results.length := List.length_pos_iff.mpr h
  unfold simpleDraw
  simp only [List.getElem?_eq_getElem htop]
  split
  · exact Nat.mod_lt _ hpos
  · exact htop

/-! ## Speculation -/

theorem lt_of_mem_contradictions {guess : Int32} {next : Nat} {scores : List Int32}
    {s : Int32 × Nat} (h : s ∈ contradictions guess next scores) : s.2 < next + scores.length := by
  have hmem := (List.mem_filter.mp h).1
  exact (List.mem_zipIdx hmem).2.1

theorem speculate_le (guess : Int32) (others : List Int32) :
    speculate guess others ≤ others.length := by
  unfold speculate
  simp only
  split
  · exact Nat.zero_le _
  · rename_i score index hstrongest
    have hlt := lt_of_mem_contradictions (List.mem_of_getElem? hstrongest)
    split
    · simp only at hlt
      omega
    · exact Nat.zero_le _

theorem speculative_lt (score : α → Int32) {results : List α} (h : results ≠ []) :
    speculative score results < results.length := by
  cases results with
  | nil => exact absurd rfl h
  | cons r rs =>
    have hle := speculate_le (score r) (rs.map score)
    rw [List.length_map] at hle
    exact Nat.lt_succ_of_le hle

/-! ## Trends -/

namespace Trend

/-- The histories that come about by recording and forgetting. -/
inductive Kept : Trend → Prop
  | ofWindow (window : Nat) (weight : Int32) : Kept (.ofWindow window weight)
  | record {t : Trend} (h : Kept t) (scores : List Int32) (now : UInt64) :
      Kept (t.record scores now)
  | clear {t : Trend} (h : Kept t) : Kept t.clear

theorem Kept.lengths {t : Trend} (h : t.Kept) :
    t.scores.length = t.window ∧ t.times.length = t.window ∧ t.recorded ≤ t.window := by
  induction h with
  | ofWindow window weight => simp [Trend.ofWindow]
  | record _ scores now ih =>
    obtain ⟨hscores, htimes, hrecorded⟩ := ih
    simp only [Trend.record, List.length_append, List.length_take, List.length_drop,
      List.length_replicate]
    omega
  | clear _ ih => simpa [Trend.clear] using ⟨ih.1, ih.2.1⟩

theorem length_blendAll (t : Trend) (scores : List Int32) :
    ∀ next, (t.blendAll next scores).length = scores.length := by
  induction scores with
  | nil => intro next; rfl
  | cons s ss ih => intro next; rw [blendAll, List.length_cons, List.length_cons, ih]

theorem choose_lt (t : Trend) {scores : List Int32} (h : scores ≠ []) :
    t.choose scores < scores.length := by
  have hne : t.blendAll 0 scores ≠ [] := by
    rw [← List.length_pos_iff, length_blendAll]
    exact List.length_pos_iff.mpr h
  have hlt := firstGreatest_lt hne
  rwa [length_blendAll] at hlt

end Trend

/-! ## Votes -/

section Votes

variable [BEq α]

/-- Blocs of results: each one is known by the place of its first member. -/
def KnownIn (results : List α) (blocs : List (Bloc α)) : Prop :=
  ∀ b ∈ blocs, results[b.index]? = some b.member

theorem KnownIn.enrol {results : List α} {index : Nat} {result : α}
    (hindex : results[index]? = some result) :
    ∀ {blocs : List (Bloc α)}, KnownIn results blocs →
      KnownIn results (enrol index result blocs) ∧ enrol index result blocs ≠ [] := by
  intro blocs
  induction blocs with
  | nil =>
    intro _
    refine ⟨fun b hb => ?_, List.cons_ne_nil _ _⟩
    rw [Choice.enrol, List.mem_singleton] at hb
    rw [hb, hindex]
  | cons b bs ih =>
    intro h
    obtain ⟨hb, hbs⟩ := List.forall_mem_cons.mp h
    rw [Choice.enrol]
    split
    · exact ⟨List.forall_mem_cons.mpr ⟨hb, hbs⟩, List.cons_ne_nil _ _⟩
    · exact ⟨List.forall_mem_cons.mpr ⟨hb, (ih hbs).1⟩, List.cons_ne_nil _ _⟩

theorem KnownIn.enrolAll {results : List α} {rest : List α} :
    ∀ {blocs : List (Bloc α)} {next : Nat}, KnownIn results blocs → results.drop next = rest →
      KnownIn results (enrolAll blocs next rest) ∧
        (rest ≠ [] ∨ blocs ≠ [] → Choice.enrolAll blocs next rest ≠ []) := by
  induction rest with
  | nil =>
    intro blocs next h _
    exact ⟨h, fun hne => hne.resolve_left fun hnil => hnil rfl⟩
  | cons r rs ih =>
    intro blocs next h hrest
    have hnext : results[next]? = some r := by
      rw [← List.head?_drop, hrest, List.head?_cons]
    have htail : results.drop (next + 1) = rs := by
      rw [← List.tail_drop, hrest, List.tail_cons]
    obtain ⟨henrol, hne⟩ := h.enrol hnext
    obtain ⟨hknown, hall⟩ := ih henrol htail
    exact ⟨hknown, fun _ => hall (Or.inr hne)⟩

theorem knownIn_enrolAll (results : List α) : KnownIn results (enrolAll [] 0 results) := by
  have hnone : KnownIn results [] := fun _ hb => absurd hb List.not_mem_nil
  exact (hnone.enrolAll List.drop_zero).1

theorem enrolAll_ne_nil {results : List α} (h : results ≠ []) : enrolAll [] 0 results ≠ [] := by
  have hnone : KnownIn results [] := fun _ hb => absurd hb List.not_mem_nil
  exact (hnone.enrolAll List.drop_zero).2 (Or.inl h)

theorem vote_lt {results : List α} {i : Nat} (h : vote results = .ok i) : i < results.length := by
  unfold vote at h
  simp only at h
  split at h
  · cases h
  · rename_i winner hwinner
    split at h
    · cases h
    · cases h
      have hmem := List.mem_of_getElem? hwinner
      exact (List.getElem?_eq_some_iff.mp (knownIn_enrolAll results winner hmem)).1

end Votes

/-! ## Panels -/

theorem nominee_lt (tools : Toolkit α) {results : List α} (h : results ≠ []) (s : Strategy) :
    nominee tools results s < results.length := by
  have hpos : 0 < results.length := List.length_pos_iff.mpr h
  cases s with
  | lastWins => exact Nat.sub_one_lt (Nat.ne_of_gt hpos)
  | best =>
    simp only [nominee]
    split
    · exact best_lt _ h
    · exact hpos
  | fuzzy =>
    simp only [nominee]
    split
    · exact simpleDraw_lt _ h
    · exact hpos
  | multiDim =>
    simp only [nominee]
    split
    · exact weighted_lt _ h
    · exact hpos
  | temporal =>
    simp only [nominee]
    split
    · rename_i score trend _ _
      have hne : results.map score ≠ [] := by simpa using h
      have hlt := trend.choose_lt hne
      rwa [List.length_map] at hlt
    · exact hpos
  | firstWins | vote | combine | validate | custom | progressive | speculative | ensemble =>
    exact hpos

theorem length_tally (count : Nat) (ballots : List (Nat × Int32)) :
    (tally count ballots).length = count := by
  suffices h : ∀ votes : List Int,
      (ballots.foldl (fun votes b => votes.modify b.1 (· + b.2.toInt)) votes).length =
        votes.length by
    rw [tally, h, List.length_replicate]
  induction ballots with
  | nil => intro votes; rfl
  | cons b bs ih => intro votes; rw [List.foldl_cons, ih, List.length_modify]

theorem elected_lt (tools : Toolkit α) (panel : Panel) {results : List α} (h : results ≠ []) :
    elected tools panel results < results.length := by
  have hlength := length_tally results.length (ballots tools panel results)
  have hne : tally results.length (ballots tools panel results) ≠ [] := by
    rw [← List.length_pos_iff, hlength]
    exact List.length_pos_iff.mpr h
  have hlt := firstGreatest_lt hne
  rwa [hlength] at hlt

end Superpose.Choice
