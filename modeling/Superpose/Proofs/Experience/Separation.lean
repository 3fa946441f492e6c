import Superpose.Proofs.Experience.Search

/-!
# Separation of workloads

An observation goes to the first entry of greatest likeness if that reaches the threshold, and opens
an entry otherwise. So no entry that is opened reaches the threshold with an entry before it, and as
entries never change their workloads, no two of them ever do (`Separated`). Likeness may be measured
in any numbers in a linear order; how they are rounded does not matter. What does matter is that the
threshold is above 0, as the search passes over entries whose likeness is not.
-/

namespace Superpose.Experience

variable {K : Type} [Scale K]

/-- Of the entries of a list, one is the first of greatest likeness. -/
structure Nearest (w : Workload) (front : List (Entry K)) (e : Entry K) (back : List (Entry K)) :
    Prop where
  before : ∀ e' ∈ front, e'.likeness w < e.likeness w
  behind : ∀ e' ∈ back, e'.likeness w ≤ e.likeness w

/-- No entry reaches the threshold with one before it. -/
def Separated (x : Experience K) : Prop :=
  (x.entries.map Entry.workload).Pairwise fun w w' =>
    w'.similarity w < x.settings.matchThreshold

/-! ## The search -/

section Search

variable [Std.IsLinearOrder K] [Std.LawfulOrderLT K] {w : Workload} {x : Experience K}
  (hpositive : 0.0 < x.settings.matchThreshold)

include hpositive

theorem likeness_lt_of_matching_eq_none (h : x.matching w = none) :
    ∀ e ∈ x.entries, e.likeness w < x.settings.matchThreshold := by
  obtain ⟨best, hfound, hnearest⟩ := exists_found_nearest x w
  rw [matching, hnearest] at h
  cases hfound with
  | nothing hlow => exact fun e he => Std.lt_of_le_of_lt (Std.not_lt.mp (hlow e he)) hpositive
  | @item front top back hwhole halike htops =>
    simp only [Option.map_some, ite_eq_right_iff, reduceCtorEq, imp_false, Std.not_le] at h
    intro e he
    rw [hwhole] at he
    rcases List.mem_append.mp he with hbefore | hafter
    · exact Std.lt_trans (Std.not_le.mp (htops.before e hbefore)) h
    · rcases List.mem_cons.mp hafter with rfl | hbehind
      · exact h
      · exact Std.lt_of_le_of_lt (Std.not_lt.mp (htops.behind e hbehind)) h

omit hpositive in
theorem nearest_of_matching_eq_some {front back : List (Entry K)} {e : Entry K}
    (hwhole : x.entries = front ++ e :: back) (h : x.matching w = some front.length) :
    Nearest w front e back ∧ x.settings.matchThreshold ≤ e.likeness w := by
  obtain ⟨best, hfound, hnearest⟩ := exists_found_nearest x w
  rw [matching, hnearest] at h
  cases hfound with
  | nothing => cases h
  | @item front' top back' hwhole' halike htops =>
    simp only [Option.map_some, Option.ite_none_right_eq_some, Option.some.injEq] at h
    obtain ⟨hreached, hsame⟩ := h
    obtain ⟨rfl, hrest⟩ := List.append_inj (hwhole.symm.trans hwhole') hsame.symm
    obtain ⟨rfl, rfl⟩ := List.cons.inj hrest
    exact ⟨⟨fun e' he' => Std.not_le.mp (htops.before e' he'),
      fun e' he' => Std.not_lt.mp (htops.behind e' he')⟩, hreached⟩

theorem matching_eq_none_iff :
    x.matching w = none ↔ ∀ e ∈ x.entries, e.likeness w < x.settings.matchThreshold := by
  refine ⟨likeness_lt_of_matching_eq_none hpositive, fun hfar => ?_⟩
  cases hfound : x.matching w with
  | none => rfl
  | some i =>
    obtain ⟨front, e, back, hwhole, rfl, -⟩ :=
      List.exists_of_modify id (index_lt_of_matching hfound)
    have hreached := (nearest_of_matching_eq_some hwhole hfound).2
    exact absurd (hfar e (by simp [hwhole])) (Std.not_lt.mpr hreached)

theorem Separated.observe (h : x.Separated) (o : Observation K) : (x.observe o).Separated := by
  have hseen := observing x o
  generalize x.observe o = y at hseen ⊢
  cases hseen with
  | off | lost => exact h
  | folded _ hwhole =>
    -- The entry that changes keeps its workload.
    simpa [Separated, hwhole, fold, Entry.update] using h
  | opened _ hnew =>
    rw [Separated, List.map_append, List.map_singleton, List.pairwise_append]
    refine ⟨h, List.pairwise_singleton .., fun w hold w' hown => ?_⟩
    obtain ⟨e, he, rfl⟩ := List.mem_map.mp hold
    rw [List.mem_singleton.mp hown]
    exact likeness_lt_of_matching_eq_none hpositive hnew e he

end Search

/-! ## Calls -/

theorem settings_observe (x : Experience K) (o : Observation K) :
    (x.observe o).settings = x.settings := by
  have hseen := observing x o
  generalize x.observe o = y at hseen
  cases hseen <;> rfl

theorem settings_perform (x : Experience K) (c : Operation K) :
    (c.perform x).2.settings = x.settings := by
  have hdone := c.effect x
  generalize (c.perform x).2 = y at hdone
  cases hdone with
  | @observed o => exact settings_observe x o
  | reset | aside => rfl

theorem settings_performAll (x : Experience K) (calls : List (Operation K)) :
    (x.performAll calls).settings = x.settings := by
  induction calls generalizing x with
  | nil => rfl
  | cons c calls ih => exact (ih _).trans (settings_perform x c)

section Calls

variable [Std.IsLinearOrder K] [Std.LawfulOrderLT K]

theorem Separated.perform {x : Experience K} (hpositive : 0.0 < x.settings.matchThreshold)
    (h : x.Separated) (c : Operation K) : (c.perform x).2.Separated := by
  have hdone := c.effect x
  generalize (c.perform x).2 = y at hdone ⊢
  cases hdone with
  | observed => exact h.observe hpositive _
  | reset => exact .nil
  | aside => exact h

theorem Separated.performAll {x : Experience K} (hpositive : 0.0 < x.settings.matchThreshold)
    (h : x.Separated) (calls : List (Operation K)) : (x.performAll calls).Separated := by
  induction calls generalizing x with
  | nil => exact h
  | cons c calls ih =>
    refine ih ?_ (h.perform hpositive c)
    rw [settings_perform]
    exact hpositive

/-- After any calls no entry reaches the threshold with one before it, and of the next report to an
experience that is switched on: it opens an entry just if its workload reaches the threshold with no
entry and there is room; without room it is lost; and otherwise it goes to the first entry of
greatest likeness, which is at least the threshold. -/
theorem separation (s : Settings K) (hpositive : 0.0 < s.matchThreshold)
    (calls : List (Operation K)) :
    let x := (ofSettings s).performAll calls
    x.Separated ∧
      ∀ (c : Operation K) (o : Observation K), c.observation? = some o → x.enabled = true →
        let y := (c.perform x).2
        let new := ∀ e ∈ x.entries, e.likeness o.workload < s.matchThreshold
        ((∃ e, y.entries = x.entries ++ [e]) ↔ new ∧ x.room o.memory ≠ none) ∧
          (new → x.room o.memory ≠ none →
            y.entries = x.entries ++ [x.fold o (.ofWorkload o.workload)]) ∧
          (new → x.room o.memory = none → y = x) ∧
          (¬ new → ∃ front e back, x.entries = front ++ e :: back ∧
            Nearest o.workload front e back ∧ s.matchThreshold ≤ e.likeness o.workload ∧
            y.entries = front ++ x.fold o e :: back) := by
  intro x
  have hstart : (ofSettings s).Separated := .nil
  refine ⟨hstart.performAll hpositive calls, ?_⟩
  intro c o htold hon y new
  have hkept : x.settings = s := settings_performAll _ calls
  have hnew_iff : x.matching o.workload = none ↔ new := by
    rw [matching_eq_none_iff (hkept ▸ hpositive), hkept]
  have hseen := observing x o
  rw [← Operation.perform_of_observation? htold x] at hseen
  change Observing x o y at hseen
  clear_value y
  cases hseen with
  | off hoff =>
    rw [hon] at hoff
    cases hoff
  | @folded front e back _ hwhole hsame =>
    obtain ⟨hnearest, hreached⟩ := nearest_of_matching_eq_some hwhole hsame
    have hold : ¬ new := fun hfar => nomatch hsame.symm.trans (hnew_iff.mpr hfar)
    refine ⟨⟨fun ⟨e', hmore⟩ => ?_, fun h => absurd h.1 hold⟩, fun h => absurd h hold,
      fun h => absurd h hold, fun _ => ⟨front, e, back, hwhole, hnearest, hkept ▸ hreached, rfl⟩⟩
    have hlengths := congrArg List.length hmore
    simp [hwhole] at hlengths
  | opened _ hunmatched hroom =>
    have hfar : new := hnew_iff.mp hunmatched
    have hsome : x.room o.memory ≠ none := by simp [hroom]
    exact ⟨⟨fun _ => ⟨hfar, hsome⟩, fun _ => ⟨_, rfl⟩⟩, fun _ _ => rfl,
      fun _ hfull => absurd hfull hsome, fun h => absurd hfar h⟩
  | lost _ hunmatched hfull =>
    have hfar : new := hnew_iff.mp hunmatched
    refine ⟨⟨fun ⟨e, hmore⟩ => ?_, fun h => absurd hfull h.2⟩, fun _ h => absurd hfull h,
      fun _ _ => rfl, fun h => absurd hfar h⟩
    simp at hmore

end Calls

/-- An experience that asks for more room than there can be. -/
def cramped : Experience Rat := ofSettings { Settings.standard with initialCapacity := 0 - 1 }

/-- A report can be lost although no entry is like its workload. -/
theorem lost_report :
    (0.0 : Rat) < cramped.settings.matchThreshold ∧ cramped.enabled = true ∧
      (∀ e ∈ cramped.entries,
        e.likeness (idle 2 .firstWins).workload < cramped.settings.matchThreshold) ∧
      ¬ ∃ e, ((tell (idle 2 .firstWins) 5 0.5).perform cramped).2.entries =
        cramped.entries ++ [e] := by
  have hlost : ((tell (idle 2 .firstWins) 5 0.5).perform cramped).2.entries = [] := by
    decide +kernel
  refine ⟨by decide +kernel, rfl, ?_, ?_⟩
  · intro e he
    cases he
  · rintro ⟨e, hmore⟩
    rw [hlost] at hmore
    cases hmore

/-- Two workloads that are not alike, and between them a third that is like both. -/
def extremes : List (Operation Rat) :=
  [tell (idle 2 .vote) 5 0.9, .setEnabled false, tell (idle 30 .vote) 5 0.9, .setEnabled true,
    tell (idle 8 .vote) 7 0.5]

def separate : Experience Rat := (ofSettings Settings.standard).performAll extremes

/-- The first entry would do for the third workload, but the second one is more like it. -/
theorem separation_extremes :
    (0.0 : Rat) < (Settings.standard : Settings Rat).matchThreshold ∧ separate.Separated ∧
      (separate.entries.map fun e => e.likeness (idle 6 .best).workload) = [0.8, 0.9] ∧
      (∃ front e back, separate.entries = front ++ e :: back ∧
        Nearest (idle 6 .best).workload front e back) ∧
      (((tell (idle 6 .best) 3 0.5).perform separate).2.entries.map
        Entry.observations) = [1, 2] := by
  have hpositive : (0.0 : Rat) < (Settings.standard : Settings Rat).matchThreshold := by
    decide +kernel
  have hold : ¬ ∀ e ∈ separate.entries,
      e.likeness (idle 6 .best).workload < (Settings.standard : Settings Rat).matchThreshold := by
    decide +kernel
  obtain ⟨hseparated, hplacing⟩ := separation Settings.standard hpositive extremes
  obtain ⟨front, e, back, hwhole, hnearest, -, -⟩ :=
    (hplacing (tell (idle 6 .best) 3 0.5) _ rfl (by decide +kernel)).2.2.2 hold
  exact ⟨hpositive, hseparated, by decide +kernel, ⟨front, e, back, hwhole, hnearest⟩,
    by decide +kernel⟩

end Superpose.Experience
