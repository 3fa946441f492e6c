import Superpose.Proofs.Choice.ByPosition

/-!
# Selections stay among the results

A reduction of one result or more, with a history that came about by recording and forgetting,
never looks beyond the end of a list: walked by position (`ByPosition.reduce`) it has a result, and
the same one. `Ruling.Sound` says what each kind of ruling may rest on; from it follows what becomes
of the output and of the history, whatever the strategy (`selection_in_range`).
-/

namespace Superpose

open Choice

variable {α : Type}

/-- Rulings of a strategy on results: what is selected is there, only a temporal choice records,
and only a combiner or a custom rule computes. -/
inductive Ruling.Sound (s : Strategy) (results : List α) : Ruling α → Prop
  | refuse (fault : CollapseFault) : Sound s results (.refuse fault)
  | select {i : Nat} (hi : i < results.length) : Sound s results (.select i)
  | selectRecording (hs : s = .temporal) {i : Nat} (hi : i < results.length) (trend : Trend) :
      Sound s results (.selectRecording i trend)
  | compute (hs : s = .combine ∨ s = .custom) (value : α) : Sound s results (.compute value)

/-- What a reduction can come to: nothing has changed, or one of the results has become the output,
or a value was computed. The history is another one only after a temporal choice. -/
inductive Reduced.Sound (s : Strategy) (results : List α) (output : α) (trend : Option Trend) :
    Reduced α → Prop
  | refused (fault : CollapseFault) : Sound s results output trend ⟨.error fault, output, trend⟩
  | selected {i : Nat} (hi : i < results.length) :
      Sound s results output trend ⟨.ok (some i), results[i], trend⟩
  | recorded (hs : s = .temporal) {i : Nat} (hi : i < results.length) (t : Trend) :
      Sound s results output trend ⟨.ok (some i), results[i], some t⟩
  | computed (hs : s = .combine ∨ s = .custom) (value : α) :
      Sound s results output trend ⟨.ok none, value, trend⟩

variable [BEq α]

theorem sound_ruling (s : Strategy) {results : List α} (h : results ≠ []) (output : α)
    (tools : Toolkit α) (now : UInt64) :
    Ruling.Sound s results (ruling s results output tools now) := by
  have hpos : 0 < results.length := List.length_pos_iff.mpr h
  cases s with
  | firstWins => exact .select hpos
  | lastWins => exact .select (Nat.sub_one_lt (Nat.ne_of_gt hpos))
  | progressive => exact .select (progressive_lt tools.evaluator h)
  | vote =>
    simp only [ruling]
    split
    · exact .refuse _
    · rename_i hvote
      exact .select (vote_lt hvote)
  | validate =>
    simp only [ruling]
    split
    · exact .refuse _
    · exact .select hpos
  | best =>
    simp only [ruling]
    split
    · exact .refuse _
    · exact .select (best_lt _ h)
  | fuzzy =>
    simp only [ruling]
    split
    · exact .refuse _
    · exact .select (fuzzy_lt _ h)
  | speculative =>
    simp only [ruling]
    split
    · exact .refuse _
    · exact .select (speculative_lt _ h)
  | multiDim =>
    simp only [ruling]
    split
    · exact .refuse _
    · exact .select (weighted_lt _ h)
  | ensemble =>
    simp only [ruling]
    split
    · exact .refuse _
    · exact .select (elected_lt tools _ h)
  | combine =>
    simp only [ruling]
    split
    · exact .refuse _
    · exact .compute (Or.inl rfl) _
  | custom =>
    simp only [ruling]
    split
    · exact .refuse _
    · exact .compute (Or.inr rfl) _
  | temporal =>
    simp only [ruling]
    split
    · exact .refuse _
    · rename_i score _
      split
      · exact .refuse _
      · rename_i trend _
        have hne : results.map score ≠ [] := by simpa using h
        have hlt := trend.choose_lt hne
        rw [List.length_map] at hlt
        exact .selectRecording rfl hlt _

theorem sound_reduce (s : Strategy) {results : List α} (h : results ≠ []) (output : α)
    (tools : Toolkit α) (now : UInt64) :
    Reduced.Sound s results output tools.trend (reduce s results output tools now) := by
  have hne : results.isEmpty = false := by simpa using h
  have hsound := sound_ruling s h output tools now
  unfold reduce
  rw [hne]
  generalize ruling s results output tools now = x at hsound ⊢
  simp only [Bool.false_eq_true, ↓reduceIte]
  cases hsound with
  | refuse fault => exact .refused fault
  | select hi =>
    simp only [List.getElem?_eq_getElem hi, Option.getD_some]
    exact .selected hi
  | selectRecording hs hi trend =>
    simp only [List.getElem?_eq_getElem hi, Option.getD_some]
    exact .recorded hs hi trend
  | compute hs value => exact .computed hs value

/-- **Every look-up hits**, and the reduction by position is the reduction. -/
theorem ByPosition.reduce_eq (s : Strategy) {results : List α} (h : results ≠ []) (output : α)
    {tools : Toolkit α} (htrend : ∀ t ∈ tools.trend, t.Kept) (now : UInt64) :
    ByPosition.reduce s results output tools now =
      some (Superpose.reduce s results output tools now) := by
  have hne : results.isEmpty = false := by simpa using h
  have hsound := sound_ruling s h output tools now
  unfold ByPosition.reduce Superpose.reduce
  rw [hne, ByPosition.ruling_eq h htrend output now]
  generalize Superpose.ruling s results output tools now = x at hsound ⊢
  simp only [Bool.false_eq_true, ↓reduceIte, Option.bind_eq_bind, Option.bind_some]
  cases hsound with
  | refuse | compute => rfl
  | select hi | selectRecording _ hi =>
    simp only [List.getElem?_eq_getElem hi, Option.bind_some, Option.getD_some, Option.pure_def]

/-- **Selections stay among the results.** A reduction of one result or more never looks beyond the
end of a list. What it selects is one of the results and becomes the output; only a combiner and a
custom rule select nothing. A refusal leaves the output and the history as they were, and the
history changes only with a temporal choice that succeeds. -/
theorem selection_in_range (s : Strategy) {results : List α} (h : results ≠ []) (output : α)
    {tools : Toolkit α} (htrend : ∀ t ∈ tools.trend, t.Kept) (now : UInt64) :
    let r := reduce s results output tools now
    ByPosition.reduce s results output tools now = some r ∧
      (∀ i, r.verdict = .ok (some i) → i < results.length ∧ results[i]? = some r.output) ∧
      (r.verdict = .ok none → s = .combine ∨ s = .custom) ∧
      (∀ fault, r.verdict = .error fault → r.output = output ∧ r.trend = tools.trend) ∧
      (r.trend ≠ tools.trend → s = .temporal ∧ ∃ i, r.verdict = .ok (some i)) := by
  intro r
  refine ⟨ByPosition.reduce_eq s h output htrend now, ?_⟩
  have hsound : Reduced.Sound s results output tools.trend r := sound_reduce s h output tools now
  clear_value r
  cases hsound with
  | refused fault =>
    exact ⟨nofun, nofun, fun _ _ => ⟨rfl, rfl⟩, fun hchanged => absurd rfl hchanged⟩
  | selected hi =>
    refine ⟨?_, nofun, nofun, fun hchanged => absurd rfl hchanged⟩
    rintro j ⟨⟩
    exact ⟨hi, List.getElem?_eq_getElem hi⟩
  | recorded hs hi t =>
    refine ⟨?_, nofun, nofun, fun _ => ⟨hs, _, rfl⟩⟩
    rintro j ⟨⟩
    exact ⟨hi, List.getElem?_eq_getElem hi⟩
  | computed hs value => exact ⟨nofun, fun _ => hs, nofun, fun hchanged => absurd rfl hchanged⟩

section Short

/-- A toolkit whose history has room for two of three results. -/
def shortSighted : Toolkit Int32 where
  evaluator := some id
  trend := some ((Trend.ofWindow 2 50).record [10, 30, 20] 1)

/-- The first result wins by its rise, and only the first two scores are recorded. -/
theorem selection_in_range_shortSighted :
    (∀ t ∈ shortSighted.trend, t.Kept) ∧
      ByPosition.reduce .temporal [35, 30, 20] 0 shortSighted 2 =
        some ⟨.ok (some 0), 35, some ⟨[35, 30], [2, 2], 2, 2, 50⟩⟩ := by
  have hkept : ∀ t ∈ shortSighted.trend, t.Kept := by
    rintro t ⟨⟩
    exact .record (.ofWindow 2 50) _ _
  refine ⟨hkept, ?_⟩
  rw [(selection_in_range .temporal (by decide) 0 hkept 2).1]
  rfl

end Short

end Superpose
