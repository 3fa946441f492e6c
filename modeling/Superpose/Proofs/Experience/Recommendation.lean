import Superpose.Proofs.Experience.Search

/-!
# Learned recommendations

Where the most similar entry is similar and reliable enough, a recommendation comes from the merits
in that entry: the first strategy of greatest merit, provided that this is positive
(`learned_recommendation`). Where no merit is, the first strategy of all is recommended, even if it
was never used (`unused_recommended`).
-/

namespace Superpose.Experience

/-- A strategy that was used with a positive merit which no other exceeds, and the first of those.
A merit that is not a number does not count. -/
structure Entry.Champion (e : Entry Float) (s : Strategy) : Prop where
  used : (e.record s).uses ≠ 0
  positive : 0.0 < (e.record s).merit
  greatest : ∀ t, (e.record t).merit ≤ (e.record s).merit ∨ (e.record t).merit.isNaN = true
  first : ∀ t, t.index < s.index →
    (e.record t).merit < (e.record s).merit ∨ (e.record t).merit.isNaN = true

/-- What was never used is of no merit. -/
theorem merit_of_unused {K : Type} [Scale K] {r : Record K} (h : r.uses = 0) : r.merit = 0.0 :=
  if_pos h

theorem pairwise_index_all : Strategy.all.Pairwise fun s t => s.index < t.index := by decide

/-- **The recommendation of an entry.** -/
theorem Entry.champion_or_firstWins (e : Entry Float) :
    e.Champion e.recommended ∨
      e.recommended = .firstWins ∧ ∀ t, ¬ (0.0 : Float) < (e.record t).merit := by
  obtain ⟨best, hfound, hrecommended⟩ := exists_found_recommended e
  rw [hrecommended]
  cases hfound with
  | nothing hlow => exact .inr ⟨rfl, fun t => hlow t t.mem_all⟩
  | @item front s back hwhole hpositive htops =>
    have hnumber : (e.record s).merit.isNaN = false := Binary64.isNaN_eq_false_of_lt hpositive
    have hplace (t : Strategy) : t ∈ front ∨ t = s ∨ t ∈ back := by
      simpa [hwhole] using t.mem_all
    refine .inl (?_ : e.Champion s)
    refine ⟨fun hunused => ?_, hpositive, fun t => ?_, fun t hearlier => ?_⟩
    · rw [merit_of_unused hunused] at hpositive
      exact Binary64.lt_irrefl _ hpositive
    · refine Binary64.le_or_isNaN hnumber ?_
      rcases hplace t with hbefore | rfl | hbehind
      · exact mt Binary64.le_of_lt (htops.before t hbefore)
      · exact Binary64.lt_irrefl _
      · exact htops.behind t hbehind
    · refine Binary64.lt_or_isNaN hnumber ?_
      -- what stands behind a strategy has a higher index
      have hsorted := pairwise_index_all
      rw [hwhole, List.pairwise_append, List.pairwise_cons] at hsorted
      rcases hplace t with hbefore | rfl | hbehind
      · exact htops.before t hbefore
      · exact absurd hearlier (Nat.lt_irrefl _)
      · exact absurd hearlier (Nat.lt_asymm (hsorted.2.1.1 t hbehind))

/-- **A recommendation from experience.** Where the most similar of all entries counts as the same
workload and is reliable, the strategy of greatest merit in it is recommended, the first of several,
if that merit is positive. If no strategy has a positive merit in that entry, the first strategy of
all is recommended. -/
theorem learned_recommendation (x : Experience Float) (w : Workload)
    {front back : List (Entry Float)} {e : Entry Float} (hon : x.enabled = true)
    (hwhole : x.entries = front ++ e :: back)
    (halike : 0.0 < e.likeness w) (hnearest : Tops (fun e => e.likeness w) front e back)
    (hsame : x.settings.matchThreshold ≤ e.likeness w)
    (hreliable : x.settings.confidenceGate ≤ e.confidence) :
    e.Champion (x.recommend w) ∨
      x.recommend w = .firstWins ∧ ∀ t, ¬ (0.0 : Float) < (e.record t).merit := by
  obtain ⟨best, hfound, hlikeness⟩ := exists_found_nearest x w
  rw [hfound.eq_some hwhole halike hnearest, Option.map_some] at hlikeness
  have hmatched : x.matching w = some front.length := by
    rw [matching, hlikeness]
    exact if_pos hsame
  have hrelied : x.reliable w = some e := by
    simp [Experience.reliable, hmatched, hwhole, hreliable]
  have hadvised : x.recommend w = e.recommended := by
    simp only [recommend, hon, ↓reduceIte, hrelied]
  rw [hadvised]
  exact e.champion_or_firstWins

section Samples

/-- Reports on two workloads. On the second one, the first result has been tried in vain, and two
strategies did equally well, better than a third one and than one of negative quality. -/
def comparison : List (Operation Float) :=
  [tell (idle 30 .best) 5 0.9, tell { idle 2 .fuzzy with collapsed := true } 5 0.9,
    tell { idle 2 .best with collapsed := true } 50 0.9, tell (idle 2 .firstWins) 5 0.9,
    tell { idle 2 .combine with collapsed := true } 5 (-0.9),
    tell { idle 2 .vote with collapsed := true } 5 0.9]

def compared : Experience Float := (ofSettings .standard).performAll comparison

def comparedEntry : Entry Float := compared.entries.get ⟨1, by decide +kernel⟩

/-- A workload that is like that of the second entry, but not the same. -/
def threesome : Workload := (idle 3 .firstWins).workload

theorem learned_recommendation_comparison :
    compared.enabled = true ∧
      compared.entries = compared.entries.take 1 ++ comparedEntry :: compared.entries.drop 2 ∧
      0.0 < comparedEntry.likeness threesome ∧
      Tops (fun e => e.likeness threesome) (compared.entries.take 1) comparedEntry
        (compared.entries.drop 2) ∧
      compared.settings.matchThreshold ≤ comparedEntry.likeness threesome ∧
      compared.settings.confidenceGate ≤ comparedEntry.confidence ∧
      comparedEntry.Champion .vote ∧ compared.recommend threesome = .vote := by
  have hwhole : compared.entries =
      compared.entries.take 1 ++ comparedEntry :: compared.entries.drop 2 := by
    rw [comparedEntry, List.get_eq_getElem, ← List.drop_eq_getElem_cons, List.take_append_drop]
  have hon : compared.enabled = true := by decide +kernel
  have halike : 0.0 < comparedEntry.likeness threesome := by decide +kernel
  have hnearest : Tops (fun e => e.likeness threesome) (compared.entries.take 1) comparedEntry
      (compared.entries.drop 2) := ⟨by decide +kernel, by decide +kernel⟩
  have hsame : compared.settings.matchThreshold ≤ comparedEntry.likeness threesome := by
    decide +kernel
  have hreliable : compared.settings.confidenceGate ≤ comparedEntry.confidence := by decide +kernel
  have hadvised : compared.recommend threesome = .vote := by decide +kernel
  refine ⟨hon, hwhole, halike, hnearest, hsame, hreliable, ?_, hadvised⟩
  rcases learned_recommendation compared threesome hon hwhole halike hnearest hsame hreliable with
    hchampion | ⟨hother, -⟩
  · rwa [hadvised] at hchampion
  · rw [hadvised] at hother
    cases hother

/-- Reports of one strategy whose runs were never collapsed. -/
def fruitless : List (Operation Float) := List.replicate 5 (tell (idle 2 .vote) 5 0.9)

/-- **A strategy that was never used can be recommended** in place of the only one that was. -/
theorem unused_recommended :
    let x := (ofSettings .standard).performAll fruitless
    ∃ e, x.entries = [e] ∧ x.enabled = true ∧ 0.0 < e.likeness (idle 2 .vote).workload ∧
      x.settings.matchThreshold ≤ e.likeness (idle 2 .vote).workload ∧
      x.settings.confidenceGate ≤ e.confidence ∧ (e.record .vote).uses = 5 ∧
      x.recommend (idle 2 .vote).workload = .firstWins ∧ (e.record .firstWins).uses = 0 := by
  intro x
  obtain ⟨e, hwhole⟩ := List.length_eq_one_iff.mp (by decide +kernel : x.entries.length = 1)
  have hfacts : ∀ e ∈ x.entries, 0.0 < e.likeness (idle 2 .vote).workload ∧
      x.settings.matchThreshold ≤ e.likeness (idle 2 .vote).workload ∧
      x.settings.confidenceGate ≤ e.confidence ∧ (e.record .vote).uses = 5 ∧
      (e.record .firstWins).uses = 0 := by decide +kernel
  obtain ⟨halike, hsame, hreliable, hused, hunused⟩ := hfacts e (by simp [hwhole])
  exact ⟨e, hwhole, by decide +kernel, halike, hsame, hreliable, hused, by decide +kernel, hunused⟩

end Samples

end Superpose.Experience
