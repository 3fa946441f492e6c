import Superpose.Reduction

/-!
# What a reduction can refuse

A toolkit that supports a strategy has every piece that the strategy itself asks for
(`has_of_missing_eq_none`), so a ruling never refuses for want of a piece (`ruling_eq_refuse`): what
is left are results that disagree. A refused reduction changes nothing (`reduce_eq_of_error`).
-/

namespace Superpose

variable {α : Type}

theorem Presence.has_of_gap_eq_none {p : Presence} {s : Strategy} (h : p.gap s = none) :
    ∀ q ∈ s.requirements, p.has q = true := by
  intro q hq
  rw [Presence.gap, Option.map_eq_none_iff, List.find?_eq_none] at h
  simpa using h q hq

/-- What a supported strategy asks for is there. -/
theorem Toolkit.has_of_missing_eq_none {t : Toolkit α} {s : Strategy} (h : t.missing s = none) :
    ∀ q ∈ s.requirements, t.presence.has q = true := by
  refine Presence.has_of_gap_eq_none ?_
  unfold Toolkit.missing Presence.missing at h
  cases hgap : t.presence.gap s with
  | none => rfl
  | some fault =>
    rw [hgap] at h
    cases h

/-- Results that disagree, or that are not there. -/
def CollapseFault.IsDisagreement : CollapseFault → Prop
  | .mismatch _ | .noConsensus _ _ | .noResults => True
  | .missing _ _ => False

variable [BEq α]

theorem Choice.isDisagreement_of_vote {results : List α} {fault : CollapseFault}
    (h : Choice.vote results = .error fault) : fault.IsDisagreement := by
  unfold Choice.vote at h
  simp only at h
  split at h
  · cases h
    trivial
  · split at h
    · cases h
      trivial
    · cases h

theorem Choice.isDisagreement_of_validate {results : List α} {fault : CollapseFault}
    (h : Choice.validate results = .error fault) : fault.IsDisagreement := by
  unfold Choice.validate at h
  split at h
  · cases h
  · split at h
    · cases h
    · cases h
      trivial

/-- **A supported strategy refuses nothing but results that disagree.** -/
theorem ruling_eq_refuse {s : Strategy} {results : List α} {output : α} {tools : Toolkit α}
    {now : UInt64} {fault : CollapseFault} (hsupported : tools.missing s = none)
    (h : ruling s results output tools now = .refuse fault) : fault.IsDisagreement := by
  have hhas := Toolkit.has_of_missing_eq_none hsupported
  cases s with
  | firstWins | lastWins | progressive => cases h
  | vote =>
    simp only [ruling] at h
    split at h
    · rename_i hvote
      cases h
      exact Choice.isDisagreement_of_vote hvote
    · cases h
  | validate =>
    simp only [ruling] at h
    split at h
    · rename_i hvalidate
      cases h
      exact Choice.isDisagreement_of_validate hvalidate
    · cases h
  | best | fuzzy | speculative =>
    obtain ⟨score, hscore⟩ := Option.isSome_iff_exists.mp (hhas .evaluator (by decide))
    simp only [ruling, hscore] at h
    cases h
  | combine =>
    obtain ⟨combine, hcombine⟩ := Option.isSome_iff_exists.mp (hhas .combiner (by decide))
    simp only [ruling, hcombine] at h
    cases h
  | custom =>
    obtain ⟨custom, hcustom⟩ := Option.isSome_iff_exists.mp (hhas .customCollapse (by decide))
    simp only [ruling, hcustom] at h
    cases h
  | multiDim =>
    obtain ⟨criteria, hcriteria⟩ := Option.isSome_iff_exists.mp (hhas .criteria (by decide))
    simp only [ruling, hcriteria] at h
    cases h
  | temporal =>
    obtain ⟨score, hscore⟩ := Option.isSome_iff_exists.mp (hhas .evaluator (by decide))
    obtain ⟨trend, htrend⟩ := Option.isSome_iff_exists.mp (hhas .trend (by decide))
    simp only [ruling, hscore, htrend] at h
    cases h
  | ensemble =>
    obtain ⟨panel, hpanel⟩ := Option.isSome_iff_exists.mp (hhas .panel (by decide))
    simp only [ruling, hpanel] at h
    cases h

/-- **A refused reduction changes nothing.** -/
theorem reduce_eq_of_error {s : Strategy} {results : List α} {output : α} {tools : Toolkit α}
    {now : UInt64} {fault : CollapseFault} (hne : results.isEmpty = false)
    (h : (reduce s results output tools now).verdict = .error fault) :
    ruling s results output tools now = .refuse fault ∧
      reduce s results output tools now = ⟨.error fault, output, tools.trend⟩ := by
  unfold reduce at h ⊢
  rw [hne] at h ⊢
  simp only [Bool.false_eq_true, ↓reduceIte] at h ⊢
  cases hruling : ruling s results output tools now with
  | refuse f =>
    simp only [hruling] at h
    cases h
    exact ⟨rfl, rfl⟩
  | select i | selectRecording i t | compute v =>
    simp only [hruling] at h
    cases h

end Superpose
