import Superpose.Proofs.Choice.Election
import Superpose.Proofs.Register.Equipment
import Superpose.Workbench.Script

/-!
# What can be said of a strategy in advance

What keeps a strategy from running is looked up in a table of requirements, without any result at
hand. The strategy itself looks for its pieces one by one as it comes to need them. Both look in the
same order: the first gap of a strategy is what it is refused for (`ruling_of_gap`), and one without
a gap is refused only for results that disagree, so the two agree (`verdict_eq_missing_iff`). A
panel never refuses on behalf of its members, who name the first result where they lack a piece;
what is found in advance rules that out (`informed_nominee`).
-/

namespace Superpose

open Choice

variable {α : Type}

/-- A choice that rests on the pieces that the strategy of a member asks for. -/
inductive Choice.Informed (tools : Toolkit α) (results : List α) : Strategy → Nat → Prop
  | best {score : α → Int32} (hscore : tools.evaluator = some score) :
      Informed tools results .best (best score results)
  | fuzzy {score : α → Int32} (hscore : tools.evaluator = some score) :
      Informed tools results .fuzzy (simpleDraw score results)
  | multiDim {criteria : Criteria α} (hcriteria : tools.criteria = some criteria) :
      Informed tools results .multiDim (weighted criteria results)
  | temporal {score : α → Int32} {trend : Trend} (hscore : tools.evaluator = some score)
      (htrend : tools.trend = some trend) :
      Informed tools results .temporal (trend.choose (results.map score))

theorem Choice.informed_nominee {tools : Toolkit α} {s : Strategy}
    (hs : s ∈ [Strategy.best, .fuzzy, .multiDim, .temporal])
    (hhas : ∀ q ∈ s.requirements, tools.presence.has q = true) (results : List α) :
    Informed tools results s (nominee tools results s) := by
  simp only [List.mem_cons, List.not_mem_nil, or_false] at hs
  rcases hs with rfl | rfl | rfl | rfl
  · obtain ⟨score, hscore⟩ := Option.isSome_iff_exists.mp (hhas .evaluator (by decide))
    simp only [nominee, hscore]
    exact .best hscore
  · obtain ⟨score, hscore⟩ := Option.isSome_iff_exists.mp (hhas .evaluator (by decide))
    simp only [nominee, hscore]
    exact .fuzzy hscore
  · obtain ⟨criteria, hcriteria⟩ := Option.isSome_iff_exists.mp (hhas .criteria (by decide))
    simp only [nominee, hcriteria]
    exact .multiDim hcriteria
  · obtain ⟨score, hscore⟩ := Option.isSome_iff_exists.mp (hhas .evaluator (by decide))
    obtain ⟨trend, htrend⟩ := Option.isSome_iff_exists.mp (hhas .trend (by decide))
    simp only [nominee, hscore, htrend]
    exact .temporal hscore htrend

/-- Only a panel is asked for more than its own requirements. -/
theorem Presence.missing_of_ne_ensemble {p : Presence} {s : Strategy} (hs : s ≠ .ensemble)
    (panel? : Option Panel) : p.missing panel? s = p.gap s := by
  unfold missing
  cases p.gap s with
  | some fault => rfl
  | none => exact if_neg hs

variable [BEq α]

/-- **A strategy is refused for its first gap.** -/
theorem ruling_of_gap {s : Strategy} {tools : Toolkit α} {fault : CollapseFault}
    (hgap : tools.presence.gap s = some fault) (results : List α) (output : α) (now : UInt64) :
    ruling s results output tools now = .refuse fault := by
  obtain ⟨q, hfind, rfl⟩ := Option.map_eq_some_iff.mp hgap
  have hq : q ∈ s.requirements := List.mem_of_find?_eq_some hfind
  have hlacks : ¬ tools.presence.has q = true := by simpa using List.find?_some hfind
  cases s with
  | firstWins | lastWins | vote | validate | progressive => cases hq
  | best | fuzzy | speculative =>
    obtain rfl := List.mem_singleton.mp hq
    have hnone : tools.evaluator = none := Option.not_isSome_iff_eq_none.mp hlacks
    simp only [ruling, hnone]
  | combine =>
    obtain rfl := List.mem_singleton.mp hq
    have hnone : tools.combiner = none := Option.not_isSome_iff_eq_none.mp hlacks
    simp only [ruling, hnone]
  | custom =>
    obtain rfl := List.mem_singleton.mp hq
    have hnone : tools.custom = none := Option.not_isSome_iff_eq_none.mp hlacks
    simp only [ruling, hnone]
  | multiDim =>
    obtain rfl := List.mem_singleton.mp hq
    have hnone : tools.criteria = none := Option.not_isSome_iff_eq_none.mp hlacks
    simp only [ruling, hnone]
  | temporal =>
    -- both look for the evaluator before they look for the history
    cases hscore : tools.evaluator with
    | none =>
      have hfirst : Requirement.evaluator = q := by
        simpa [Strategy.requirements, Presence.has, Toolkit.presence, hscore] using hfind
      simp only [ruling, hscore, hfirst]
    | some score =>
      rcases List.mem_pair.mp hq with rfl | rfl
      · rw [Presence.has, Toolkit.presence, hscore] at hlacks
        exact absurd rfl hlacks
      · have hnone : tools.trend = none := Option.not_isSome_iff_eq_none.mp hlacks
        simp only [ruling, hscore, hnone]
  | ensemble =>
    obtain rfl := List.mem_singleton.mp hq
    have hnone : tools.panel = none := Option.not_isSome_iff_eq_none.mp hlacks
    simp only [ruling, hnone]

/-- **What is found in advance is what a strategy is refused for**, as far as it is refused for want
of a piece at all. -/
theorem verdict_eq_missing_iff {s : Strategy} (hs : s ≠ .ensemble) {results : List α}
    (h : results ≠ []) (output : α) (tools : Toolkit α) (now : UInt64) (s' : Strategy)
    (q : Requirement) :
    (reduce s results output tools now).verdict = .error (.missing s' q) ↔
      tools.presence.gap s = some (.missing s' q) := by
  have hne : results.isEmpty = false := by simpa using h
  constructor
  · intro hverdict
    have hruling := (reduce_eq_of_error hne hverdict).1
    cases hgap : tools.presence.gap s with
    | some fault =>
      rw [ruling_of_gap hgap, Ruling.refuse.injEq] at hruling
      rw [hruling]
    | none =>
      have hsupported : tools.missing s = none :=
        (Presence.missing_of_ne_ensemble hs tools.panel).trans hgap
      exact (ruling_eq_refuse hsupported hruling).elim
  · intro hgap
    simp only [reduce, hne, ruling_of_gap hgap, Bool.false_eq_true, ↓reduceIte]

/-- **A panel that is supported elects**, and its members choose with what they ask for. -/
theorem informed_of_supported {tools : Toolkit α} (hsupported : tools.missing .ensemble = none)
    {results : List α} (h : results ≠ []) (output : α) (now : UInt64) :
    ∃ panel, tools.panel = some panel ∧
      (∃ hwinner : elected tools panel results < results.length,
        reduce .ensemble results output tools now =
          ⟨.ok (some (elected tools panel results)), results[elected tools panel results],
            tools.trend⟩) ∧
      ∀ m ∈ panel.members, m.strategy ∈ [Strategy.best, .fuzzy, .multiDim, .temporal] →
        Informed tools results m.strategy (nominee tools results m.strategy) := by
  have hhas := Toolkit.has_of_missing_eq_none hsupported
  obtain ⟨panel, hpanel⟩ := Option.isSome_iff_exists.mp (hhas .panel (by decide))
  have hne : results.isEmpty = false := by simpa using h
  have hwinner := elected_lt tools panel h
  refine ⟨panel, hpanel, ⟨hwinner, ?_⟩, fun m hm hs => ?_⟩
  · simp only [reduce, hne, ruling, hpanel, Bool.false_eq_true, ↓reduceIte,
      List.getElem?_eq_getElem hwinner, Option.getD_some]
  · have hinline : m.strategy.votesInline = true := by
      simp only [List.mem_cons, List.not_mem_nil, or_false] at hs
      rcases hs with hs | hs | hs | hs <;> rw [hs] <;> rfl
    exact informed_nominee hs (Toolkit.has_of_panel hpanel hsupported hm hinline) results

/-- **What is found in advance holds good.** On one result or more, a strategy other than a panel is
refused for want of a piece exactly if that very fault is found in advance, whatever panel is
installed. A panel for which nothing is found elects a result, and no member whose choice asks for a
piece names the first result for want of it. And in a register that can be reached a panel that is
installed has one to three members, all of them of positive weight and none of them a panel. -/
theorem foresight (ω : Type) [Clocked ω] [Inhabited α] {results : List α} (h : results ≠ [])
    (output : α) (tools : Toolkit α) (now : UInt64) :
    (∀ s ≠ Strategy.ensemble, ∀ (panel? : Option Panel) (s' : Strategy) (q : Requirement),
      (reduce s results output tools now).verdict = .error (.missing s' q) ↔
        tools.presence.missing panel? s = some (.missing s' q)) ∧
    (tools.missing .ensemble = none → ∃ panel, tools.panel = some panel ∧
      (∃ hwinner : elected tools panel results < results.length,
        reduce .ensemble results output tools now =
          ⟨.ok (some (elected tools panel results)), results[elected tools panel results],
            tools.trend⟩) ∧
      ∀ m ∈ panel.members, m.strategy ∈ [Strategy.best, .fuzzy, .multiDim, .temporal] →
        Informed tools results m.strategy (nominee tools results m.strategy)) ∧
    ∀ r : Register α ω, Register.Reachable r → ∀ panel ∈ r.toolkit.panel,
      1 ≤ panel.members.length ∧ panel.members.length ≤ 3 ∧
        ∀ m ∈ panel.members, 0 < m.weight ∧ m.strategy ≠ .ensemble := by
  refine ⟨fun s hs panel? s' q => ?_, fun hsupported => ?_, fun r hr panel hpanel => ?_⟩
  · rw [Presence.missing_of_ne_ensemble hs]
    exact verdict_eq_missing_iff hs h output tools now s' q
  · exact informed_of_supported hsupported h output now
  · have hseated := hr.fitted.panel panel hpanel
    exact ⟨hseated.pos, hseated.le_seats, fun m hm => ⟨hseated.weight_pos m hm, hseated.plain m hm⟩⟩

section Sample

open Register Workbench

/-- A register with an evaluator, and with a panel that was given a member without weight. -/
def panelled : List (Operation Int32 World) :=
  [.set (.setEvaluator id), .set (.setPanel [⟨.fuzzy, 0⟩, ⟨.best, 30⟩, ⟨.lastWins, 20⟩])]

/-- The member without weight is not seated. With its evaluator the panel elects the best of three
results; without a history a temporal choice is refused, as is foreseen. -/
theorem foresight_panelled :
    let r := (performAll panelled { qubits := [.blank 0] } ({} : World)).1
    Reachable r ∧ r.toolkit.missing .ensemble = none ∧
      (∃ panel, r.toolkit.panel = some panel ∧ panel.members = [⟨.best, 30⟩, ⟨.lastWins, 20⟩] ∧
        panel.members.length ≤ 3) ∧
      (reduce .ensemble [5, 8, 6] 0 r.toolkit 1).verdict = .ok (some 1) ∧
      (reduce .temporal [5, 8, 6] 0 r.toolkit 1).verdict = .error (.missing .temporal .trend) := by
  intro r
  have hnew : IsNew ({ qubits := [.blank 0] } : Register Int32 World) := ⟨1, 1, {}, rfl⟩
  have hreachable : Reachable r := Reachable.performAll panelled {} (.new hnew)
  have hsupported : r.toolkit.missing .ensemble = none := rfl
  obtain ⟨hagree, helects, hseated⟩ :=
    foresight World (List.cons_ne_nil 5 [8, 6]) 0 r.toolkit 1
  obtain ⟨panel, hpanel, ⟨_, hreduce⟩, -⟩ := helects hsupported
  refine ⟨hreachable, hsupported, ⟨panel, hpanel, ?_, (hseated r hreachable panel hpanel).2.1⟩, ?_,
    (hagree .temporal nofun none _ _).mpr rfl⟩
  · cases hpanel
    rfl
  · cases hpanel
    rw [hreduce]
    rfl

end Sample

end Superpose
