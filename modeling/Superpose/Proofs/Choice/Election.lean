import Mathlib.Algebra.Ring.Int.Defs
import Superpose.Proofs.Reduction
import Superpose.Proofs.Selection

/-!
# The election of a panel

A panel holds a weighted vote. The table of votes gives each result the weight of the members that
name it (`getElem?_tally`), so the elected result is the first one of greatest support, and a member
that outweighs all others decides. What a member names is no second opinion: where its strategy
makes a choice of its own that is not a draw, it is what a reduction by that strategy selects
(`verdict_eq_nominee`).
-/

namespace Superpose

open Choice

variable {α : Type}

namespace Choice

/-! ## The table of votes -/

/-- The weight of the members that name a result. -/
def support (tools : Toolkit α) (results : List α) (members : List Member) (i : Nat) : Int :=
  ((members.filter fun m => nominee tools results m.strategy == i).map fun m =>
    m.weight.toInt).sum

def weightSum (members : List Member) : Int := (members.map fun m => m.weight.toInt).sum

section Support

variable (tools : Toolkit α) (results : List α)

@[simp] theorem support_nil (i : Nat) : support tools results [] i = 0 := rfl

theorem support_cons (m : Member) (ms : List Member) (i : Nat) :
    support tools results (m :: ms) i =
      (if nominee tools results m.strategy = i then m.weight.toInt else 0) +
        support tools results ms i := by
  by_cases h : nominee tools results m.strategy = i
  · simp [support, h]
  · simp [support, h]

theorem support_append (ms ms' : List Member) (i : Nat) :
    support tools results (ms ++ ms') i =
      support tools results ms i + support tools results ms' i := by
  simp [support, List.filter_append]

theorem getElem?_tally {i : Nat} (hi : i < results.length) (ms : List Member) :
    (tally results.length (ballots tools ⟨ms⟩ results))[i]? =
      some (support tools results ms i) := by
  have hfold : ∀ (ms : List Member) (votes : List Int),
      ((ballots tools ⟨ms⟩ results).foldl (fun votes b => votes.modify b.1 (· + b.2.toInt))
        votes)[i]? = votes[i]?.map (· + support tools results ms i) := by
    intro ms
    induction ms with
    | nil => intro votes; simp [ballots]
    | cons m ms ih =>
      intro votes
      have hrest := ih (votes.modify (nominee tools results m.strategy) (· + m.weight.toInt))
      rw [ballots, List.map_cons, List.foldl_cons]
      refine hrest.trans ?_
      rw [List.getElem?_modify, support_cons]
      cases votes[i]? with
      | none => rfl
      | some v =>
        by_cases h : nominee tools results m.strategy = i
        · simp [h, Int.add_assoc]
        · simp [h]
  rw [tally, hfold, List.getElem?_replicate, if_pos hi, Option.map_some, Int.zero_add]

variable {tools results}

theorem support_nonneg {ms : List Member} (h : ∀ m ∈ ms, 0 < m.weight) (i : Nat) :
    0 ≤ support tools results ms i := by
  induction ms with
  | nil => exact Int.le_refl 0
  | cons m ms ih =>
    rw [List.forall_mem_cons] at h
    have hweight : 0 < m.weight.toInt := Int32.lt_iff_toInt_lt.mp h.1
    have hrest := ih h.2
    rw [support_cons]
    split <;> omega

theorem support_le_weightSum {ms : List Member} (h : ∀ m ∈ ms, 0 < m.weight) (i : Nat) :
    support tools results ms i ≤ weightSum ms := by
  induction ms with
  | nil => exact Int.le_refl 0
  | cons m ms ih =>
    rw [List.forall_mem_cons] at h
    have hweight : 0 < m.weight.toInt := Int32.lt_iff_toInt_lt.mp h.1
    have hrest := ih h.2
    have hsum : weightSum (m :: ms) = m.weight.toInt + weightSum ms := by simp [weightSum]
    rw [support_cons, hsum]
    split <;> omega

end Support

/-! ## The winner -/

section Winner

variable (tools : Toolkit α) (panel : Panel) {results : List α} (h : results ≠ [])

include h in
/-- **The elected result is the first one of greatest support.** -/
theorem support_elected {i : Nat} (hi : i < results.length) :
    support tools results panel.members i ≤
        support tools results panel.members (elected tools panel results) ∧
      (i < elected tools panel results →
        support tools results panel.members i <
          support tools results panel.members (elected tools panel results)) := by
  have hlength := length_tally results.length (ballots tools panel results)
  have hne : tally results.length (ballots tools panel results) ≠ [] := by
    rw [← List.length_pos_iff, hlength]
    exact List.length_pos_iff.mpr h
  obtain ⟨top, htop, hall⟩ := exists_tops_firstGreatest hne
  have hwinner := getElem?_tally tools results (elected_lt tools panel h) panel.members
  have htop' : top = support tools results panel.members (elected tools panel results) :=
    Option.some.inj (htop.symm.trans hwinner)
  subst htop'
  exact hall i _ (getElem?_tally tools results hi panel.members)

include h in
/-- **A member that outweighs all others decides.** -/
theorem elected_eq_nominee {before after : List Member} {m : Member}
    (hmembers : panel.members = before ++ m :: after) (hpos : ∀ m ∈ panel.members, 0 < m.weight)
    (hheavy : weightSum (before ++ after) < m.weight.toInt) :
    elected tools panel results = nominee tools results m.strategy := by
  have hothers : ∀ c ∈ before ++ after, 0 < c.weight := by
    intro c hc
    refine hpos c ?_
    rw [hmembers]
    rcases List.mem_append.mp hc with hc | hc
    · exact List.mem_append_left _ hc
    · exact List.mem_append_right _ (List.mem_cons_of_mem m hc)
  have hsplit : ∀ i, support tools results panel.members i =
      (if nominee tools results m.strategy = i then m.weight.toInt else 0) +
        support tools results (before ++ after) i := by
    intro i
    rw [hmembers, support_append, support_cons, support_append]
    omega
  refine Decidable.byContradiction fun hne => ?_
  have hgreatest := (support_elected tools panel h (nominee_lt tools h m.strategy)).1
  rw [hsplit, hsplit (elected tools panel results), if_pos rfl, if_neg (Ne.symm hne)] at hgreatest
  have hnonneg : 0 ≤ support tools results (before ++ after) (nominee tools results m.strategy) :=
    support_nonneg hothers _
  have hle : support tools results (before ++ after) (elected tools panel results) ≤
      weightSum (before ++ after) := support_le_weightSum hothers _
  omega

end Winner

end Choice

/-! ## Members and reductions -/

/-- The members of a panel that a toolkit supports find what their own choices depend on. -/
theorem Toolkit.has_of_panel {tools : Toolkit α} {panel : Panel} (hpanel : tools.panel = some panel)
    (hsupported : tools.missing .ensemble = none) {m : Member} (hm : m ∈ panel.members)
    (hinline : m.strategy.votesInline = true) :
    ∀ q ∈ m.strategy.requirements, tools.presence.has q = true := by
  refine Presence.has_of_gap_eq_none ?_
  have hown : tools.presence.gap .ensemble = none := by
    unfold Toolkit.missing Presence.missing at hsupported
    cases hgap : tools.presence.gap .ensemble with
    | none => rfl
    | some fault =>
      rw [hgap] at hsupported
      cases hsupported
  rw [Toolkit.missing, Presence.missing, hown, hpanel] at hsupported
  have hgap : tools.presence.panelGap panel = none := hsupported
  rw [Presence.panelGap] at hgap
  split at hgap
  · cases hgap
  · rw [List.findSome?_eq_none_iff] at hgap
    exact hgap m (List.mem_filter.mpr ⟨hm, hinline⟩)

variable [BEq α]

/-- **A member's choice is the choice of its strategy.** -/
theorem verdict_eq_nominee {s : Strategy} {results : List α} {tools : Toolkit α}
    (hs : s ∈ [Strategy.firstWins, .lastWins, .best, .multiDim, .temporal])
    (hhas : ∀ q ∈ s.requirements, tools.presence.has q = true) (h : results ≠ []) (output : α)
    (now : UInt64) :
    (reduce s results output tools now).verdict = .ok (some (nominee tools results s)) := by
  have hne : results.isEmpty = false := by simpa using h
  unfold reduce
  rw [hne]
  simp only [List.mem_cons, List.not_mem_nil, or_false] at hs
  rcases hs with rfl | rfl | rfl | rfl | rfl
  · rfl
  · rfl
  · obtain ⟨score, hscore⟩ := Option.isSome_iff_exists.mp (hhas .evaluator (by decide))
    simp only [ruling, nominee, hscore]
    rfl
  · obtain ⟨criteria, hcriteria⟩ := Option.isSome_iff_exists.mp (hhas .criteria (by decide))
    simp only [ruling, nominee, hcriteria]
    rfl
  · obtain ⟨score, hscore⟩ := Option.isSome_iff_exists.mp (hhas .evaluator (by decide))
    obtain ⟨trend, htrend⟩ := Option.isSome_iff_exists.mp (hhas .trend (by decide))
    simp only [ruling, nominee, hscore, htrend]
    rfl

/-- **The election of a panel.** In a panel of positive weights that finds all it depends on, each
member whose choice is its own and no draw names what a reduction by its strategy selects, a member
without a choice of its own names the first result, and each one names some result. The elected
result is the first one of greatest support, and the election leaves the history as it was. A member
that outweighs all others decides, so a panel of one member is as good as its strategy. -/
theorem panel_election {tools : Toolkit α} {panel : Panel} {results : List α} (h : results ≠ [])
    (hpanel : tools.panel = some panel) (hsupported : tools.missing .ensemble = none)
    (hpos : ∀ m ∈ panel.members, 0 < m.weight) (output : α) (now : UInt64) :
    (∀ m ∈ panel.members,
      (m.strategy ∈ [Strategy.firstWins, .lastWins, .best, .multiDim, .temporal] →
        (reduce m.strategy results output tools now).verdict =
          .ok (some (nominee tools results m.strategy))) ∧
      (m.strategy ∈ [Strategy.vote, .combine, .validate, .custom, .progressive, .speculative,
        .ensemble] → nominee tools results m.strategy = 0) ∧
      nominee tools results m.strategy < results.length) ∧
    ∃ winner, ∃ hwinner : winner < results.length,
      reduce .ensemble results output tools now =
        ⟨.ok (some winner), results[winner], tools.trend⟩ ∧
      (∀ i < results.length,
        support tools results panel.members i ≤ support tools results panel.members winner ∧
        (i < winner →
          support tools results panel.members i < support tools results panel.members winner)) ∧
      (∀ before m after, panel.members = before ++ m :: after →
        weightSum (before ++ after) < m.weight.toInt →
          winner = nominee tools results m.strategy) ∧
      (∀ m, panel.members = [m] →
        m.strategy ∈ [Strategy.firstWins, .lastWins, .best, .multiDim, .temporal] →
          (reduce m.strategy results output tools now).verdict = .ok (some winner) ∧
          (reduce m.strategy results output tools now).output = results[winner]) := by
  have hinline : ∀ {s : Strategy},
      s ∈ [Strategy.firstWins, .lastWins, .best, .multiDim, .temporal] →
        s.votesInline = true := by
    intro s hs
    simp only [List.mem_cons, List.not_mem_nil, or_false] at hs
    rcases hs with rfl | rfl | rfl | rfl | rfl <;> rfl
  have hdirect : ∀ m ∈ panel.members,
      m.strategy ∈ [Strategy.firstWins, .lastWins, .best, .multiDim, .temporal] →
        (reduce m.strategy results output tools now).verdict =
          .ok (some (nominee tools results m.strategy)) := by
    intro m hm hs
    have hhas := Toolkit.has_of_panel hpanel hsupported hm (hinline hs)
    exact verdict_eq_nominee hs hhas h output now
  have hlt := elected_lt tools panel h
  have hheavy : ∀ before m after, panel.members = before ++ m :: after →
      weightSum (before ++ after) < m.weight.toInt →
        elected tools panel results = nominee tools results m.strategy :=
    fun before m after hmembers => elected_eq_nominee tools panel h hmembers hpos
  refine ⟨fun m hm => ⟨hdirect m hm, fun hs => ?_, nominee_lt tools h m.strategy⟩,
    elected tools panel results, hlt, ?_, fun i hi => support_elected tools panel h hi, hheavy,
    fun m hone hs => ?_⟩
  · simp only [List.mem_cons, List.not_mem_nil, or_false] at hs
    rcases hs with hs | hs | hs | hs | hs | hs | hs <;> rw [hs] <;> rfl
  · have hne : results.isEmpty = false := by simpa using h
    simp only [reduce, hne, ruling, hpanel, Bool.false_eq_true, ↓reduceIte,
      List.getElem?_eq_getElem hlt, Option.getD_some]
  · have hm : m ∈ panel.members := by
      rw [hone]
      exact List.mem_singleton_self m
    have hweight : weightSum ([] ++ []) < m.weight.toInt := Int32.lt_iff_toInt_lt.mp (hpos m hm)
    have hverdict := hdirect m hm hs
    rw [← hheavy [] m [] hone hweight] at hverdict
    refine ⟨hverdict, ?_⟩
    have hsound := sound_reduce m.strategy h output tools now
    generalize reduce m.strategy results output tools now = r at hverdict hsound
    cases hsound with
    | refused | computed => cases hverdict
    | selected hi | recorded _ hi =>
      cases hverdict
      rfl

section Sample

/-- A panel of three whose members name different results. -/
def dividedPanel : Panel := ⟨[⟨.multiDim, 40⟩, ⟨.temporal, 50⟩, ⟨.vote, 20⟩]⟩

/-- What the members of the divided panel depend on. -/
def dividedTools : Toolkit Int32 where
  evaluator := some id
  criteria := some ⟨none, some fun v => -v, none, 0, 100, 0⟩
  trend := some ((Trend.ofWindow 3 100).record [10, 20, 50] 0)
  panel := some dividedPanel

/-- The weights of two members for the first result outdo the heaviest member. -/
theorem panel_election_divided :
    dividedTools.missing .ensemble = none ∧ (∀ m ∈ dividedPanel.members, 0 < m.weight) ∧
      dividedPanel.members.map (fun m => nominee dividedTools [10, 20, 30] m.strategy) =
        [0, 1, 0] ∧
      reduce .ensemble [10, 20, 30] 7 dividedTools 5 =
        ⟨.ok (some 0), 10, some ⟨[10, 20, 50], [0, 0, 0], 3, 3, 100⟩⟩ := by
  have hsupported : dividedTools.missing .ensemble = none := by decide
  have hpos : ∀ m ∈ dividedPanel.members, 0 < m.weight := by decide
  refine ⟨hsupported, hpos, by decide +kernel, ?_⟩
  obtain ⟨-, winner, hwinner, hreduce, hgreatest, -⟩ :=
    panel_election (List.cons_ne_nil 10 [20, 30]) rfl hsupported hpos 7 5
  have hfirst := (hgreatest 0 (by decide)).1
  have hzero : winner = 0 := by
    match winner, hwinner with
    | 0, _ => rfl
    | 1, _ | 2, _ => exact absurd hfirst (by decide +kernel)
  subst hzero
  exact hreduce

end Sample

end Superpose
