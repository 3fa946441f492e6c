import Superpose.Proofs.Choice.Recall
import Superpose.Proofs.Register.Collapse
import Superpose.Proofs.Register.History
import Superpose.Proofs.Selection

/-!
# What a register is equipped with

Which operations change the toolkit of a register, and to what. A launch, a reset and a look of the
steering leave it alone, a collapse records in the history of scores what the temporal strategy has
looked at (`collapse_toolkit`), and a setting exchanges one piece for another that makes sense.
`Operation.refitted_perform` is the inversion of an operation with regard to history and panel, and
from it follows which of them a register that can be reached has (`Reachable.fitted`).
-/

namespace Superpose

open Choice

/-! ## Panels -/

namespace Choice.Panel

/-- A panel as it is installed: somebody sits on it and no more than there are seats, each member
has weight, and none of them is a panel itself. -/
structure Seated (p : Panel) : Prop where
  pos : 0 < p.members.length
  le_seats : p.members.length ≤ seats
  weight_pos : ∀ m ∈ p.members, 0 < m.weight
  plain : ∀ m ∈ p.members, m.strategy ≠ .ensemble

theorem seated_ofMembers {members : List Member} (hsome : (ofMembers members).isEmpty = false)
    (hplain : ∀ m ∈ members, m.strategy ≠ .ensemble) : (ofMembers members).Seated where
  pos := List.length_pos_iff.mpr fun hnil => by
    rw [isEmpty, hnil] at hsome
    cases hsome
  le_seats := List.length_take_le _ _
  weight_pos m hm := of_decide_eq_true (List.mem_filter.mp (List.mem_of_mem_take hm)).2
  plain m hm := hplain m (List.mem_filter.mp (List.mem_of_mem_take hm)).1

/-- A panel that was installed once is taken as it is. -/
theorem Seated.ofMembers_eq {p : Panel} (h : p.Seated) : ofMembers p.members = p := by
  have hall : (p.members.filter fun m => decide (0 < m.weight)) = p.members :=
    List.filter_eq_self.mpr fun m hm => decide_eq_true (h.weight_pos m hm)
  rw [ofMembers, hall, List.take_of_length_le h.le_seats]

end Choice.Panel

/-! ## The history after a reduction -/

section Reduction

variable {α : Type} [BEq α]

theorem reduce_trend_of_ne_temporal {s : Strategy} (h : s ≠ .temporal) (results : List α)
    (output : α) (tools : Toolkit α) (now : UInt64) :
    (reduce s results output tools now).trend = tools.trend := by
  by_cases hne : results = []
  · subst hne
    rfl
  · have hsound := sound_reduce s hne output tools now
    generalize reduce s results output tools now = reduced at hsound
    cases hsound with
    | refused | selected | computed => rfl
    | recorded hs => exact absurd hs h

theorem reduce_temporal {results : List α} (hne : results.isEmpty = false) {tools : Toolkit α}
    {score : α → Int32} {t : Trend} (hscore : tools.evaluator = some score)
    (ht : tools.trend = some t) (output : α) (now : UInt64) :
    (∃ i, (reduce .temporal results output tools now).verdict = .ok (some i)) ∧
      (reduce .temporal results output tools now).trend =
        some (t.record (results.map score) now) := by
  unfold reduce
  simp only [hne, ruling, hscore, ht, Bool.false_eq_true, ↓reduceIte]
  exact ⟨⟨_, rfl⟩, trivial⟩

end Reduction

/-! ## Settings -/

section Settings

variable {α ω : Type}

namespace Qubit

/-- A qubit that was given a result of some size only together with a body. -/
def Plain (q : Qubit α ω) : Prop := q.body = none → q.resultSize = 0

/-- What a qubit can become by a setting: its last run is forgotten as far as its status is. -/
structure Reworked (q q' : Qubit α ω) : Prop where
  started : q'.started = q.started
  ended : q'.ended = q.ended
  status : q'.status = q.status ∨ q'.status = .pending
  plain : q.Plain → q'.Plain

end Qubit

namespace Register.Setting

/-- What a setting can do to a register: it reworks a qubit, or exchanges equipment. -/
inductive Applied (s : Setting α ω) (r : Register α ω) : Register α ω → Prop
  | qubit (i : Nat) (f : Qubit α ω → Qubit α ω) (hf : ∀ q, Qubit.Reworked q (f q)) :
      Applied s r { r with qubits := r.qubits.modify i f }
  | equipment (strategy : Strategy) (toolkit : Toolkit α) (waitsForAll : Bool) (dataSize : UInt64)
      (steering : Option (Steering ω)) (dispatcher : Dispatcher)
      (hdispatcher : dispatcher = r.dispatcher ∨ s = .setDispatcher dispatcher) :
      Applied s r { r with strategy, toolkit, waitsForAll, dataSize, steering, dispatcher }

theorem applied_apply {s : Setting α ω} {r r' : Register α ω} (h : s.apply r = .ok r') :
    s.Applied r r' := by
  cases s with
  | initQubit i body data resultSize =>
    rw [changeQubit_eq_ok h]
    exact .qubit _ _ fun q => ⟨rfl, rfl, Or.inr rfl, fun _ => nofun⟩
  | setEnabled | setId | setNote =>
    rw [changeQubit_eq_ok h]
    exact .qubit _ _ fun q => ⟨rfl, rfl, Or.inl rfl, id⟩
  | setTrend | setThresholds | reportQuality | resetSteering =>
    simp only [apply, Register.setTrend, Register.setThresholds, Register.reportQuality,
      Register.resetSteering, changeSteering] at h
    split at h
    · cases h
    · rw [← Except.ok.inj h]
      exact .equipment _ _ _ _ _ _ (Or.inl rfl)
  | setPanel members =>
    simp only [apply, Register.setPanel] at h
    split at h
    · cases h
    · split at h
      · cases h
      · split at h
        · cases h
        · rw [← Except.ok.inj h]
          exact .equipment _ _ _ _ _ _ (Or.inl rfl)
  | setDispatcher d =>
    rw [← Except.ok.inj h]
    exact .equipment _ _ _ _ _ _ (Or.inr rfl)
  | setStrategy | setCustom | setEvaluator | setCombiner | setWaitsForAll | setCriteria
  | setDataSize | clearTrend | installSteering =>
    rw [← Except.ok.inj h]
    exact .equipment _ _ _ _ _ _ (Or.inl rfl)

end Register.Setting

end Settings

namespace Register

variable {α ω : Type}

/-- What holds of all qubits and is kept by a change holds of them after one of them was changed. -/
theorem forall_mem_modify {P : Qubit α ω → Prop} {qubits : List (Qubit α ω)} (h : ∀ q ∈ qubits, P q)
    {f : Qubit α ω → Qubit α ω} (hf : ∀ q, P q → P (f q)) (i : Nat) :
    ∀ q ∈ qubits.modify i f, P q := by
  intro q' hq'
  obtain ⟨j, hj⟩ := List.mem_iff_getElem?.mp hq'
  simp only [List.getElem?_modify, Option.map_eq_map, Option.map_eq_some_iff] at hj
  obtain ⟨q, hq, rfl⟩ := hj
  have hbefore := h q (List.mem_of_getElem? hq)
  split
  · exact hf q hbefore
  · exact hbefore

/-! ## Collapses -/

section Collapse

variable [Clocked ω] [Inhabited α] [BEq α]

/-- What a collapse records: the scores of the results and the time at its beginning, if it comes to
a new value under the temporal strategy. -/
def scoring? (r : Register α ω) (w : ω) : Option Scoring :=
  match r.collapsed, r.strategy, (r.collapse w).1, r.toolkit.evaluator with
  | false, .temporal, .ok _, some score => some ⟨r.results.map score, (Clocked.read w).1⟩
  | _, _, _, _ => none

theorem scoring?_of_ne_temporal {r : Register α ω} (h : r.strategy ≠ .temporal) (w : ω) :
    r.scoring? w = none := by
  unfold scoring?
  split
  · rename_i hs _ _
    exact absurd hs h
  · rfl

theorem scoring?_of_collapsed {r : Register α ω} (h : r.collapsed = true) (w : ω) :
    r.scoring? w = none := by
  unfold scoring?
  rw [h]

theorem scoring?_of_error {r : Register α ω} {w : ω} {fault : Fault}
    (h : (r.collapse w).1 = .error fault) : r.scoring? w = none := by
  unfold scoring?
  rw [h]
  split <;> first | rfl | contradiction

/-- A collapse that comes to a new value runs the strategy on what is there, and keeps the history
that the strategy leaves. -/
theorem collapse_of_ok {r : Register α ω} {w : ω} {value : α} (hopen : r.collapsed = false)
    (h : (r.collapse w).1 = .ok value) :
    r.toolkit.missing r.strategy = none ∧ r.results.isEmpty = false ∧
      (r.collapse w).2.1.toolkit = { r.toolkit with
        trend := (reduce r.strategy r.results (r.output.getD default) r.toolkit
          (Clocked.read w).1).trend } := by
  unfold collapse at h ⊢
  simp only [hopen, Bool.false_eq_true, ↓reduceIte] at h ⊢
  cases hmissing : r.toolkit.missing r.strategy with
  | some fault =>
    simp only [hmissing] at h
    cases h
  | none =>
    simp only [hmissing] at h ⊢
    unfold collapseResults at h ⊢
    cases hempty : r.results.isEmpty with
    | true =>
      simp only [hempty, ↓reduceIte] at h
      cases h
    | false =>
      simp only [hempty, Bool.false_eq_true, ↓reduceIte] at h ⊢
      refine ⟨trivial, trivial, ?_⟩
      split <;> rfl

/-- **What a collapse does to the toolkit**: it records what it has looked at, if that is
anything. -/
theorem collapse_toolkit (r : Register α ω) (w : ω) :
    (r.collapse w).2.1.toolkit = { r.toolkit with
      trend := r.toolkit.trend.map fun t =>
        (r.scoring? w).elim t fun s => t.record s.scores s.time } := by
  have hsame : r.toolkit = { r.toolkit with trend := r.toolkit.trend.map fun t => t } :=
    congrArg (fun trend => { r.toolkit with trend }) Option.map_id'.symm
  cases hcollapse : (r.collapse w).1 with
  | error fault =>
    rw [scoring?_of_error hcollapse]
    refine Eq.trans ?_ hsame
    have hfailing := failing_of_error hcollapse
    generalize (r.collapse w).2.1 = r', (r.collapse w).2.2 = w' at hfailing
    cases hfailing <;> rfl
  | ok value =>
    cases hopen : r.collapsed with
    | true =>
      rw [scoring?_of_collapsed hopen]
      refine Eq.trans ?_ hsame
      unfold collapse
      rw [hopen, if_pos rfl]
      split <;> rfl
    | false =>
      obtain ⟨hmissing, hne, htoolkit⟩ := collapse_of_ok hopen hcollapse
      rw [htoolkit]
      by_cases htemporal : r.strategy = .temporal
      · have hhas := Toolkit.has_of_missing_eq_none hmissing
        rw [htemporal] at hhas
        obtain ⟨score, hscore⟩ := Option.isSome_iff_exists.mp (hhas .evaluator (by decide))
        obtain ⟨t, ht⟩ := Option.isSome_iff_exists.mp (hhas .trend (by decide))
        have hscoring : r.scoring? w = some ⟨r.results.map score, (Clocked.read w).1⟩ := by
          unfold scoring?
          rw [hopen, htemporal, hcollapse, hscore]
        rw [hscoring, htemporal, (reduce_temporal hne hscore ht _ _).2, ht]
        rfl
      · rw [scoring?_of_ne_temporal htemporal, reduce_trend_of_ne_temporal htemporal]
        exact hsame

end Collapse

/-! ## Operations -/

section Operations

variable [Clocked ω] [Inhabited α] [BEq α]

/-- What an operation records in the history of scores. -/
def Operation.scoring? (op : Operation α ω) (r : Register α ω) (w : ω) : Option Scoring :=
  match op with
  | .collapse => r.scoring? w
  | _ => none

omit [Clocked ω] [Inhabited α] [BEq α] in
/-- Whether an operation begins the history of scores anew: it forgets what was recorded, or
installs a history where there is none of the same window. -/
def Operation.renewsTrend (op : Operation α ω) (r : Register α ω) : Bool :=
  match op with
  | .set .clearTrend => true
  | .set (.setTrend window weight) =>
    (r.setTrend window weight).isOk && !(r.toolkit.trend.any fun t => t.window == window)
  | _ => false

/-- What an operation can do to the history of scores. -/
inductive Operation.TrendStep (op : Operation α ω) (r : Register α ω) (w : ω) :
    Option Trend → Prop
  | kept (hrenews : op.renewsTrend r = false) (hscoring : op.scoring? r w = none) :
      TrendStep op r w r.toolkit.trend
  | weighed (hrenews : op.renewsTrend r = false) (hscoring : op.scoring? r w = none) {t : Trend}
      (ht : r.toolkit.trend = some t) {weight : Int32} (hfit : Trend.Fit t.window weight) :
      TrendStep op r w (some { t with weight })
  | begun (hrenews : op.renewsTrend r = true) {window : Nat} {weight : Int32}
      (hfit : Trend.Fit window weight) : TrendStep op r w (some (.ofWindow window weight))
  | cleared (hrenews : op.renewsTrend r = true) :
      TrendStep op r w (r.toolkit.trend.map Trend.clear)
  | recorded (hrenews : op.renewsTrend r = false) {s : Scoring}
      (hscoring : op.scoring? r w = some s) :
      TrendStep op r w (r.toolkit.trend.map fun t => t.record s.scores s.time)

/-- What an operation can do to history and panel. -/
structure Operation.Refitted (op : Operation α ω) (r : Register α ω) (w : ω)
    (toolkit : Toolkit α) : Prop where
  trend : op.TrendStep r w toolkit.trend
  panel : toolkit.panel = r.toolkit.panel ∨ ∃ p, toolkit.panel = some p ∧ p.Seated

theorem Operation.refitted_self {op : Operation α ω} {r : Register α ω} {w : ω}
    (hrenews : op.renewsTrend r = false) (hscoring : op.scoring? r w = none) :
    op.Refitted r w r.toolkit := ⟨.kept hrenews hscoring, Or.inl rfl⟩

omit [Inhabited α] [BEq α] in
/-- No launch touches the toolkit. -/
theorem Launch.toolkit_start (l : Launch) (r : Register α ω) (w : ω) :
    (l.start r w).2.1.toolkit = r.toolkit := by
  have hlaunched := l.launched_start r w
  generalize l.start r w = x at hlaunched
  cases hlaunched with
  | refused => rfl
  | ran order hready _ hend =>
    rw [hend]
    exact (sameSetup_runInOrder hready w order).toolkit

namespace Setting

variable {r r' : Register α ω} {w : ω}

theorem refitted_setTrend {window : Nat} {weight : Int32} (h : r.setTrend window weight = .ok r') :
    (Operation.set (setTrend window weight)).Refitted r w r'.toolkit := by
  have hok : (r.setTrend window weight).isOk = true := by rw [h]; rfl
  unfold Register.setTrend at h
  split at h
  · cases h
  · rename_i hvalid
    rw [not_or, not_or, Int32.not_lt, Int32.not_lt] at hvalid
    have hfit : Trend.Fit window weight :=
      ⟨Nat.pos_of_ne_zero hvalid.1, hvalid.2.1, hvalid.2.2⟩
    rw [← Except.ok.inj h]
    refine ⟨?_, Or.inl rfl⟩
    simp only
    cases ht : r.toolkit.trend with
    | none =>
      refine .begun ?_ hfit
      simp only [Operation.renewsTrend, hok, ht, Option.any_none, Bool.not_false, Bool.and_self]
    | some t =>
      simp only
      by_cases hwindow : t.window = window
      · rw [if_pos hwindow]
        refine .weighed ?_ rfl ht (hwindow ▸ hfit)
        simp [Operation.renewsTrend, ht, hwindow]
      · rw [if_neg hwindow]
        refine .begun ?_ hfit
        simp [Operation.renewsTrend, hok, ht, hwindow]

theorem refitted_setPanel {members : List Member} (h : r.setPanel members = .ok r') :
    (Operation.set (setPanel members)).Refitted r w r'.toolkit := by
  unfold Register.setPanel at h
  split at h
  · cases h
  · split at h
    · cases h
    · rename_i hplain
      split at h
      · cases h
      · rename_i hsome
        rw [← Except.ok.inj h]
        refine ⟨.kept rfl rfl, Or.inr ⟨_, rfl, Panel.seated_ofMembers ?_ fun m hm hs => ?_⟩⟩
        · exact Bool.eq_false_iff.mpr hsome
        · exact hplain (List.any_eq_true.mpr ⟨m, hm, beq_iff_eq.mpr hs⟩)

omit [Clocked ω] [Inhabited α] [BEq α] in
theorem toolkit_changeSteering {f : Steering ω → Steering ω} (h : r.changeSteering f = .ok r') :
    r'.toolkit = r.toolkit := by
  unfold changeSteering at h
  split at h
  · cases h
  · rw [← Except.ok.inj h]

theorem refitted_apply {s : Setting α ω} (h : s.apply r = .ok r') :
    (Operation.set s).Refitted r w r'.toolkit := by
  cases s with
  | initQubit | setEnabled | setId | setNote =>
    rw [changeQubit_eq_ok h]
    exact Operation.refitted_self rfl rfl
  | setTrend window weight => exact refitted_setTrend h
  | setPanel members => exact refitted_setPanel h
  | setThresholds | reportQuality =>
    rw [toolkit_changeSteering h]
    exact Operation.refitted_self rfl rfl
  | resetSteering =>
    simp only [apply, Register.resetSteering] at h
    split at h
    · cases h
    · rw [← Except.ok.inj h]
      exact Operation.refitted_self rfl rfl
  | clearTrend =>
    rw [← Except.ok.inj h]
    exact ⟨.cleared rfl, Or.inl rfl⟩
  | setStrategy | setWaitsForAll | setDispatcher | setDataSize | installSteering | setCustom
  | setEvaluator | setCombiner | setCriteria =>
    rw [← Except.ok.inj h]
    exact ⟨.kept rfl rfl, Or.inl rfl⟩

end Setting

/-- **What an operation can do to history and panel.** -/
theorem Operation.refitted_perform (op : Operation α ω) (r : Register α ω) (w : ω) :
    op.Refitted r w (op.perform r w).2.1.toolkit := by
  cases op with
  | set s =>
    cases hs : s.apply r with
    | error fault =>
      simp only [perform, hs]
      refine refitted_self ?_ rfl
      cases s with
      | setTrend window weight =>
        have hrefused : (r.setTrend window weight).isOk = false := by
          rw [show r.setTrend window weight = .error fault from hs]
          rfl
        rw [renewsTrend, hrefused, Bool.false_and]
      | clearTrend => cases hs
      | _ => rfl
    | ok r' =>
      simp only [perform, hs]
      exact Setting.refitted_apply hs
  | setData i data =>
    cases hs : r.setData i data with
    | none =>
      simp only [perform, hs]
      exact refitted_self rfl rfl
    | some r' =>
      simp only [perform, hs]
      rw [setData_eq_some hs]
      exact refitted_self rfl rfl
  | launch l =>
    simp only [perform, Launch.toolkit_start]
    exact refitted_self rfl rfl
  | collapse =>
    simp only [perform, collapse_toolkit]
    refine ⟨?_, Or.inl rfl⟩
    cases hs : r.scoring? w with
    | none =>
      simp only [Option.elim_none, Option.map_id']
      exact .kept rfl hs
    | some s => exact .recorded rfl hs
  | reset => exact refitted_self rfl rfl
  | checkpoint =>
    simp only [perform, (sameSetup_checkpoint r w).toolkit]
    exact refitted_self rfl rfl
  | outside f => exact refitted_self rfl rfl

/-! ## Registers that can be reached -/

/-- A register whose history fits its window, and whose panel is one that can be installed. -/
structure Fitted (r : Register α ω) : Prop where
  trend : ∀ t ∈ r.toolkit.trend, t.Sound
  panel : ∀ p ∈ r.toolkit.panel, p.Seated

theorem Operation.fitted_perform {r : Register α ω} (h : r.Fitted) (op : Operation α ω) (w : ω) :
    (op.perform r w).2.1.Fitted := by
  obtain ⟨htrend, hpanel⟩ := op.refitted_perform r w
  generalize (op.perform r w).2.1 = r' at htrend hpanel
  refine ⟨fun t ht => ?_, fun p hp => ?_⟩
  · generalize r'.toolkit.trend = trend at htrend ht
    cases htrend with
    | kept => exact h.trend t ht
    | weighed _ _ ht₀ hfit =>
      cases ht
      exact (h.trend _ ht₀).withWeight hfit
    | begun _ hfit =>
      cases ht
      exact Trend.sound_ofWindow hfit
    | cleared =>
      obtain ⟨t₀, ht₀, rfl⟩ := Option.map_eq_some_iff.mp ht
      exact (h.trend t₀ ht₀).clear
    | recorded =>
      obtain ⟨t₀, ht₀, rfl⟩ := Option.map_eq_some_iff.mp ht
      exact (h.trend t₀ ht₀).record _ _
  · rcases hpanel with hsame | ⟨p', hp', hseated⟩
    · exact h.panel p (hsame ▸ hp)
    · cases hp'.symm.trans hp
      exact hseated

omit [Clocked ω] [BEq α] in
theorem IsNew.fitted {r : Register α ω} (h : IsNew r) : r.Fitted := by
  obtain ⟨ids, strategy, waitsForAll, dispatcher, rfl⟩ := h.eq
  exact ⟨nofun, nofun⟩

/-- **Every register that can be reached is well equipped.** -/
theorem Reachable.fitted {r : Register α ω} (h : Reachable r) : r.Fitted := by
  induction h with
  | new hnew => exact hnew.fitted
  | perform _ op w ih => exact op.fitted_perform ih w

end Operations

end Register

end Superpose
