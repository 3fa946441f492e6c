import Superpose.Proofs.Register.Equipment

/-!
# Registers that are made and furnished

What a register is given, by its making, by settings and by data, as opposed to what its runs and
collapses leave in it. A `Furnished` register was given things and nothing else was done to it, so
nothing in it tells of a run (`Furnished.unused`). `SameOutfit` relates registers that were given
the same. Every register without a steering that can be reached has a furnished one beside it that
was given the same (`Reachable.exists_furnished`): what it has can be given to a new one, piece by
piece.
-/

namespace Superpose

variable {α ω : Type}

/-! ## Outfits -/

/-- What a toolkit was given: of a history its window and its weight, and nothing recorded. -/
def Toolkit.outfit (t : Toolkit α) : Toolkit α :=
  { t with trend := t.trend.map fun h => .ofWindow h.window h.weight }

theorem Toolkit.outfit_outfit (t : Toolkit α) : t.outfit.outfit = t.outfit := by
  obtain ⟨evaluator, combiner, custom, criteria, _ | h, panel⟩ := t <;> rfl

namespace Qubit

/-- What a qubit was given: whether it takes part in runs, its body, its data, and the size of its
result. -/
def outfit (q : Qubit α ω) : Bool × Option (Body α ω) × α × UInt64 :=
  (q.enabled, q.body, q.data, q.resultSize)

theorem plain_run [Clocked ω] {q : Qubit α ω} (h : q.Plain) (w : ω) : (q.run w).qubit.Plain := by
  have hsize : (q.run w).qubit.resultSize = q.resultSize := by
    unfold run
    cases q.body with
    | none => rfl
    | some body =>
      simp only
      split <;> rfl
  intro hbody
  rw [hsize]
  exact h ((q.run_body w).symm.trans hbody)

end Qubit

namespace Register

/-! ## Furnished registers -/

section Furnished

variable [Inhabited α]

/-- A register that was made and given things, and to which nothing else was done. -/
inductive Furnished : Register α ω → Prop
  | new {r : Register α ω} (h : IsNew r) : Furnished r
  | set {r r' : Register α ω} (h : Furnished r) (s : Setting α ω) (hs : s.apply r = .ok r') :
      Furnished r'
  | setData {r r' : Register α ω} (h : Furnished r) (i : Nat) (data : α)
      (hs : r.setData i data = some r') : Furnished r'

/-- A register in which nothing tells of a run. -/
structure Unused (r : Register α ω) : Prop where
  progress : r.progress = {}
  collapsed : r.collapsed = false
  runTime : r.runTime = 0
  collapseTime : r.collapseTime = 0
  qubits : ∀ q ∈ r.qubits, q.status = .pending ∧ q.started = 0 ∧ q.ended = 0

omit [Inhabited α] in
theorem Unused.modify {r : Register α ω} (h : r.Unused) (i : Nat) {f : Qubit α ω → Qubit α ω}
    (hf : ∀ q, Qubit.Reworked q (f q)) : Unused { r with qubits := r.qubits.modify i f } where
  progress := h.progress
  collapsed := h.collapsed
  runTime := h.runTime
  collapseTime := h.collapseTime
  qubits := forall_mem_modify h.qubits (fun q hq => by
    have hreworked := hf q
    refine ⟨?_, hreworked.started.trans hq.2.1, hreworked.ended.trans hq.2.2⟩
    rcases hreworked.status with hkept | hpending
    · exact hkept.trans hq.1
    · exact hpending) i

theorem Furnished.unused {r : Register α ω} (h : Furnished r) : r.Unused := by
  induction h with
  | new h =>
    obtain ⟨ids, strategy, waitsForAll, dispatcher, rfl⟩ := h.eq
    refine ⟨rfl, rfl, rfl, rfl, fun q hq => ?_⟩
    obtain ⟨id, -, rfl⟩ := List.mem_map.mp hq
    exact ⟨rfl, rfl, rfl⟩
  | set _ s hs ih =>
    cases Setting.applied_apply hs with
    | qubit i f hf => exact ih.modify i hf
    | equipment => exact ⟨ih.progress, ih.collapsed, ih.runTime, ih.collapseTime, ih.qubits⟩
  | setData _ i data hs ih =>
    rw [setData_eq_some hs]
    exact ih.modify _ fun q => ⟨rfl, rfl, Or.inl rfl, id⟩

end Furnished

/-! ## Registers that were given the same -/

/-- Registers that were given the same, the numbers and texts of qubits apart. -/
structure SameOutfit (r r' : Register α ω) : Prop where
  qubits : r'.qubits.map Qubit.outfit = r.qubits.map Qubit.outfit
  strategy : r'.strategy = r.strategy
  toolkit : r'.toolkit.outfit = r.toolkit.outfit
  waitsForAll : r'.waitsForAll = r.waitsForAll
  dataSize : r'.dataSize = r.dataSize
  dispatcher : r'.dispatcher = r.dispatcher
  steering : r'.steering = r.steering

section Outfit

variable [Inhabited α] {r : Register α ω}

omit [Inhabited α] in
theorem changeQubit_at (done todo : List (Qubit α ω)) (q : Qubit α ω) (f : Qubit α ω → Qubit α ω) :
    { r with qubits := done ++ q :: todo }.changeQubit done.length f =
      .ok { r with qubits := done ++ f q :: todo } := by
  have hlt : done.length < (done ++ q :: todo).length := by simp
  unfold changeQubit count
  rw [if_neg (Nat.not_le.mpr hlt), List.modify_eq_take_cons_drop hlt]
  simp

/-- A qubit without a body can be given what another has. -/
theorem Furnished.exists_qubit {done todo : List (Qubit α ω)} {b : Qubit α ω}
    (h : Furnished { r with qubits := done ++ b :: todo }) (hbody : b.body = none)
    (hsize : b.resultSize = 0) {q : Qubit α ω} (hq : q.Plain) :
    ∃ b', Furnished { r with qubits := done ++ b' :: todo } ∧ b'.outfit = q.outfit := by
  cases hbody' : q.body with
  | some body =>
    have hgiven := h.set (.initQubit done.length body q.data q.resultSize) (changeQubit_at ..)
    refine ⟨_, hgiven.set (.setEnabled done.length q.enabled) (changeQubit_at ..), ?_⟩
    rw [Qubit.outfit, Qubit.outfit, hbody']
  | none =>
    have hgiven := h.setData done.length q.data
      (congrArg Except.toOption (changeQubit_at ..))
    refine ⟨_, hgiven.set (.setEnabled done.length q.enabled) (changeQubit_at ..), ?_⟩
    rw [Qubit.outfit, Qubit.outfit, hbody', hbody, hsize, hq hbody']

/-- So can all of them. -/
theorem Furnished.exists_qubits : ∀ {qs todo : List (Qubit α ω)} (done : List (Qubit α ω)),
    todo.length = qs.length → (∀ b ∈ todo, b.body = none ∧ b.resultSize = 0) →
      (∀ q ∈ qs, q.Plain) → Furnished { r with qubits := done ++ todo } →
        ∃ given, Furnished { r with qubits := done ++ given } ∧
          given.map Qubit.outfit = qs.map Qubit.outfit := by
  intro qs
  induction qs with
  | nil =>
    intro todo done hlength _ _ h
    rw [List.length_eq_zero_iff.mp hlength] at h
    exact ⟨[], h, rfl⟩
  | cons q qs ih =>
    intro todo done hlength hblank hplain h
    obtain ⟨b, todo, rfl⟩ := List.exists_cons_of_length_eq_add_one hlength
    rw [List.forall_mem_cons] at hblank hplain
    obtain ⟨b', hb', houtfit⟩ := h.exists_qubit hblank.1.1 hblank.1.2 hplain.1
    have hassoc : done ++ b' :: todo = done ++ [b'] ++ todo := by simp
    rw [hassoc] at hb'
    obtain ⟨given, hgiven, hsame⟩ := ih _ (Nat.succ.inj hlength) hblank.2 hplain.2 hb'
    refine ⟨b' :: given, ?_, ?_⟩
    · rw [List.append_assoc] at hgiven
      exact hgiven
    · rw [List.map_cons, List.map_cons, houtfit, hsame]

omit [Inhabited α] in
theorem setTrend_of_fit {window : Nat} {weight : Int32} (h : Choice.Trend.Fit window weight)
    (hnone : r.toolkit.trend = none) :
    r.setTrend window weight =
      .ok { r with toolkit := { r.toolkit with trend := some (.ofWindow window weight) } } := by
  have hvalid : ¬ (window = 0 ∨ weight < 0 ∨ 100 < weight) := by
    rw [not_or, not_or, Int32.not_lt, Int32.not_lt]
    exact ⟨Nat.ne_of_gt h.window_pos, h.weight_nonneg, h.weight_le⟩
  rw [setTrend, if_neg hvalid, hnone]

omit [Inhabited α] in
theorem setPanel_of_seated {p : Choice.Panel} (h : p.Seated) :
    r.setPanel p.members = .ok { r with toolkit := { r.toolkit with panel := some p } } := by
  have hplain : ¬ (p.members.any fun m => m.strategy == .ensemble) = true := by
    intro hany
    obtain ⟨m, hm, hs⟩ := List.any_eq_true.mp hany
    exact h.plain m hm (beq_iff_eq.mp hs)
  have hsome : ¬ p.isEmpty = true := by
    rw [Choice.Panel.isEmpty, List.isEmpty_iff]
    exact List.ne_nil_of_length_pos h.pos
  rw [setPanel, if_neg (Nat.not_lt.mpr h.le_seats), if_neg hplain, h.ofMembers_eq, if_neg hsome]

/-- A register without equipment can be given what another has, and be set to any strategy. -/
theorem Furnished.equip (h : Furnished { r with toolkit := {} }) {t : Toolkit α}
    (htrend : ∀ trend ∈ t.trend, trend.Sound) (hpanel : ∀ p ∈ t.panel, p.Seated) (s : Strategy) :
    Furnished { r with toolkit := t.outfit, strategy := s } := by
  obtain ⟨evaluator, combiner, custom, criteria, trend, panel⟩ := t
  have hevaluator : Furnished { r with toolkit := { evaluator } } := by
    cases evaluator with
    | none => exact h
    | some score => exact h.set (.setEvaluator score) rfl
  have hcombiner : Furnished { r with toolkit := { evaluator, combiner } } := by
    cases combiner with
    | none => exact hevaluator
    | some combine => exact hevaluator.set (.setCombiner combine) rfl
  have hcriteria : Furnished { r with toolkit := { evaluator, combiner, criteria } } := by
    cases criteria with
    | none => exact hcombiner
    | some criteria => exact hcombiner.set (.setCriteria criteria) rfl
  have hpanelled : Furnished { r with toolkit := { evaluator, combiner, criteria, panel } } := by
    cases panel with
    | none => exact hcriteria
    | some p =>
      have hseated := hpanel p rfl
      exact hcriteria.set (.setPanel p.members) (setPanel_of_seated hseated)
  have htrended : Furnished { r with
      toolkit := Toolkit.outfit { evaluator, combiner, criteria, panel, trend } } := by
    cases trend with
    | none => exact hpanelled
    | some t =>
      have hfit := (htrend t rfl).fit
      exact hpanelled.set (.setTrend t.window t.weight) (setTrend_of_fit hfit rfl)
  -- a custom rule chooses itself, so the strategy is chosen after it
  cases custom with
  | none => exact htrended.set (.setStrategy s) rfl
  | some custom =>
    exact (htrended.set (.setCustom custom) rfl).set (.setStrategy s) rfl

end Outfit

/-! ## Registers that can be reached -/

/-- Qubits, one at least, of which each was given a result of some size only together with a
body. -/
structure Staffed (qubits : List (Qubit α ω)) : Prop where
  pos : 0 < qubits.length
  plain : ∀ q ∈ qubits, q.Plain

theorem Staffed.map {qubits : List (Qubit α ω)} (h : Staffed qubits) {f : Qubit α ω → Qubit α ω}
    (hf : ∀ q, q.Plain → (f q).Plain) : Staffed (qubits.map f) where
  pos := Nat.lt_of_lt_of_eq h.pos (List.length_map f).symm
  plain q' hq' := by
    obtain ⟨q, hq, rfl⟩ := List.mem_map.mp hq'
    exact hf q (h.plain q hq)

theorem Staffed.modify {qubits : List (Qubit α ω)} (h : Staffed qubits) (i : Nat)
    {f : Qubit α ω → Qubit α ω} (hf : ∀ q, q.Plain → (f q).Plain) :
    Staffed (qubits.modify i f) where
  pos := Nat.lt_of_lt_of_eq h.pos (List.length_modify ..).symm
  plain := forall_mem_modify h.plain hf i

section Runs

variable [Clocked ω]

theorem Staffed.runJob {s : Scene α ω} (h : Staffed s.qubits) (i : Nat) :
    Staffed (runJob i s).2.qubits := by
  cases hq : s.qubits[i]? with
  | none =>
    rw [Register.runJob, hq]
    exact h
  | some q =>
    rw [runJob_of_getElem? hq]
    refine ⟨Nat.lt_of_lt_of_eq h.pos List.length_set.symm, fun q' hq' => ?_⟩
    rcases List.mem_or_eq_of_mem_set hq' with hmem | rfl
    · exact h.plain q' hmem
    · exact Qubit.plain_run (h.plain q (List.mem_of_getElem? hq)) _

theorem Staffed.runJobs (persistent : Bool) : ∀ {is : List Nat} {s : Scene α ω}, Staffed s.qubits →
    Staffed (runJobs persistent is s).2.qubits := by
  intro is
  induction is with
  | nil => exact fun h => h
  | cons i is ih =>
    intro s h
    rw [Register.runJobs]
    split
    · split
      · exact ih (h.runJob i)
      · exact h.runJob i
    · exact ih (h.runJob i)

theorem Staffed.runInOrder {r : Register α ω} (h : Staffed r.qubits) (hready : r.obstacle = none)
    (w : ω) (order : List Nat) : Staffed (r.runInOrder w order).2.1.qubits := by
  refine runInOrder_preserves (P := fun r => Staffed r.qubits) (fun r w number wave h => ?_)
    (fun r w h => ?_) (fun r time h => h) hready w order (h.map fun q hq => ?_)
  · exact h.runJobs _
  · rw [checkpoint_qubits]
    exact h
  · unfold Qubit.skipIfDisabled
    split <;> exact hq

variable [Inhabited α] [BEq α]

theorem qubits_collapse (r : Register α ω) (w : ω) : (r.collapse w).2.1.qubits = r.qubits := by
  unfold collapse
  split
  · split <;> rfl
  · split
    · rfl
    · unfold collapseResults
      simp only
      split
      · rfl
      · split <;> rfl

theorem Operation.staffed_perform {r : Register α ω} (h : Staffed r.qubits) (op : Operation α ω)
    (w : ω) : Staffed (op.perform r w).2.1.qubits := by
  cases op with
  | set s =>
    cases hs : s.apply r with
    | error fault =>
      simp only [perform, hs]
      exact h
    | ok r' =>
      simp only [perform, hs]
      cases Setting.applied_apply hs with
      | qubit i f hf => exact h.modify i fun q => (hf q).plain
      | equipment => exact h
  | setData i data =>
    cases hs : r.setData i data with
    | none =>
      simp only [perform, hs]
      exact h
    | some r' =>
      simp only [perform, hs]
      rw [setData_eq_some hs]
      exact h.modify i fun q hq => hq
  | launch l =>
    have hlaunched := l.launched_start r w
    simp only [perform]
    generalize l.start r w = x at hlaunched
    cases hlaunched with
    | refused => exact h
    | ran order hready _ hend =>
      rw [hend]
      exact h.runInOrder hready w order
  | collapse =>
    simp only [perform, qubits_collapse]
    exact h
  | reset => exact h.map fun q hq => hq
  | checkpoint =>
    simp only [perform, checkpoint_qubits]
    exact h
  | outside f => exact h

theorem Reachable.staffed {r : Register α ω} (h : Reachable r) : Staffed r.qubits := by
  induction h with
  | new h =>
    obtain ⟨threads, capacity, settings, h⟩ := h
    unfold ofSettings ofCapacity at h
    split at h
    · cases h
    · rename_i hpos
      rw [← Except.ok.inj h]
      refine ⟨?_, fun q hq _ => ?_⟩
      · simpa using Nat.pos_of_ne_zero hpos
      · obtain ⟨i, -, rfl⟩ := List.mem_map.mp hq
        rfl
  | perform _ op w ih => exact op.staffed_perform ih w

/-- **What a register has can be given to a new one**, unless it is under a steering. -/
theorem Reachable.exists_furnished {r : Register α ω} (h : Reachable r)
    (hfree : r.steering = none) : ∃ f : Register α ω, Furnished f ∧ SameOutfit r f := by
  have hstaffed := h.staffed
  have hfitted := h.fitted
  let blank : List (Qubit α ω) := (List.range r.count).map fun i => .blank (UInt32.ofNat i)
  have hnew : Furnished ({ qubits := blank } : Register α ω) := by
    refine .new ⟨1, r.count, {}, ?_⟩
    have hcount : r.count ≠ 0 := Nat.ne_of_gt hstaffed.pos
    rw [ofSettings, ofCapacity, if_neg hcount]
    rfl
  have hblank : ∀ b ∈ blank, b.body = none ∧ b.resultSize = 0 := by
    intro b hb
    obtain ⟨i, -, rfl⟩ := List.mem_map.mp hb
    exact ⟨rfl, rfl⟩
  have hlength : blank.length = r.qubits.length := by simp [blank, count]
  obtain ⟨given, hgiven, hqubits⟩ := Furnished.exists_qubits (r := { qubits := blank }) []
    hlength hblank hstaffed.plain hnew
  have hequipped := hgiven.equip (r := { qubits := given }) hfitted.trend hfitted.panel r.strategy
  have hwaits := hequipped.set (.setWaitsForAll r.waitsForAll) rfl
  have hsized := hwaits.set (.setDataSize r.dataSize) rfl
  have hready := hsized.set (.setDispatcher r.dispatcher) rfl
  exact ⟨_, hready, hqubits, rfl, r.toolkit.outfit_outfit, rfl, rfl, rfl, hfree.symm⟩

end Runs

end Register

end Superpose
