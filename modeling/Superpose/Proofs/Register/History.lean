import Superpose.Proofs.Register.Operation
import Superpose.Proofs.Run.Course
import Superpose.Proofs.Steering.Ledger

/-!
# Histories of a register

What becomes of a register in the course of many operations. `Launch.of_accepted` says of which run
a launch is one, and `Operation.effect_perform` is the inversion of a single operation: it says all
that an operation can do to a register, so that no later proof opens the operations. `performAll`
does operations one after the other, `Throughout` says something of each of them in the state that
it finds, and `performAll_preserves` carries an invariant along. `Reachable` are the registers to
which operations lead from a new one.
-/

namespace Superpose

/-- Whether a qubit takes part in runs, and its status. -/
def Qubit.standing {α ω : Type} (q : Qubit α ω) : Bool × Status := (q.enabled, q.status)

namespace Register

variable {α ω : Type}

/-- Whether an operation gives a qubit something to do, or switches one on or off. -/
def Operation.Assigns : Operation α ω → Prop
  | .set (.initQubit ..) | .set (.setEnabled ..) => True
  | _ => False

/-- Whether an operation gives the steering its one change of strategy, for the first time or
anew. -/
def Operation.Refills : Operation α ω → Prop
  | .set (.installSteering ..) | .set .resetSteering => True
  | _ => False

section Operations

variable [Clocked ω]

/-! ## Launches -/

/-- The order that a launch asks for. -/
def Launch.order : Launch → List Nat
  | .execute | .executeSync => []
  | .executeOrdered order => order

theorem of_executeOrdered_accepted {r : Register α ω} {w : ω} {order : List Nat}
    (h : ∀ fault, (r.executeOrdered w order).1 ≠ .refused fault) :
    r.obstacle = none ∧ IsOrder r.count order := by
  cases horder : orderFault r.count [] order with
  | some fault =>
    refine absurd ?_ (h (.register fault))
    rw [executeOrdered, horder]
  | none =>
    have hisOrder := orderFault_nil_eq_none_iff.mp horder
    refine ⟨?_, hisOrder⟩
    cases hobstacle : r.obstacle with
    | none => rfl
    | some fault =>
      refine absurd ?_ (h fault)
      rw [executeOrdered_of_isOrder hisOrder, runInOrder, hobstacle]

theorem executeSync_snd (r : Register α ω) (w : ω) : (r.executeSync w).2 = (r.execute w).2 := by
  unfold executeSync
  split
  · rename_i h
    rw [h]
  · rfl

theorem executeSync_refused {r : Register α ω} {w : ω} {fault : Fault}
    (h : (r.execute w).1 = .refused fault) : (r.executeSync w).1 = .refused fault := by
  unfold executeSync
  split
  · rename_i hfinished
    rw [hfinished] at h
    cases h
  · exact h

/-- A launch that is accepted is a run of a register that is ready, in a proper order. -/
theorem Launch.of_accepted {l : Launch} {r : Register α ω} {w : ω}
    (h : ∀ fault, (l.start r w).1 ≠ .refused fault) :
    r.obstacle = none ∧ IsOrder r.count l.order ∧
      (l.start r w).2 = (r.executeOrdered w l.order).2 := by
  have hsame : r.execute w = r.executeOrdered w [] := execute_eq_executeOrdered_nil r w
  cases l with
  | execute =>
    have haccepted : ∀ fault, (r.execute w).1 ≠ .refused fault := h
    obtain ⟨hready, horder⟩ := of_executeOrdered_accepted (hsame ▸ haccepted)
    exact ⟨hready, horder, congrArg Prod.snd hsame⟩
  | executeSync =>
    have haccepted : ∀ fault, (r.execute w).1 ≠ .refused fault :=
      fun fault => mt executeSync_refused (h fault)
    obtain ⟨hready, horder⟩ := of_executeOrdered_accepted (hsame ▸ haccepted)
    exact ⟨hready, horder, (executeSync_snd r w).trans (congrArg Prod.snd hsame)⟩
  | executeOrdered order =>
    obtain ⟨hready, horder⟩ := of_executeOrdered_accepted h
    exact ⟨hready, horder, rfl⟩

/-! ## Operations -/

/-- Whether an operation begins a run: it is a launch and is not refused. -/
def Operation.StartsRun (op : Operation α ω) (r : Register α ω) (w : ω) : Prop :=
  match op with
  | .launch l => ∀ fault, (l.start r w).1 ≠ .refused fault
  | _ => False

/-- What an operation can do to a register. -/
inductive Operation.Effect (op : Operation α ω) (r : Register α ω) (w : ω) :
    Register α ω → Prop
  | idle : Effect op r w r
  | qubit (i : Nat) (f : Qubit α ω → Qubit α ω)
      (hstatus : ∀ q, (f q).status = q.status ∨ (f q).status = .pending)
      (hstanding : ¬ op.Assigns → ∀ q, (f q).standing = q.standing) :
      Effect op r w { r with qubits := r.qubits.modify i f }
  | equipment (hset : ∃ s, op = .set s) (strategy : Strategy) (toolkit : Toolkit α)
      (waitsForAll : Bool) (dataSize : UInt64) (steering : Option (Steering ω))
      (dispatcher : Dispatcher)
      (hsteering : ¬ op.Refills → steering.map Steering.ledger = r.steering.map Steering.ledger) :
      Effect op r w { r with strategy, toolkit, waitsForAll, dataSize, steering, dispatcher }
  | ran (order : List Nat) (hstarts : op.StartsRun r w) (hready : r.obstacle = none) :
      Effect op r w (r.runInOrder w order).2.1
  /-- A collapse of a register that holds no value yet makes the output, and perhaps the value. -/
  | collapsed (hopen : r.collapsed = false) (output : α) (toolkit : Toolkit α) (collapsed : Bool)
      (collapseTime : UInt64) :
      Effect op r w { r with output := some output, toolkit, collapsed, collapseTime }
  | reset (hreset : op = .reset) : Effect op r w r.reset
  | checked (hchecks : op = .checkpoint) : Effect op r w (r.checkpoint w).2.1

omit [Clocked ω] in
theorem changeQubit_eq_ok {r r' : Register α ω} {i : Nat} {f : Qubit α ω → Qubit α ω}
    (h : r.changeQubit i f = .ok r') : r' = { r with qubits := r.qubits.modify i f } := by
  unfold changeQubit at h
  split at h
  · cases h
  · exact (Except.ok.inj h).symm

omit [Clocked ω] in
theorem setData_eq_some {r r' : Register α ω} {i : Nat} {data : α}
    (h : r.setData i data = some r') :
    r' = { r with qubits := r.qubits.modify i fun q => { q with data } } := by
  unfold setData at h
  cases hchange : r.changeQubit i fun q => { q with data } with
  | error fault =>
    rw [hchange] at h
    cases h
  | ok r'' =>
    rw [hchange] at h
    exact (Option.some.inj h).symm.trans (changeQubit_eq_ok hchange)

namespace Setting

variable {s : Setting α ω} {r r' : Register α ω} {w : ω}

theorem effect_changeSteering {f : Steering ω → Steering ω} (hf : ∀ st, (f st).ledger = st.ledger)
    (h : r.changeSteering f = .ok r') : (Operation.set s).Effect r w r' := by
  unfold changeSteering at h
  split at h
  · cases h
  · rename_i st hst
    rw [← Except.ok.inj h]
    refine .equipment ⟨s, rfl⟩ _ _ _ _ _ _ fun _ => ?_
    rw [hst, Option.map_some, Option.map_some, hf]

theorem effect_setTrend {window : Nat} {weight : Int32} (h : r.setTrend window weight = .ok r') :
    (Operation.set s).Effect r w r' := by
  unfold Register.setTrend at h
  split at h
  · cases h
  · rw [← Except.ok.inj h]
    exact .equipment ⟨s, rfl⟩ _ _ _ _ _ _ fun _ => rfl

theorem effect_setPanel {members : List Choice.Member} (h : r.setPanel members = .ok r') :
    (Operation.set s).Effect r w r' := by
  unfold Register.setPanel at h
  split at h
  · cases h
  · split at h
    · cases h
    · split at h
      · cases h
      · rw [← Except.ok.inj h]
        exact .equipment ⟨s, rfl⟩ _ _ _ _ _ _ fun _ => rfl

theorem effect_apply (h : s.apply r = .ok r') : (Operation.set s).Effect r w r' := by
  cases s with
  | initQubit i body data resultSize =>
    rw [changeQubit_eq_ok h]
    exact .qubit _ _ (fun q => Or.inr rfl) (fun hs => absurd trivial hs)
  | setEnabled i on =>
    rw [changeQubit_eq_ok h]
    exact .qubit _ _ (fun q => Or.inl rfl) (fun hs => absurd trivial hs)
  | setId | setNote =>
    rw [changeQubit_eq_ok h]
    exact .qubit _ _ (fun q => Or.inl rfl) (fun _ q => rfl)
  | setTrend window weight => exact effect_setTrend h
  | setPanel members => exact effect_setPanel h
  | setThresholds t =>
    exact effect_changeSteering (f := fun st => { st with thresholds := t }) (fun st => rfl) h
  | reportQuality quality =>
    exact effect_changeSteering (f := fun st => st.reportQuality quality) (fun st => rfl) h
  | installSteering policy advise =>
    rw [← Except.ok.inj h]
    exact .equipment ⟨_, rfl⟩ _ _ _ _ _ _ fun hs => absurd trivial hs
  | resetSteering =>
    simp only [apply, Register.resetSteering] at h
    split at h
    · cases h
    · rw [← Except.ok.inj h]
      exact .equipment ⟨_, rfl⟩ _ _ _ _ _ _ fun hs => absurd trivial hs
  | setStrategy | setCustom | setEvaluator | setCombiner | setWaitsForAll | setDispatcher
  | setCriteria | setDataSize | clearTrend =>
    rw [← Except.ok.inj h]
    exact .equipment ⟨_, rfl⟩ _ _ _ _ _ _ fun _ => rfl

end Setting

variable [Inhabited α] [BEq α]

theorem Operation.effect_collapse {op : Operation α ω} (r : Register α ω) (w : ω) :
    op.Effect r w (r.collapse w).2.1 := by
  unfold Register.collapse
  cases hopen : r.collapsed with
  | true =>
    simp only [↓reduceIte]
    split <;> exact .idle
  | false =>
    simp only [Bool.false_eq_true, ↓reduceIte]
    split
    · exact .idle
    · unfold collapseResults
      simp only
      split
      · exact .idle
      · split
        · -- the strategy refuses: the output is made, but the mark stays as it was, which is unset
          have hsame : ∀ reduced, r.settle reduced =
              { r.settle reduced with collapsed := false } := by
            intro reduced
            rw [← hopen]
            rfl
          rw [hsame]
          exact .collapsed hopen _ _ false r.collapseTime
        · exact .collapsed hopen _ _ true _

/-- **What an operation can do to a register.** -/
theorem Operation.effect_perform (op : Operation α ω) (r : Register α ω) (w : ω) :
    op.Effect r w (op.perform r w).2.1 := by
  cases op with
  | set s =>
    cases hs : s.apply r with
    | error fault =>
      simp only [perform, hs]
      exact .idle
    | ok r' =>
      simp only [perform, hs]
      exact Setting.effect_apply hs
  | setData i data =>
    cases hs : r.setData i data with
    | none =>
      simp only [perform, hs]
      exact .idle
    | some r' =>
      simp only [perform, hs]
      rw [setData_eq_some hs]
      exact .qubit i _ (fun q => Or.inl rfl) (fun _ q => rfl)
  | launch l =>
    have hlaunched := l.launched_start r w
    have hstarts : (∀ fault, (l.start r w).1 ≠ .refused fault) →
        (Operation.launch l).StartsRun r w := id
    simp only [perform]
    generalize l.start r w = x at hlaunched hstarts
    cases hlaunched with
    | refused fault => exact .idle
    | ran order hready haccepted hend =>
      rw [hend]
      exact .ran order (hstarts haccepted) hready
  | collapse => exact effect_collapse r w
  | reset => exact .reset rfl
  | checkpoint => exact .checked rfl
  | outside f => exact .idle

/-! ## Histories -/

/-- Where operations lead that are done one after the other. -/
def performAll : List (Operation α ω) → Register α ω → ω → Register α ω × ω
  | [], r, w => (r, w)
  | op :: ops, r, w => performAll ops (op.perform r w).2.1 (op.perform r w).2.2

/-- Something holds of each of the operations in the state that it finds. -/
def Throughout (P : Operation α ω → Register α ω → ω → Prop) :
    List (Operation α ω) → Register α ω → ω → Prop
  | [], _, _ => True
  | op :: ops, r, w => P op r w ∧ Throughout P ops (op.perform r w).2.1 (op.perform r w).2.2

/-- What each single operation keeps, all of them keep. -/
theorem performAll_preserves {P : Operation α ω → Register α ω → ω → Prop}
    {Q : Register α ω → Prop} (hstep : ∀ op r w, P op r w → Q r → Q (op.perform r w).2.1) :
    ∀ {ops : List (Operation α ω)} {r : Register α ω} {w : ω}, Throughout P ops r w → Q r →
      Q (performAll ops r w).1 := by
  intro ops
  induction ops with
  | nil => intro r w _ h; exact h
  | cons op ops ih =>
    intro r w hops h
    exact ih hops.2 (hstep op r w hops.1 h)

theorem throughout_of_forall {P : Operation α ω → Prop} {ops : List (Operation α ω)}
    (h : ∀ op ∈ ops, P op) : ∀ (r : Register α ω) (w : ω),
      Throughout (fun op _ _ => P op) ops r w := by
  induction ops with
  | nil => intro r w; trivial
  | cons op ops ih =>
    intro r w
    exact ⟨h op List.mem_cons_self, ih (fun op' hop => h op' (List.mem_cons_of_mem op hop)) _ _⟩

end Operations

/-! ## Reachable registers -/

/-- A register as it is made. -/
def IsNew [Inhabited α] (r : Register α ω) : Prop :=
  ∃ threads capacity settings, ofSettings threads capacity settings = .ok r

theorem IsNew.eq [Inhabited α] {r : Register α ω} (h : IsNew r) :
    ∃ (ids : List UInt32) (strategy : Strategy) (waitsForAll : Bool) (dispatcher : Dispatcher),
      r = { qubits := ids.map Qubit.blank, strategy, waitsForAll, dispatcher } := by
  obtain ⟨threads, capacity, settings, h⟩ := h
  unfold ofSettings ofCapacity at h
  split at h
  · cases h
  · refine ⟨(List.range capacity).map UInt32.ofNat, settings.strategy, settings.waitsForAll,
      settings.dispatch.dispatcher threads settings.waveSize.toNat, ?_⟩
    rw [← Except.ok.inj h, List.map_map]
    rfl

/-- A register to which operations lead from a new one, in whatever worlds they are done. -/
inductive Reachable [Inhabited α] [BEq α] [Clocked ω] : Register α ω → Prop
  | new {r : Register α ω} (h : IsNew r) : Reachable r
  | perform {r : Register α ω} (h : Reachable r) (op : Operation α ω) (w : ω) :
      Reachable (op.perform r w).2.1

theorem Reachable.performAll [Inhabited α] [BEq α] [Clocked ω] :
    ∀ (ops : List (Operation α ω)) {r : Register α ω} (w : ω), Reachable r →
      Reachable (performAll ops r w).1 := by
  intro ops
  induction ops with
  | nil => exact fun _ h => h
  | cons op ops ih => exact fun w h => ih _ (h.perform op w)

end Register

end Superpose
