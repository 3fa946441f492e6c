import Superpose.Proofs.Run.Frame
import Superpose.Proofs.Run.Jobs
import Superpose.Proofs.Run.Order
import Superpose.Proofs.Run.Waves

/-!
# The course of a run

What becomes of the account when a dispatcher runs jobs that are still `Pending`. The account is
kept by the jobs of a wave in whatever order they are run (`exists_advanced_runJobs`), by a wave
(`exists_advanced_runWave`) and by all waves of a run (`exists_advanced_runWaves`), each by
induction on the one before. `Advanced` collects what is known afterwards: which jobs can have been
started, and that nothing was left out if no body broke off.

What bodies do to the world is left open. A `History` is a property of the starts so far and the
present world that jobs and readings of the clock keep, and the same induction carries it along.
-/

namespace Superpose

/-- Whether a dispatcher runs every job of every wave. -/
def Dispatcher.Complete (d : Dispatcher) : Prop :=
  ∀ wave jobs (i : Fin jobs), i ∈ d.order wave jobs

theorem Dispatcher.complete_inline : inline.Complete := fun _ _ i => List.mem_finRange i

theorem Dispatcher.complete_waves (size : Nat) (reverse : Bool) :
    (waves size reverse none).Complete := by
  intro _ jobs i
  show i ∈ directed reverse jobs
  unfold directed
  split
  · exact List.mem_reverse.mpr (List.mem_finRange i)
  · exact List.mem_finRange i

namespace Register

variable {α ω : Type}

/-! ## The jobs of a wave -/

theorem mem_of_mem_dispatched {d : Dispatcher} {number : Nat} {wave : List Nat} {i : Nat}
    (h : i ∈ dispatched d number wave) : i ∈ wave := by
  obtain ⟨k, -, rfl⟩ := List.mem_map.mp h
  exact List.get_mem wave k

theorem nodup_dispatched (d : Dispatcher) (number : Nat) {wave : List Nat} (h : wave.Nodup) :
    (dispatched d number wave).Nodup :=
  (d.order_nodup number wave.length).map (List.nodup_iff_injective_get.mp h)

theorem mem_dispatched {d : Dispatcher} (hd : d.Complete) (number : Nat) {wave : List Nat}
    {i : Nat} (h : i ∈ wave) : i ∈ dispatched d number wave := by
  obtain ⟨k, rfl⟩ := List.get_of_mem h
  exact List.mem_map_of_mem (hd number wave.length k)

/-! ## What is still to be run -/

/-- Distinct jobs among given qubits that were not started yet. -/
structure Pending (first : Scene α ω) (starts : List (Start ω)) (planned : List Nat) : Prop where
  nodup : planned.Nodup
  new : ∀ i ∈ planned, i ∉ starts.map Start.index
  lt : ∀ i ∈ planned, i < first.qubits.length

namespace Pending

variable {first : Scene α ω} {starts : List (Start ω)}

/-- Some of the jobs. -/
theorem subset {planned some : List Nat} (h : Pending first starts planned) (hsome : some.Nodup)
    (hsub : ∀ i ∈ some, i ∈ planned) : Pending first starts some where
  nodup := hsome
  new i hi := h.new i (hsub i hi)
  lt i hi := h.lt i (hsub i hi)

/-- The jobs that come first. -/
theorem left {now later : List Nat} (h : Pending first starts (now ++ later)) :
    Pending first starts now :=
  h.subset (List.nodup_append.mp h.nodup).1 fun _ hi => List.mem_append_left later hi

/-- What a dispatcher runs of a wave. -/
theorem dispatched {wave : List Nat} (h : Pending first starts wave) (d : Dispatcher)
    (number : Nat) : Pending first starts (dispatched d number wave) :=
  h.subset (nodup_dispatched d number h.nodup) fun _ hi => mem_of_mem_dispatched hi

/-- Starting jobs leaves the others pending. -/
theorem after {now later : List Nat} (h : Pending first starts (now ++ later))
    {more : List (Start ω)} (hmore : ∀ s ∈ more, s.index ∈ now) :
    Pending first (starts ++ more) later := by
  obtain ⟨-, hlater, hdisjoint⟩ := List.nodup_append.mp h.nodup
  refine ⟨hlater, fun i hi hstarted => ?_, fun i hi => h.lt i (List.mem_append_right now hi)⟩
  rw [List.map_append] at hstarted
  rcases List.mem_append.mp hstarted with hold | hnew
  · exact h.new i (List.mem_append_right now hi) hold
  · obtain ⟨s, hs, rfl⟩ := List.mem_map.mp hnew
    exact hdisjoint _ (hmore s hs) _ hi rfl

/-- The first job can be started, and leaves the others pending. -/
theorem cons {i : Nat} {is : List Nat} (h : Pending first starts (i :: is)) :
    ∃ q, first.qubits[i]? = some q ∧ i ∉ starts.map Start.index ∧
      ∀ w, Pending first (starts ++ [⟨i, w⟩]) is := by
  refine ⟨_, List.getElem?_eq_getElem (h.lt i List.mem_cons_self),
    h.new i List.mem_cons_self, fun w => ?_⟩
  exact Pending.after (show Pending first starts ([i] ++ is) from h) (by simp)

end Pending

/-! ## Running it -/

variable [Clocked ω]

/-- A property of the starts so far and the present world that no job and no reading of the clock
breaks. -/
structure History (qubits : List (Qubit α ω)) (H : List (Start ω) → ω → Prop) : Prop where
  job : ∀ {starts w i q}, qubits[i]? = some q → H starts w →
    H (starts ++ [⟨i, w⟩]) (q.run w).world
  read : ∀ {starts w}, H starts w → H starts (Clocked.read w).2

/-- Nothing is asked of the world. -/
theorem History.trivial (qubits : List (Qubit α ω)) : History qubits fun _ _ => True :=
  ⟨fun _ _ => True.intro, fun _ => True.intro⟩

/-- What is known after `planned` jobs were handed over: `more` of them were started, and unless a
body broke off, nothing broke and, where everything is to be run, all of them. -/
structure Advanced (first : Scene α ω) (H : List (Start ω) → ω → Prop) (starts : List (Start ω))
    (planned : List Nat) (whole : Prop) (now : Scene α ω) (broke : Bool)
    (more : List (Start ω)) : Prop where
  accounted : Accounted first (starts ++ more) now
  history : H (starts ++ more) now.world
  mem : ∀ s ∈ more, s.index ∈ planned
  calm : (∀ s ∈ more, endingOf first.qubits s ≠ some .panicked) →
    broke = false ∧ (whole → ∀ i ∈ planned, i ∈ more.map Start.index)

/-- If nothing was to be left out and nothing broke off, what was planned is what was started. -/
theorem Advanced.mem_map_index_iff {first now : Scene α ω} {H : List (Start ω) → ω → Prop}
    {planned : List Nat} {whole : Prop} {broke : Bool} {more : List (Start ω)}
    (h : Advanced first H [] planned whole now broke more) (hwhole : whole)
    (hcalm : ∀ s ∈ more, endingOf first.qubits s ≠ some .panicked) (i : Nat) :
    i ∈ more.map Start.index ↔ i ∈ planned := by
  constructor
  · intro hi
    obtain ⟨s, hs, rfl⟩ := List.mem_map.mp hi
    exact h.mem s hs
  · exact (h.calm hcalm).2 hwhole i

section Advance

variable {first : Scene α ω} {H : List (Start ω) → ω → Prop} (hist : History first.qubits H)

include hist in
/-- Jobs that are run one after the other keep the account. -/
theorem exists_advanced_runJobs (persistent : Bool) : ∀ {is : List Nat} {starts : List (Start ω)}
    {s : Scene α ω}, Pending first starts is → Accounted first starts s → H starts s.world →
      ∃ more, Advanced first H starts is True (runJobs persistent is s).2
        (runJobs persistent is s).1 more := by
  intro is
  induction is with
  | nil =>
    intro starts s _ hacc hH
    refine ⟨[], ?_, ?_, by simp, fun _ => ⟨rfl, by simp⟩⟩
    · rw [List.append_nil]
      exact hacc
    · rw [List.append_nil]
      exact hH
  | cons i is ih =>
    intro starts s hpend hacc hH
    obtain ⟨q, hq, hnew, hpend'⟩ := hpend.cons
    obtain ⟨hbroke, hworld, hacc'⟩ := hacc.job hq hnew
    have hH' : H (starts ++ [⟨i, s.world⟩]) (runJob i s).2.world := by
      rw [hworld]
      exact hist.job hq hH
    have hend : endingOf first.qubits ⟨i, s.world⟩ = some (q.run s.world).ending := by
      rw [endingOf, hq, Option.map_some]
    obtain ⟨more, hmore⟩ := ih (hpend' s.world) hacc' hH'
    have hassoc : starts ++ [⟨i, s.world⟩] ++ more = starts ++ (⟨i, s.world⟩ :: more) := by simp
    have hplanned : ∀ t ∈ (⟨i, s.world⟩ :: more : List (Start ω)), t.index ∈ i :: is := by
      intro t ht
      rcases List.mem_cons.mp ht with rfl | ht
      · exact List.mem_cons_self
      · exact List.mem_cons_of_mem i (hmore.mem t ht)
    rw [runJobs]
    by_cases hp : (q.run s.world).ending = .panicked
    · -- a body broke off: whether the others are run or not, the run was not calm
      rw [hbroke, hp, if_pos (by rfl)]
      have hloud : ∀ {more' : List (Start ω)}, ⟨i, s.world⟩ ∈ more' →
          ¬ ∀ t ∈ more', endingOf first.qubits t ≠ some .panicked := by
        intro more' hmem hcalm
        exact hcalm _ hmem (by rw [hend, hp])
      cases persistent with
      | true =>
        refine ⟨⟨i, s.world⟩ :: more, ?_, ?_, hplanned, ?_⟩
        · rw [← hassoc]
          exact hmore.accounted
        · rw [← hassoc]
          exact hmore.history
        · exact fun hcalm => absurd hcalm (hloud List.mem_cons_self)
      | false =>
        refine ⟨[⟨i, s.world⟩], hacc', hH', by simp, ?_⟩
        exact fun hcalm => absurd hcalm (hloud List.mem_cons_self)
    · rw [hbroke, if_neg (by simpa using hp)]
      refine ⟨⟨i, s.world⟩ :: more, ?_, ?_, hplanned, fun hcalm => ?_⟩
      · rw [← hassoc]
        exact hmore.accounted
      · rw [← hassoc]
        exact hmore.history
      · obtain ⟨hfalse, hall⟩ := hmore.calm fun t ht => hcalm t (List.mem_cons_of_mem _ ht)
        refine ⟨hfalse, fun _ j hj => ?_⟩
        rw [List.map_cons]
        rcases List.mem_cons.mp hj with rfl | hj
        · exact List.mem_cons_self
        · exact List.mem_cons_of_mem i (hall trivial j hj)

/-- The part of a register that jobs change, with the world. -/
def scene (r : Register α ω) (w : ω) : Scene α ω := ⟨r.qubits, r.progress, w⟩

/-- The part of a site that jobs change. -/
def Site.scene (site : Site α ω) : Scene α ω := site.register.scene site.world

include hist in
/-- A wave keeps the account. -/
theorem exists_advanced_runWave {r : Register α ω} {w : ω} (number : Nat) {wave : List Nat}
    {starts : List (Start ω)} (hpend : Pending first starts wave)
    (hacc : Accounted first starts (r.scene w)) (hH : H starts w) :
    ∃ more, Advanced first H starts wave r.dispatcher.Complete (r.runWave w number wave).scene
      (r.runWave w number wave).panicked more := by
  obtain ⟨more, hmore⟩ := exists_advanced_runJobs hist r.dispatcher.persistent
    (hpend.dispatched r.dispatcher number) hacc hH
  refine ⟨more, hmore.accounted, hmore.history, fun s hs => ?_, fun hcalm => ?_⟩
  · exact mem_of_mem_dispatched (hmore.mem s hs)
  · obtain ⟨hfalse, hall⟩ := hmore.calm hcalm
    refine ⟨?_, fun hd i hi => hall trivial i (mem_dispatched hd number hi)⟩
    exact Bool.and_eq_false_imp.mpr fun htrue => absurd (hfalse.symm.trans htrue) (by decide)

include hist in
/-- A checkpoint keeps the account: it reads the clock at most. -/
theorem advanced_checkpoint {r : Register α ω} {w : ω} {starts : List (Start ω)}
    (hacc : Accounted first starts (r.scene w)) (hH : H starts w) :
    Accounted first starts ((r.checkpoint w).2.1.scene (r.checkpoint w).2.2) ∧
      H starts (r.checkpoint w).2.2 := by
  constructor
  · have hprogress := r.checkpoint_progress w
    exact hacc.congr (r.checkpoint_qubits w) (congrArg Progress.completed hprogress)
      (congrArg Progress.failed hprogress)
  · rcases r.checkpoint_world w with h | h
    · rw [h]
      exact hH
    · rw [h]
      exact hist.read hH

include hist in
/-- **The waves of a run keep the account.** -/
theorem exists_advanced_runWaves : ∀ {waves : List (List Nat)} (number : Nat) {r : Register α ω}
    {w : ω} {starts : List (Start ω)}, Pending first starts waves.flatten →
      Accounted first starts (r.scene w) → H starts w →
      ∃ more, Advanced first H starts waves.flatten r.dispatcher.Complete
        (runWaves number waves r w).scene (runWaves number waves r w).panicked more := by
  intro waves
  induction waves with
  | nil =>
    intro number r w starts _ hacc hH
    refine ⟨[], ?_, ?_, by simp, fun _ => ⟨rfl, by simp⟩⟩
    · rw [List.append_nil]
      exact hacc
    · rw [List.append_nil]
      exact hH
  | cons wave waves ih =>
    intro number r w starts hpend hacc hH
    rw [List.flatten_cons] at hpend
    obtain ⟨some, hsome⟩ := exists_advanced_runWave hist number hpend.left hacc hH
    rw [runWaves]
    simp only
    by_cases hp : (r.runWave w number wave).panicked = true
    · rw [if_pos hp]
      refine ⟨some, hsome.accounted, hsome.history, fun s hs => ?_, fun hcalm => ?_⟩
      · exact List.mem_append_left _ (hsome.mem s hs)
      · rw [(hsome.calm hcalm).1] at hp
        cases hp
    · rw [if_neg hp]
      obtain ⟨hacc', hH'⟩ := advanced_checkpoint hist hsome.accounted hsome.history
      obtain ⟨more, hmore⟩ := ih (number + 1) (hpend.after hsome.mem) hacc' hH'
      refine ⟨some ++ more, ?_, ?_, fun s hs => ?_, fun hcalm => ?_⟩
      · rw [← List.append_assoc]
        exact hmore.accounted
      · rw [← List.append_assoc]
        exact hmore.history
      · rw [List.flatten_cons]
        rcases List.mem_append.mp hs with hs | hs
        · exact List.mem_append_left _ (hsome.mem s hs)
        · exact List.mem_append_right _ (hmore.mem s hs)
      · obtain ⟨-, hall⟩ := hsome.calm fun s hs => hcalm s (List.mem_append_left more hs)
        obtain ⟨hfalse, hall'⟩ := hmore.calm fun s hs => hcalm s (List.mem_append_right some hs)
        refine ⟨hfalse, fun hd i hi => ?_⟩
        rw [List.map_append]
        rcases List.mem_append.mp hi with hi | hi
        · exact List.mem_append_left _ (hall hd i hi)
        · rw [checkpoint_dispatcher] at hall'
          exact List.mem_append_right _ (hall' hd i hi)

end Advance

/-! ## Whole runs -/

omit [Clocked ω] in
/-- A register is ready to run when it is not running and has all that its strategy depends on. -/
theorem obstacle_eq_none_iff {r : Register α ω} :
    r.obstacle = none ↔ r.progress.executing = false ∧ r.supports r.strategy = true := by
  unfold obstacle supports Toolkit.supports
  cases r.progress.executing with
  | true => simp
  | false => simp

omit [Clocked ω] in
theorem flatten_waves (r : Register α ω) (order : List Nat) :
    (r.waves order).flatten = order.filter r.isEnabled :=
  Run.flatten_chunks (by omega) _

omit [Clocked ω] in
theorem waves_eq_nil_iff (r : Register α ω) (order : List Nat) :
    r.waves order = [] ↔ order.filter r.isEnabled = [] :=
  Run.chunks_eq_nil_iff (by omega) _

omit [Clocked ω] in
theorem getElem?_begin (r : Register α ω) (now : UInt64) (i : Nat) :
    (r.begin now).qubits[i]? = (r.qubits[i]?).map Qubit.skipIfDisabled :=
  List.getElem?_map ..

/-- Where the waves of a run lead. -/
def course (r : Register α ω) (w : ω) (order : List Nat) : Site α ω :=
  runWaves 0 (r.waves order) (r.begin (Clocked.read w).1) (Clocked.read w).2

/-- A register that is ready runs its waves and, unless they break off, ends the run. -/
theorem runInOrder_of_ready {r : Register α ω} (h : r.obstacle = none) (w : ω)
    (order : List Nat) :
    r.runInOrder w order =
      if (r.course w order).panicked then
        (.panicked, (r.course w order).register, (r.course w order).world)
      else
        (.finished !(r.waves order).isEmpty,
          (r.course w order).register.finish
            (elapsed (Clocked.read w).1 (Clocked.read (r.course w order).world).1),
          (Clocked.read (r.course w order).world).2) := by
  rw [runInOrder, h]
  rfl

/-- An accepted order is completed and run. -/
theorem executeOrdered_of_isOrder {r : Register α ω} {order : List Nat}
    (h : IsOrder r.count order) (w : ω) :
    r.executeOrdered w order = r.runInOrder w (completeOrder r.count order) := by
  rw [executeOrdered, orderFault_nil_eq_none_iff.mpr h]

/-- The run by index is the one in the order that lists nothing. -/
theorem execute_eq_executeOrdered_nil (r : Register α ω) (w : ω) :
    r.execute w = r.executeOrdered w [] := by
  rw [executeOrdered_of_isOrder ⟨List.nodup_nil, by simp⟩, completeOrder_nil, execute]

/-- A run that is not broken off ends, and tells whether there was anything to run. -/
theorem outcome_eq_finished {r : Register α ω} {w : ω} {order : List Nat}
    (hready : r.obstacle = none) (horder : IsOrder r.count order)
    (hcalm : (r.executeOrdered w order).1 ≠ .panicked) :
    (r.executeOrdered w order).1 = .finished (decide (0 < r.enabledCount)) := by
  have hempty : (r.waves (completeOrder r.count order)).isEmpty =
      !decide (0 < r.enabledCount) := by
    rw [Bool.eq_iff_iff, List.isEmpty_iff, waves_eq_nil_iff, ← List.length_eq_zero_iff,
      length_filter_completeOrder horder]
    simp
  rw [executeOrdered_of_isOrder horder, runInOrder_of_ready hready] at hcalm ⊢
  split
  · rename_i hp
    rw [if_pos hp] at hcalm
    exact absurd rfl hcalm
  · rw [hempty, Bool.not_not]

/-- The scene in which the first wave of a run finds the register. -/
def opening (r : Register α ω) (w : ω) : Scene α ω :=
  (r.begin (Clocked.read w).1).scene (Clocked.read w).2

/-- Where the waves lead, the account is kept. -/
theorem exists_advanced_course (r : Register α ω) (w : ω) {order : List Nat}
    (horder : IsOrder r.count order) {H : List (Start ω) → ω → Prop}
    (hist : History (r.opening w).qubits H) (hH : H [] (Clocked.read w).2) :
    ∃ starts, Advanced (r.opening w) H [] (order.filter r.isEnabled) r.dispatcher.Complete
      (r.course w order).scene (r.course w order).panicked starts := by
  rw [← flatten_waves]
  refine exists_advanced_runWaves hist 0 ⟨?_, by simp, ?_⟩ (Accounted.refl _) hH
  · rw [flatten_waves]
    exact horder.nodup.filter _
  · rw [flatten_waves]
    intro i hi
    have hlt : i < r.qubits.length := horder.lt i (List.mem_filter.mp hi).1
    simpa [opening, scene, begin] using hlt

/-- **The account of a whole run**: it starts qubits that take part in it, each at most once. -/
theorem exists_advanced_runInOrder {r : Register α ω} (hready : r.obstacle = none) (w : ω)
    {order : List Nat} (horder : IsOrder r.count order) {H : List (Start ω) → ω → Prop}
    (hist : History (r.opening w).qubits H) (hH : H [] (Clocked.read w).2) :
    ∃ starts, Advanced (r.opening w) H [] (order.filter r.isEnabled) r.dispatcher.Complete
      ((r.runInOrder w order).2.1.scene (r.runInOrder w order).2.2)
      (decide ((r.runInOrder w order).1 = .panicked)) starts := by
  obtain ⟨starts, h⟩ := exists_advanced_course r w horder hist hH
  refine ⟨starts, ?_⟩
  rw [runInOrder_of_ready hready]
  cases hp : (r.course w order).panicked with
  | true =>
    refine ⟨h.accounted, h.history, h.mem, fun hcalm => ?_⟩
    rw [(h.calm hcalm).1] at hp
    cases hp
  | false =>
    -- the end of the run is noted, and the clock is read for it
    refine ⟨h.accounted.congr rfl rfl rfl, hist.read h.history, h.mem, fun hcalm => ?_⟩
    exact ⟨rfl, (h.calm hcalm).2⟩

theorem exists_advanced_executeOrdered {r : Register α ω} (hready : r.obstacle = none) (w : ω)
    {order : List Nat} (horder : IsOrder r.count order) {H : List (Start ω) → ω → Prop}
    (hist : History (r.opening w).qubits H) (hH : H [] (Clocked.read w).2) :
    ∃ starts, Advanced (r.opening w) H [] ((completeOrder r.count order).filter r.isEnabled)
      r.dispatcher.Complete ((r.executeOrdered w order).2.1.scene (r.executeOrdered w order).2.2)
      (decide ((r.executeOrdered w order).1 = .panicked)) starts := by
  rw [executeOrdered_of_isOrder horder]
  exact exists_advanced_runInOrder hready w (isOrder_completeOrder horder) hist hH

end Register

end Superpose
