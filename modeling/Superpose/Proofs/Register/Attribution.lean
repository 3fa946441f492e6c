import Superpose.Proofs.Choice.Blend
import Superpose.Proofs.Register.LatestRun
import Superpose.Proofs.Register.TrendHistory

/-!
# Whose score a result is compared with

The history of scores is kept by place in the list of results, and this list has no gaps for qubits
that have not completed. A ghost beside the register, the `Sheet`s of all that was recorded, tells
whose scores they were. From it one reads that a score is compared with the last one recorded at the
same place, whoever stood there. That is the last one of the same qubit as long as the qubit keeps
its place (`compared_by_place`), but not otherwise (`compared_with_another`).
-/

namespace Superpose

namespace Choice

/-! ## What a score is compared with -/

/-- The score that was recorded last at a place. -/
def Scoring.lastAt (place : Nat) (past : List Scoring) : Option Int32 :=
  past.findSome? fun s => s.scores[place]?

theorem Scoring.lt_reach_iff (window place : Nat) (past : List Scoring) :
    place < Scoring.reach window past ↔
      place < window ∧ (Scoring.lastAt place past).isSome = true := by
  induction past with
  | nil => exact ⟨nofun, nofun⟩
  | cons s past ih =>
    rw [reach, lastAt, List.findSome?_cons]
    cases hs : s.scores[place]? with
    | none =>
      have hge := List.getElem?_eq_none_iff.mp hs
      refine Iff.trans ?_ ih
      omega
    | some score =>
      obtain ⟨hlt, -⟩ := List.getElem?_eq_some_iff.mp hs
      have hwindow : place < reach window past → place < window := fun h => (ih.mp h).1
      rw [Option.isSome_some, and_iff_left rfl]
      omega

theorem Scoring.latest_fst_of_lastAt {place : Nat} {past : List Scoring} {score : Int32}
    (h : Scoring.lastAt place past = some score) : (Scoring.latest place past).1 = score := by
  induction past with
  | nil => cases h
  | cons s past ih =>
    rw [lastAt, List.findSome?_cons] at h
    rw [latest]
    cases hs : s.scores[place]? with
    | none =>
      rw [hs] at h
      exact ih h
    | some score' =>
      rw [hs] at h
      exact Option.some.inj h

/-- **A score is compared with the last one at its place**, within the window. -/
theorem Trend.Recalls.past_eq {t : Trend} {past : List Scoring} (h : t.Recalls past) (place : Nat) :
    t.past place = if place < t.window then Scoring.lastAt place past else none := by
  have hreach := Scoring.lt_reach_iff t.window place past
  rw [← h.recorded] at hreach
  unfold Trend.past
  by_cases hwindow : place < t.window
  · -- what has been reached holds the latest score, and what has not is not looked at
    rw [if_pos hwindow]
    cases hlast : Scoring.lastAt place past with
    | none =>
      rw [hlast] at hreach
      exact if_neg fun hrecorded => Bool.false_ne_true (hreach.mp hrecorded).2
    | some score =>
      rw [hlast] at hreach
      rw [if_pos (hreach.mpr ⟨hwindow, rfl⟩), h.score place hwindow,
        Scoring.latest_fst_of_lastAt hlast]
  · rw [if_neg hwindow]
    exact if_neg fun hrecorded => hwindow (hreach.mp hrecorded).1

/-! ## Sheets -/

/-- The scores of one choice, each with the index of its qubit. -/
structure Sheet where
  entries : List (Nat × Int32)
  time : UInt64
  deriving DecidableEq

/-- What a history takes of a sheet. -/
def Sheet.scoring (s : Sheet) : Scoring := ⟨s.entries.map Prod.snd, s.time⟩

/-- The entry at a place in the latest sheet that has one there. -/
def Sheet.lastAt (place : Nat) (sheets : List Sheet) : Option (Nat × Int32) :=
  sheets.findSome? fun s => s.entries[place]?

/-- The score of a qubit in the latest sheet that has one of it. -/
def Sheet.lastOf (i : Nat) (sheets : List Sheet) : Option Int32 :=
  sheets.findSome? fun s => s.entries.lookup i

/-- A qubit stands at one place in all sheets in which it stands at all, and nobody else there. -/
def Sheet.KeepsPlace (i place : Nat) (sheets : List Sheet) : Prop :=
  ∀ s ∈ sheets, ∀ k e, s.entries[k]? = some e → (k = place ↔ e.1 = i)

theorem Sheet.lastAt_scoring (place : Nat) (sheets : List Sheet) :
    Scoring.lastAt place (sheets.map scoring) = (lastAt place sheets).map Prod.snd := by
  rw [Scoring.lastAt, List.findSome?_map, lastAt, List.map_findSome?]
  refine congrArg (sheets.findSome? ·) (funext fun s => ?_)
  exact List.getElem?_map ..

/-- Where only one entry is of a qubit, it is found by its place. -/
theorem lookup_eq_getElem? {i : Nat} : ∀ {entries : List (Nat × Int32)} {place : Nat},
    (∀ k e, entries[k]? = some e → (k = place ↔ e.1 = i)) →
      entries.lookup i = entries[place]?.map Prod.snd := by
  intro entries
  induction entries with
  | nil => exact fun _ => rfl
  | cons e entries ih =>
    intro place h
    have hhead := h 0 e rfl
    rw [List.lookup_cons]
    cases place with
    | zero =>
      rw [← hhead.mp rfl, beq_self_eq_true]
      rfl
    | succ place =>
      have hne : e.1 ≠ i := fun he => nomatch hhead.mpr he
      have hbeq : (i == e.1) = false := beq_false_of_ne hne.symm
      rw [hbeq]
      exact ih fun k e he => Nat.succ_inj.symm.trans (h (k + 1) e he)

theorem Sheet.KeepsPlace.lastOf_eq {i place : Nat} {sheets : List Sheet}
    (h : KeepsPlace i place sheets) : lastOf i sheets = (lastAt place sheets).map Prod.snd := by
  rw [lastOf, lastAt, List.map_findSome?]
  induction sheets with
  | nil => rfl
  | cons s sheets ih =>
    have hs := lookup_eq_getElem? (h s List.mem_cons_self)
    rw [List.findSome?_cons, List.findSome?_cons, Function.comp_apply, ← hs]
    split
    · rfl
    · exact ih fun s' hs' => h s' (List.mem_cons_of_mem s hs')

end Choice

namespace Register

open Choice

variable {α ω : Type}

/-! ## Places -/

/-- The qubits that are completed, by index. -/
def completed (r : Register α ω) : List Nat :=
  (List.range r.count).filter fun i => (r.result? i).isSome

theorem map_result?_completed (r : Register α ω) :
    r.completed.map r.result? = r.results.map some := by
  rw [results_eq_filterMap, completed]
  induction List.range r.count with
  | nil => rfl
  | cons i is ih =>
    cases h : r.result? i with
    | none =>
      rw [List.filter_cons_of_neg (by rw [h]; exact Bool.false_ne_true),
        List.filterMap_cons_none h]
      exact ih
    | some a =>
      rw [List.filter_cons_of_pos (by rw [h]; rfl), List.filterMap_cons_some h, List.map_cons,
        List.map_cons, ih, h]

theorem length_completed (r : Register α ω) : r.completed.length = r.results.length := by
  have h := congrArg List.length r.map_result?_completed
  rwa [List.length_map, List.length_map] at h

/-- The result at a place is that of the qubit at this place. -/
theorem getElem?_results_eq_some (r : Register α ω) {place : Nat} {a : α} :
    r.results[place]? = some a ↔
      ∃ i, r.completed[place]? = some i ∧ r.result? i = some a := by
  have h := congrArg (fun l => l[place]?) r.map_result?_completed
  simp only [List.getElem?_map] at h
  constructor
  · intro ha
    rw [ha, Option.map_some, Option.map_eq_some_iff] at h
    exact h
  · rintro ⟨i, hi, ha⟩
    rw [hi, Option.map_some, ha] at h
    obtain ⟨a', ha', hsame⟩ := Option.map_eq_some_iff.mp h.symm
    rw [ha', Option.some.inj hsame]

/-! ## The choice of a temporal collapse -/

variable [Inhabited α] [BEq α] [Clocked ω]

theorem collapse_of_temporal {r : Register α ω} {w : ω} {score : α → Int32} {t : Trend} {value : α}
    (hopen : r.collapsed = false) (hstrategy : r.strategy = .temporal)
    (hscore : r.toolkit.evaluator = some score) (ht : r.toolkit.trend = some t)
    (h : (r.collapse w).1 = .ok value) :
    r.results ≠ [] ∧ r.results[t.choose (r.results.map score)]? = some value := by
  obtain ⟨hmissing, hsome, -⟩ := collapse_of_ok hopen h
  have hne : r.results ≠ [] := List.isEmpty_eq_false_iff.mp hsome
  have hscores : r.results.map score ≠ [] := mt List.map_eq_nil_iff.mp hne
  have hlt := t.choose_lt hscores
  rw [List.length_map] at hlt
  rw [collapse_fst_of_open hopen, hmissing, hstrategy] at h
  simp only [reduce, ruling, hsome, hscore, ht, Bool.false_eq_true, ↓reduceIte, Except.ok.injEq,
    List.getElem?_eq_getElem hlt, Option.getD_some] at h
  exact ⟨hne, List.getElem?_eq_some_iff.mpr ⟨hlt, h⟩⟩

/-! ## The ghost -/

/-- What an operation records in the history of scores, with the qubits whose scores they are. -/
def Operation.sheet? (op : Operation α ω) (r : Register α ω) (w : ω) : Option Sheet :=
  (op.scoring? r w).map fun s => ⟨r.completed.zip s.scores, s.time⟩

/-- All sheets since the history was begun anew, the latest one first, after an operation. -/
def Operation.file (op : Operation α ω) (r : Register α ω) (w : ω) (sheets : List Sheet) :
    List Sheet :=
  if op.renewsTrend r then [] else (op.sheet? r w).toList ++ sheets

/-- All sheets since the history was begun anew, after operations one after the other. -/
def filed : List (Operation α ω) → Register α ω → ω → List Sheet → List Sheet
  | [], _, _, sheets => sheets
  | op :: ops, r, w, sheets =>
    filed ops (op.perform r w).2.1 (op.perform r w).2.2 (op.file r w sheets)

theorem length_scores_of_scoring? {r : Register α ω} {w : ω} {s : Scoring}
    (h : r.scoring? w = some s) : s.scores.length = r.results.length := by
  unfold scoring? at h
  split at h
  · rw [← Option.some.inj h]
    exact List.length_map _
  · cases h

theorem Operation.map_scoring_sheet? (op : Operation α ω) (r : Register α ω) (w : ω) :
    (op.sheet? r w).map Sheet.scoring = op.scoring? r w := by
  rw [sheet?, Option.map_map]
  cases hs : op.scoring? r w with
  | none => rfl
  | some s =>
    -- only a collapse records, and it has a score for everyone who is completed
    obtain ⟨rfl, -⟩ := Operation.of_scoring? hs
    have hlength : s.scores.length ≤ r.completed.length :=
      Nat.le_of_eq ((length_scores_of_scoring? hs).trans r.length_completed.symm)
    show some (Scoring.mk ((r.completed.zip s.scores).map Prod.snd) s.time) = some s
    rw [List.map_snd_zip hlength]

theorem Operation.map_scoring_file (op : Operation α ω) (r : Register α ω) (w : ω)
    (sheets : List Sheet) :
    (op.file r w sheets).map Sheet.scoring = op.remember r w (sheets.map Sheet.scoring) := by
  unfold file remember
  split
  · rfl
  · rw [List.map_append, ← Option.toList_map, op.map_scoring_sheet?]

/-- **The sheets are what was remembered.** -/
theorem map_scoring_filed : ∀ (ops : List (Operation α ω)) (r : Register α ω) (w : ω)
    (sheets : List Sheet),
    (filed ops r w sheets).map Sheet.scoring = remembered ops r w (sheets.map Sheet.scoring) := by
  intro ops
  induction ops with
  | nil => exact fun _ _ _ => rfl
  | cons op ops ih =>
    intro r w sheets
    rw [filed, remembered, ih, op.map_scoring_file]

/-- **Scores are compared by place.** A temporal collapse that comes to a new value answers the
result of the completed qubit whose score blends to most, the first of several. Each score is
blended with what the history has at the place of the qubit among the completed ones. After any
operations on a new register this is the score that stood last at the same place among those
recorded since the history was begun anew, whoever stood there, and none beyond the window or if
there is none. For a qubit that has kept its place in all that was recorded it is the last score of
that qubit. -/
theorem compared_by_place :
    (∀ (r : Register α ω) (w : ω) (score : α → Int32) (t : Trend) (value : α),
      r.collapsed = false → r.strategy = .temporal → r.toolkit.evaluator = some score →
      r.toolkit.trend = some t → (r.collapse w).1 = .ok value →
        ∃ place i, r.completed[place]? = some i ∧ r.result? i = some value ∧
          ∀ place' i' value', r.completed[place']? = some i' → r.result? i' = some value' →
            blended t.weight (t.past place') (score value') ≤
              blended t.weight (t.past place) (score value) ∧
            (place' < place →
              blended t.weight (t.past place') (score value') <
                blended t.weight (t.past place) (score value))) ∧
    ∀ (r : Register α ω) (w : ω) (ops : List (Operation α ω)), IsNew r →
      ∀ t ∈ (performAll ops r w).1.toolkit.trend, ∀ place,
        t.past place =
          (if place < t.window then (Sheet.lastAt place (filed ops r w [])).map Prod.snd
          else none) ∧
        ∀ i, Sheet.KeepsPlace i place (filed ops r w []) →
          t.past place =
            if place < t.window then Sheet.lastOf i (filed ops r w []) else none := by
  refine ⟨fun r w score t value hopen hstrategy hscore ht h => ?_,
    fun r w ops hnew t ht place => ?_⟩
  · obtain ⟨hne, hvalue⟩ := collapse_of_temporal hopen hstrategy hscore ht h
    have hscores : r.results.map score ≠ [] := mt List.map_eq_nil_iff.mp hne
    obtain ⟨top, htop, hmost⟩ := t.exists_score_choose hscores
    rw [List.getElem?_map, hvalue, Option.map_some, Option.some.injEq] at htop
    obtain ⟨i, hi, hresult⟩ := r.getElem?_results_eq_some.mp hvalue
    refine ⟨_, i, hi, hresult, fun place' i' value' hi' hresult' => ?_⟩
    have hvalue' := r.getElem?_results_eq_some.mpr ⟨i', hi', hresult'⟩
    rw [← t.blend_eq_blended, ← t.blend_eq_blended, htop]
    exact hmost place' (score value') (by rw [List.getElem?_map, hvalue', Option.map_some])
  · obtain ⟨-, hrecalls⟩ := hnew.recalled w ops ht
    -- the history recalls what was remembered, and the sheets tell whose that was
    have hsheets := map_scoring_filed ops r w []
    rw [List.map_nil] at hsheets
    have hpast := hrecalls.past_eq place
    rw [← hsheets, Sheet.lastAt_scoring] at hpast
    refine ⟨hpast, fun i hkeeps => ?_⟩
    rw [hpast, hkeeps.lastOf_eq]

section Samples

open Workbench

/-- Three qubits that have nothing to do yet. -/
def blankTrio : Register Val World := { qubits := [.blank 0, .blank 1, .blank 2] }

/-- The settings for choices of greatest magnitude with regard to the trend. -/
def trendSettings : List (Operation Val World) :=
  [.set (.setEvaluator fun v => Int32.ofInt v.magnitude), .set (.setTrend 4 50),
    .set (.setStrategy .temporal)]

/-- Two runs, the first with a collapse. In the second run one qubit is switched off and the other
two make what is given. -/
def withoutOne (off left right : Nat) (first second : Int) : List (Operation Val World) :=
  trendSettings ++
    [assign 0 [.set (.ofInt 100)], assign 1 [.set (.ofInt 10)], assign 2 [.set (.ofInt 50)],
      .launch .execute, .collapse, .set (.setEnabled off false),
      assign left [.set (.ofInt first)], assign right [.set (.ofInt second)], .launch .execute]

/-- The last qubit drops out, so the other two keep their places. -/
def lastOut : List (Operation Val World) := withoutOne 2 0 1 90 62

/-- The first qubit drops out, so the other two move up. -/
def firstOut : List (Operation Val World) := withoutOne 0 1 2 60 55

/-- What both have recorded before their last run. -/
def firstSheet : Sheet := ⟨[(0, 100), (1, 10), (2, 50)], 0⟩

def recordedTrend : Trend := ⟨[100, 10, 50, 0], [0, 0, 0, 0], 3, 4, 50⟩

/-- The score of the second qubit has risen so much since its last one that it outranks a greater
score. -/
theorem compared_by_place_lastOut :
    let r := (performAll lastOut blankTrio {}).1
    (r.collapse ({} : World)).1 = .ok (.int 62) ∧
      (∃ place i : Nat, r.completed[place]? = some i ∧ r.result? i = some (.int 62)) ∧
      Sheet.KeepsPlace 1 1 (filed lastOut blankTrio {} []) ∧
      recordedTrend.past 1 = if 1 < recordedTrend.window then
        Sheet.lastOf 1 (filed lastOut blankTrio {} []) else none := by
  intro r
  have htrend : r.toolkit.trend = some recordedTrend := rfl
  have hfiled : filed lastOut blankTrio {} [] = [firstSheet] := rfl
  have hkeeps : Sheet.KeepsPlace 1 1 (filed lastOut blankTrio {} []) := by
    intro s hs k e he
    rw [hfiled, List.mem_singleton] at hs
    subst hs
    match k, he with
    | 0, rfl | 1, rfl | 2, rfl => decide
  have hvalue : (r.collapse ({} : World)).1 = .ok (.int 62) := rfl
  obtain ⟨place, i, hi, hresult, -⟩ :=
    compared_by_place.1 r {} _ recordedTrend _ rfl rfl rfl htrend hvalue
  exact ⟨hvalue, ⟨place, i, hi, hresult⟩, hkeeps,
    (compared_by_place.2 blankTrio {} lastOut ⟨1, 3, {}, rfl⟩ _ htrend 1).2 1 hkeeps⟩

/-- **A score can be compared with that of another qubit**: after the first qubit has dropped out,
60 of the second is compared with 100 of the first, and 55 of the third with 10 of the second, and
is chosen. It would not have been if each were compared with its own last score. -/
theorem compared_with_another :
    let r := (performAll firstOut blankTrio {}).1
    let sheets := filed firstOut blankTrio {} []
    IsNew blankTrio ∧ r.toolkit.trend = some recordedTrend ∧ sheets = [firstSheet] ∧
      r.completed = [1, 2] ∧ r.results = [.int 60, .int 55] ∧
      (recordedTrend.past 0 = some 100 ∧ Sheet.lastOf 1 sheets = some 10) ∧
      (recordedTrend.past 1 = some 10 ∧ Sheet.lastOf 2 sheets = some 50) ∧
      (r.collapse ({} : World)).1 = .ok (.int 55) ∧
      blended recordedTrend.weight (Sheet.lastOf 2 sheets) 55 <
        blended recordedTrend.weight (Sheet.lastOf 1 sheets) 60 :=
  ⟨⟨1, 3, {}, rfl⟩, rfl, rfl, rfl, rfl, ⟨rfl, rfl⟩, ⟨rfl, rfl⟩, rfl, by decide +kernel⟩

end Samples

end Register

end Superpose
