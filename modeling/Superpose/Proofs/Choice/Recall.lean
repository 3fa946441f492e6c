import Superpose.Choice.Trend

/-!
# What a history of scores holds

A history keeps no more than its window, and overwrites its first slots with each record, so a slot
holds what the latest record that was long enough wrote there (`Trend.Recalls`). `Trend.Sound` are
the histories whose lists fit their window and whose weight is a percentage; both are kept by all
that is done to a history.
-/

namespace Superpose.Choice

/-- The scores of the results of one choice, and the time of that choice. -/
structure Scoring where
  scores : List Int32
  time : UInt64
  deriving DecidableEq

/-- The score at a position and the time of the first scoring that has one there; 0 and 0 if there
is none. -/
def Scoring.latest (i : Nat) : List Scoring → Int32 × UInt64
  | [] => (0, 0)
  | s :: past =>
    match s.scores[i]? with
    | some score => (score, s.time)
    | none => latest i past

/-- The greatest number of scores that a window takes of one of some scorings. -/
def Scoring.reach (window : Nat) : List Scoring → Nat
  | [] => 0
  | s :: past => max (reach window past) (min s.scores.length window)

namespace Trend

/-- A window and a weight that make sense. -/
structure Fit (window : Nat) (weight : Int32) : Prop where
  window_pos : 0 < window
  weight_nonneg : 0 ≤ weight
  weight_le : weight ≤ 100

/-- A history that fits its window. -/
structure Sound (t : Trend) : Prop where
  fit : Fit t.window t.weight
  scores : t.scores.length = t.window
  times : t.times.length = t.window
  recorded : t.recorded ≤ t.window

/-- A history that holds what the given scorings, the latest one first, have written. -/
structure Recalls (t : Trend) (past : List Scoring) : Prop where
  score : ∀ i < t.window, t.scores[i]? = some (Scoring.latest i past).1
  time : ∀ i < t.window, t.times[i]? = some (Scoring.latest i past).2
  recorded : t.recorded = Scoring.reach t.window past

/-! ## A new history -/

theorem sound_ofWindow {window : Nat} {weight : Int32} (h : Fit window weight) :
    (ofWindow window weight).Sound where
  fit := h
  scores := List.length_replicate
  times := List.length_replicate
  recorded := Nat.zero_le window

theorem recalls_ofWindow (window : Nat) (weight : Int32) : (ofWindow window weight).Recalls [] where
  score _ hi := List.getElem?_replicate_of_lt hi
  time _ hi := List.getElem?_replicate_of_lt hi
  recorded := rfl

/-! ## Changes -/

variable {t : Trend} {past : List Scoring}

theorem Sound.withWeight (h : t.Sound) {weight : Int32} (hfit : Fit t.window weight) :
    { t with weight }.Sound := ⟨hfit, h.scores, h.times, h.recorded⟩

/-- The weight is no matter of what was recorded. -/
theorem Recalls.withWeight (h : t.Recalls past) (weight : Int32) :
    { t with weight }.Recalls past := ⟨h.score, h.time, h.recorded⟩

theorem Sound.clear (h : t.Sound) : t.clear.Sound where
  fit := h.fit
  scores := (List.length_map _).trans h.scores
  times := (List.length_map _).trans h.times
  recorded := Nat.zero_le t.window

theorem Sound.recalls_clear (h : t.Sound) : t.clear.Recalls [] where
  score i hi := by
    have hlt : i < t.scores.length := h.scores ▸ hi
    rw [Trend.clear, List.getElem?_map, List.getElem?_eq_getElem hlt]
    rfl
  time i hi := by
    have hlt : i < t.times.length := h.times ▸ hi
    rw [Trend.clear, List.getElem?_map, List.getElem?_eq_getElem hlt]
    rfl
  recorded := rfl

theorem Sound.record (h : t.Sound) (scores : List Int32) (now : UInt64) :
    (t.record scores now).Sound := by
  have hscores := h.scores
  have htimes := h.times
  have hrecorded := h.recorded
  refine ⟨h.fit, ?_, ?_, ?_⟩ <;>
    simp only [Trend.record, List.length_append, List.length_take, List.length_drop,
      List.length_replicate] <;> omega

/-- A list whose first part was overwritten holds at a position what was written there, or what it
held before. -/
theorem getElem?_overwritten {β : Type} (old : List β) {new : List β} {n : Nat}
    (h : n = new.length) (i : Nat) :
    (new ++ old.drop n)[i]? = if i < n then new[i]? else old[i]? := by
  subst h
  split
  · rename_i hlt
    exact List.getElem?_append_left hlt
  · rename_i hge
    rw [List.getElem?_append_right (Nat.le_of_not_lt hge), List.getElem?_drop]
    exact congrArg (old[·]?) (by omega)

/-- **A record is remembered**: it writes the first slots, and the others keep what they held. -/
theorem Recalls.record (h : t.Recalls past) (s : Scoring) :
    (t.record s.scores s.time).Recalls (s :: past) := by
  -- within the window a slot is written exactly if the scoring has a score for it
  have hlatest : ∀ i < t.window, Scoring.latest i (s :: past) =
      if h : i < min s.scores.length t.window then (s.scores[i], s.time)
      else Scoring.latest i past := by
    intro i hi
    rw [Scoring.latest]
    by_cases hlt : i < s.scores.length
    · rw [List.getElem?_eq_getElem hlt, dif_pos (by omega)]
    · rw [List.getElem?_eq_none (by omega), dif_neg (by omega)]
  refine ⟨fun i hi => ?_, fun i hi => ?_, ?_⟩
  · have hlength : min s.scores.length t.window =
        (s.scores.take (min s.scores.length t.window)).length := by
      rw [List.length_take]
      omega
    have hwritten := getElem?_overwritten t.scores hlength i
    refine hwritten.trans ?_
    rw [hlatest i hi]
    split
    · rename_i hlt
      rw [List.getElem?_take_of_lt hlt, List.getElem?_eq_getElem]
    · exact h.score i hi
  · have hlength : min s.scores.length t.window =
        (List.replicate (min s.scores.length t.window) s.time).length :=
      List.length_replicate.symm
    have hwritten := getElem?_overwritten t.times hlength i
    refine hwritten.trans ?_
    rw [hlatest i hi]
    split
    · rename_i hlt
      exact List.getElem?_replicate_of_lt hlt
    · exact h.time i hi
  · show max t.recorded (min s.scores.length t.window) = _
    rw [h.recorded]
    rfl

end Trend

end Superpose.Choice
