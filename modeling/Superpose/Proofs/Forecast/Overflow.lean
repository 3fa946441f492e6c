import Superpose.Proofs.Checked
import Superpose.Proofs.Forecast.PatternTable

/-!
# Forecasts with overflow checks

Overflow checks make no difference to a forecast but that they may break it off. Estimates are
broken off just if the units of work of a qubit or the number of estimates overflow
(`predict?_eq_some_iff`), and a duration just if its running product or the number of durations
does (`Pattern.add?_fst_iff`). What is learned without being broken off is what is learned without
the checks, from one duration to a whole register (`learn?_snd`).
-/

namespace Superpose.Forecast

variable {α ω ρ : Type}

/-! ## Estimates -/

theorem predict?_eq_some_iff {f f' : Forecast ρ} {r : Register α ω} :
    f.predict? r = some f' ↔
      (∀ q ∈ r.qubits, q.resultSize.toNat * f.settings.complexityFactor.toNat < 2 ^ 64) ∧
        f.scheduled.toNat + r.count < 2 ^ 64 ∧ f' = f.predict r := by
  have hwork := Checked.mapM_eq_some_iff fun q (_ : q ∈ r.qubits) w =>
    Checked.word_eq_some_iff_lt
      (n := q.resultSize.toNat * f.settings.complexityFactor.toNat) (w := w)
  simp only [predict?, Option.bind_eq_bind, Option.bind_eq_some_iff, hwork,
    Checked.word_eq_some_iff_lt, Option.pure_def, Option.some.injEq]
  constructor
  · rintro ⟨_, ⟨hfits, -⟩, _, ⟨hcount, -⟩, rfl⟩
    exact ⟨hfits, hcount, rfl⟩
  · rintro ⟨hfits, hcount, rfl⟩
    exact ⟨_, ⟨hfits, rfl⟩, _, ⟨hcount, rfl⟩, rfl⟩

/-! ## Learning -/

namespace Pattern

/-- The running product of a mean and its number of durations, with one more duration. -/
theorem total?_eq (p : Pattern) (t : UInt64) :
    ((Checked.word (p.meanTime.toNat * p.samples.toNat)).bind fun product =>
      Checked.word (product.toNat + t.toNat)) =
        Checked.word (p.meanTime.toNat * p.samples.toNat + t.toNat) :=
  Checked.word_bind_add _ _

/-- Where the running product and the count fit into their words, overflow checks make no
difference. -/
theorem add?_of_fits {p : Pattern} {t : UInt64} (hfits : p.Fits t)
    (hcount : p.samples.toNat + 1 < 2 ^ 32) : p.add? t = (true, p.add t) := by
  have hword := (total?_eq p t).trans (Checked.word_of_lt hfits)
  have hmean : UInt64.ofNat (p.meanTime.toNat * p.samples.toNat + t.toNat) =
      p.meanTime * p.samples.toUInt64 + t := by simp
  have hsamples : UInt32.ofNat (p.samples.toNat + 1) = p.samples + 1 := by simp
  simp only [add?, add, Option.bind_eq_bind, hword, Checked.shortWord_of_lt hcount, hmean, hsamples]

/-- With overflow checks, a duration is got through just if the running product and the count fit
into their words. -/
theorem add?_fst_iff {p : Pattern} {t : UInt64} :
    (p.add? t).1 = true ↔ p.Fits t ∧ p.samples.toNat + 1 < 2 ^ 32 := by
  constructor
  · intro h
    constructor
    · refine Nat.lt_of_not_le fun hover => ?_
      have hnone := (total?_eq p t).trans (Checked.word_eq_none_iff.mpr hover)
      simp only [add?, Option.bind_eq_bind, hnone, Bool.false_eq_true] at h
    · refine Nat.lt_of_not_le fun hover => ?_
      have hnone := Checked.shortWord_eq_none_iff.mpr hover
      simp only [add?, hnone] at h
      split at h <;> cases h
  · rintro ⟨hfits, hcount⟩
    rw [add?_of_fits hfits hcount]

theorem add?_snd {p : Pattern} {t : UInt64} (h : (p.add? t).1 = true) : (p.add? t).2 = p.add t := by
  obtain ⟨hfits, hcount⟩ := add?_fst_iff.mp h
  rw [add?_of_fits hfits hcount]

end Pattern

theorem learnTime?_snd {capacity : Nat} {size time : UInt64} {ps : List Pattern}
    (h : (learnTime? capacity size time ps).1 = true) :
    (learnTime? capacity size time ps).2 = learnTime capacity size time ps := by
  unfold learnTime? learnTime at *
  split at h
  · next i hfound =>
    obtain ⟨hi, -, -⟩ := List.findIdx?_eq_some_iff_getElem.mp hfound
    simp only [List.getElem?_eq_getElem hi, Option.all_some] at h
    simp only [List.modify_eq_set_get _ hi, List.get_eq_getElem, Pattern.add?_snd h]
  · rfl

theorem Lesson.add?_snd {s : Settings} {l : Lesson} {q : Qubit α ω} {p : Prediction}
    (h : (l.add? s q p).1 = true) : (l.add? s q p).2 = l.add s q p := by
  unfold Lesson.add? Lesson.add at *
  split at h
  · next hcompleted => simp only [if_pos hcompleted, learnTime?_snd h]
  · next hcompleted => simp only [if_neg hcompleted]

theorem Lesson.addAll?_snd {s : Settings} {l : Lesson}
    {rows : List (Qubit α ω × Prediction)} (h : (l.addAll? s rows).1 = true) :
    (l.addAll? s rows).2 = l.addAll s rows := by
  induction rows generalizing l with
  | nil => rfl
  | cons row rows ih =>
    have hrest : l.addAll s (row :: rows) = (l.add s row.1 row.2).addAll s rows := rfl
    unfold Lesson.addAll? at h ⊢
    by_cases hadded : (l.add? s row.1 row.2).1 = true
    · rw [if_pos hadded] at h ⊢
      rw [hrest, ← Lesson.add?_snd hadded]
      exact ih h
    · rw [if_neg hadded] at h
      exact absurd h hadded

/-- **Overflow checks make no difference to what is learned**, as long as they do not break off. -/
theorem learn?_snd {f : Forecast ρ} {r : Register α ω} (h : (f.learn? r).1 = true) :
    (f.learn? r).2 = f.learn r := by
  unfold learn? learn at *
  by_cases hempty : f.predictions.isEmpty = true
  · simp only [if_pos hempty]
  · simp only [if_neg hempty] at h ⊢
    by_cases hpassed : (Lesson.addAll? f.settings { patterns := f.patterns }
        (r.qubits.zip f.predictions)).1 = true
    · simp only [if_pos hpassed] at h ⊢
      split at h
      · cases h
      · simp only [Lesson.addAll?_snd hpassed]
    · simp only [if_neg hpassed] at h
      cases h

end Superpose.Forecast
