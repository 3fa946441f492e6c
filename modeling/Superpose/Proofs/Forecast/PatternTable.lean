import Mathlib.Algebra.GroupWithZero.Nat
import Mathlib.Data.List.Nodup
import Superpose.Proofs.Forecast.Operation

/-!
# The table of patterns

What a table of patterns holds is told by the samples since the last reset (`Tabulates`): it has at
most one pattern of a size, no more than it has room for, and in each pattern all durations that
were learned for its size, the first of which opened it. The mean of a pattern is rounded down at
every step, so it never exceeds the mean of its durations, and as it is always a weighted mean of
some of them, it never falls below the least (`Pattern.Averages`).
-/

namespace Superpose.Forecast

/-- The durations among samples that were learned for a size. -/
def timesOf (size : UInt64) (log : List Sample) : List UInt64 :=
  (log.filter fun s => s.size == size).map Sample.time

theorem timesOf_concat_of_eq {size : UInt64} {s : Sample} (h : s.size = size) (log : List Sample) :
    timesOf size (log ++ [s]) = timesOf size log ++ [s.time] := by
  simp [timesOf, h]

theorem timesOf_concat_of_ne {size : UInt64} {s : Sample} (h : s.size ≠ size) (log : List Sample) :
    timesOf size (log ++ [s]) = timesOf size log := by
  simp [timesOf, h]

/-! ## One pattern -/

namespace Pattern

/-- The pattern that one duration opened, after some more. -/
def ofTimes (size first : UInt64) (more : List UInt64) : Pattern := more.foldl add ⟨size, first, 1⟩

/-- The running product of a mean and its number of durations, and one more duration, fit into a
word. -/
def Fits (p : Pattern) (time : UInt64) : Prop :=
  p.meanTime.toNat * p.samples.toNat + time.toNat < 2 ^ 64

instance (p : Pattern) (time : UInt64) : Decidable (p.Fits time) :=
  inferInstanceAs (Decidable (_ < _))

def AllFit (p : Pattern) : List UInt64 → Prop
  | [] => True
  | t :: ts => p.Fits t ∧ (p.add t).AllFit ts

/-- What the mean of a pattern tells of its durations, as long as the counter has their number. -/
structure Averages (p : Pattern) (times : List UInt64) : Prop where
  least_le : ∃ t ∈ times, t ≤ p.meanTime
  le_mean : times.length < 2 ^ 32 →
    p.meanTime.toNat ≤ (times.map UInt64.toNat).sum / times.length

section Samples

variable {p : Pattern} {times : List UInt64} (hcount : p.samples = UInt32.ofNat times.length)

include hcount

theorem samples_add (t : UInt64) : (p.add t).samples = UInt32.ofNat (times ++ [t]).length := by
  rw [List.length_append, List.length_singleton, UInt32.ofNat_add, ← hcount]
  rfl

theorem samples_foldl_add (more : List UInt64) :
    (more.foldl add p).samples = UInt32.ofNat (times ++ more).length := by
  induction more generalizing p times with
  | nil => simpa using hcount
  | cons t more ih => simpa using ih (samples_add hcount t)

end Samples

theorem toNat_meanTime_add {p : Pattern} {t : UInt64} (hfits : p.Fits t) :
    (p.add t).meanTime.toNat =
      (p.meanTime.toNat * p.samples.toNat + t.toNat) / (p.samples.toNat + 1) := by
  have hsmall := p.samples.toNat_lt
  have hproduct : p.meanTime.toNat * p.samples.toNat < 2 ^ 64 :=
    Nat.lt_of_le_of_lt (Nat.le_add_right _ _) hfits
  simp only [add, UInt64.toNat_div, UInt64.toNat_add, UInt64.toNat_mul, UInt32.toNat_toUInt64,
    UInt64.toNat_one, Nat.mod_eq_of_lt hproduct, Nat.mod_eq_of_lt hfits]
  rw [Nat.mod_eq_of_lt (show p.samples.toNat + 1 < 2 ^ 64 by omega)]

theorem Averages.add {p : Pattern} {times : List UInt64} {t : UInt64} (h : p.Averages times)
    (hcount : p.samples = UInt32.ofNat times.length) (hfits : p.Fits t) :
    (p.add t).Averages (times ++ [t]) where
  least_le := by
    obtain ⟨u, hu, hleast⟩ := h.least_le
    have hmean : ∀ m : UInt64, m ≤ p.meanTime → m ≤ t → m ≤ (p.add t).meanTime := by
      intro m hbelow this
      rw [UInt64.le_iff_toNat_le] at hbelow this ⊢
      rw [toNat_meanTime_add hfits, Nat.le_div_iff_mul_le (Nat.succ_pos _), Nat.mul_succ]
      exact Nat.add_le_add (Nat.mul_le_mul_right _ hbelow) this
    rcases UInt64.le_total u t with hlower | hlower
    · exact ⟨u, List.mem_append_left _ hu, hmean u hleast hlower⟩
    · exact ⟨t, by simp, hmean t (UInt64.le_trans hlower hleast) (UInt64.le_refl t)⟩
  le_mean hfew := by
    rw [List.length_append, List.length_singleton] at hfew
    have hnumber : p.samples.toNat = times.length := by
      rw [hcount]
      exact UInt32.toNat_ofNat_of_lt' (Nat.lt_of_succ_lt hfew)
    have htotal : p.meanTime.toNat * times.length ≤ (times.map UInt64.toNat).sum :=
      Nat.le_trans (Nat.mul_le_mul_right _ (h.le_mean (by omega))) (Nat.div_mul_le_self _ _)
    rw [toNat_meanTime_add hfits, hnumber, List.length_append, List.map_append, List.sum_append]
    exact Nat.div_le_div_right (Nat.add_le_add htotal (by simp))

theorem averages_opened (size first : UInt64) : (⟨size, first, 1⟩ : Pattern).Averages [first] where
  least_le := ⟨first, List.mem_singleton_self _, UInt64.le_refl _⟩
  le_mean _ := by simp

theorem Averages.foldl_add {p : Pattern} {times more : List UInt64} (h : p.Averages times)
    (hcount : p.samples = UInt32.ofNat times.length) (hfits : p.AllFit more) :
    (more.foldl Pattern.add p).Averages (times ++ more) := by
  induction more generalizing p times with
  | nil => simpa using h
  | cons t more ih => simpa using ih (h.add hcount hfits.1) (samples_add hcount t) hfits.2

end Pattern

/-- The running products that the durations of a pattern lead to all fit into words. -/
def ProductsFit (size : UInt64) : List UInt64 → Prop
  | [] => True
  | first :: more => Pattern.AllFit ⟨size, first, 1⟩ more

/-! ## The table -/

/-- The patterns that a list of samples leads to. -/
structure Tabulates (capacity : Nat) (log : List Sample) (ps : List Pattern) : Prop where
  nodup : (ps.map Pattern.size).Nodup
  length_le : ps.length ≤ capacity
  made : ∀ p ∈ ps, ∃ first more, timesOf p.size log = first :: more ∧
    p = .ofTimes p.size first more
  /-- A size that was not stored when it first came up found the table full, and it stays full. -/
  full : ∀ s ∈ log, s.size ∈ ps.map Pattern.size ∨ capacity ≤ ps.length

section Step

variable {capacity : Nat} {log : List Sample} {ps : List Pattern}

/-- A pattern of another size has learned nothing. -/
theorem Tabulates.made_of_ne (h : Tabulates capacity log ps) {s : Sample} {p : Pattern}
    (hp : p ∈ ps) (hother : p.size ≠ s.size) :
    ∃ first more, timesOf p.size (log ++ [s]) = first :: more ∧ p = .ofTimes p.size first more := by
  rw [timesOf_concat_of_ne hother.symm]
  exact h.made p hp

theorem Tabulates.size_ne {front back : List Pattern} {p q : Pattern}
    (h : Tabulates capacity log (front ++ p :: back)) (hq : q ∈ front ++ back) :
    q.size ≠ p.size := by
  intro hsame
  have hnodup := h.nodup
  rw [List.map_append, List.map_cons, List.nodup_middle, List.nodup_cons,
    ← List.map_append] at hnodup
  exact hnodup.1 (hsame ▸ List.mem_map_of_mem hq)

/-- A size that may still be stored has not come up yet. -/
theorem Tabulates.timesOf_eq_nil (h : Tabulates capacity log ps) {size : UInt64}
    (hnew : ∀ p ∈ ps, p.size ≠ size) (hroom : ps.length < capacity) : timesOf size log = [] := by
  rw [timesOf, List.map_eq_nil_iff, List.filter_eq_nil_iff]
  intro s hs hsame
  rcases h.full s hs with hknown | hfull
  · obtain ⟨p, hp, hknown⟩ := List.mem_map.mp hknown
    exact hnew p hp (hknown.trans (eq_of_beq hsame))
  · omega

theorem Tabulates.add {front back : List Pattern} {p : Pattern} {s : Sample}
    (h : Tabulates capacity log (front ++ p :: back)) (hknown : p.size = s.size) :
    Tabulates capacity (log ++ [s]) (front ++ p.add s.time :: back) := by
  have hsizes : (front ++ p.add s.time :: back).map Pattern.size =
      (front ++ p :: back).map Pattern.size := by simp [Pattern.add]
  have hothers : ∀ q ∈ front ++ back, ∃ first more,
      timesOf q.size (log ++ [s]) = first :: more ∧ q = .ofTimes q.size first more := by
    intro q hq
    have hold : q ∈ front ++ p :: back := by
      rcases List.mem_append.mp hq with hbefore | hbehind
      · simp [hbefore]
      · simp [hbehind]
    exact h.made_of_ne hold (hknown ▸ h.size_ne hq)
  refine ⟨hsizes ▸ h.nodup, by simpa using h.length_le, fun q hq => ?_, fun s' hs' => ?_⟩
  · rcases List.mem_append.mp hq with hbefore | hafter
    · exact hothers q (List.mem_append_left _ hbefore)
    · rcases List.mem_cons.mp hafter with rfl | hbehind
      · obtain ⟨first, more, htimes, hmade⟩ := h.made p (by simp)
        refine ⟨first, more ++ [s.time], ?_, ?_⟩
        · have hown : s.size = (p.add s.time).size := hknown.symm
          rw [timesOf_concat_of_eq hown]
          exact congrArg (· ++ [s.time]) htimes
        · rw [Pattern.ofTimes, List.foldl_append]
          exact congrArg (Pattern.add · s.time) hmade
      · exact hothers q (List.mem_append_right _ hbehind)
  · rw [hsizes]
    rcases List.mem_append.mp hs' with hbefore | hlast
    · simpa using h.full s' hbefore
    · left
      rw [List.mem_singleton.mp hlast, ← hknown]
      exact List.mem_map_of_mem (by simp)

theorem Tabulates.store (h : Tabulates capacity log ps) {s : Sample}
    (hnew : ∀ p ∈ ps, p.size ≠ s.size) (hroom : ps.length < capacity) :
    Tabulates capacity (log ++ [s]) (ps ++ [⟨s.size, s.time, 1⟩]) where
  nodup := by
    rw [List.map_append, List.nodup_append]
    refine ⟨h.nodup, List.nodup_singleton _, fun size hknown size' hlast => ?_⟩
    obtain ⟨p, hp, rfl⟩ := List.mem_map.mp hknown
    rw [List.map_singleton, List.mem_singleton] at hlast
    rw [hlast]
    exact hnew p hp
  length_le := by
    rw [List.length_append, List.length_singleton]
    exact hroom
  made q hq := by
    rcases List.mem_append.mp hq with hbefore | hlast
    · exact h.made_of_ne hbefore (hnew q hbefore)
    · rw [List.mem_singleton.mp hlast]
      refine ⟨s.time, [], ?_, rfl⟩
      rw [timesOf_concat_of_eq rfl, h.timesOf_eq_nil hnew hroom]
      rfl
  full s' hs' := by
    left
    rcases List.mem_append.mp hs' with hbefore | hlast
    · rcases h.full s' hbefore with hknown | hfull
      · simp [hknown]
      · omega
    · simp [List.mem_singleton.mp hlast]

theorem Tabulates.pass (h : Tabulates capacity log ps) {s : Sample}
    (hnew : ∀ p ∈ ps, p.size ≠ s.size) (hfull : capacity ≤ ps.length) :
    Tabulates capacity (log ++ [s]) ps :=
  ⟨h.nodup, h.length_le, fun q hq => h.made_of_ne hq (hnew q hq), fun _ _ => .inr hfull⟩

theorem Tabulates.learnTime (h : Tabulates capacity log ps) (s : Sample) :
    Tabulates capacity (log ++ [s]) (learnTime capacity s.size s.time ps) := by
  have hstep := learning capacity s ps
  generalize Forecast.learnTime capacity s.size s.time ps = ps' at hstep ⊢
  cases hstep with
  | added hwhole hknown =>
    subst hwhole
    exact h.add hknown
  | stored hnew hroom => exact h.store hnew hroom
  | passed hnew hfull => exact h.pass hnew hfull

theorem Tabulates.teach (h : Tabulates capacity log ps) (more : List Sample) :
    Tabulates capacity (log ++ more) (teach capacity ps more) := by
  induction more generalizing log ps with
  | nil => simpa [Forecast.teach] using h
  | cons s more ih =>
    have hrest := ih (h.learnTime s)
    rw [List.append_assoc] at hrest
    exact hrest

theorem sizes_prefix_learnTime (capacity : Nat) (s : Sample) (ps : List Pattern) :
    ps.map Pattern.size <+: (learnTime capacity s.size s.time ps).map Pattern.size := by
  have hstep := learning capacity s ps
  generalize Forecast.learnTime capacity s.size s.time ps = ps' at hstep ⊢
  cases hstep with
  | added hwhole => simp [hwhole, Pattern.add]
  | stored => exact ⟨[s.size], by simp⟩
  | passed => exact List.prefix_refl _

theorem sizes_prefix_teach (capacity : Nat) (ps : List Pattern) (more : List Sample) :
    ps.map Pattern.size <+: (teach capacity ps more).map Pattern.size := by
  induction more generalizing ps with
  | nil => exact List.prefix_refl _
  | cons s more ih => exact (sizes_prefix_learnTime capacity s ps).trans (ih _)

end Step

theorem tabulates_nil (capacity : Nat) : Tabulates capacity [] [] :=
  ⟨.nil, Nat.zero_le _, by simp, by simp⟩

/-! ## Calls -/

section Calls

variable {ρ : Type} [Shuffler ρ]

theorem sizes_prefix_perform (f : Forecast ρ) {c : Operation ρ} (hkept : c.isReset = false) :
    f.patterns.map Pattern.size <+: (c.perform f).patterns.map Pattern.size := by
  cases c with
  | learn r =>
    rw [Operation.perform, patterns_learn]
    exact sizes_prefix_teach _ _ _
  | order r =>
    have hsame : ((Operation.order r).perform f).patterns = f.patterns := patterns_order f r
    exact hsame ▸ List.prefix_refl _
  | reset => cases hkept
  | predict | setPlan => exact List.prefix_refl _

theorem sizes_prefix_performAll (f : Forecast ρ) {calls : List (Operation ρ)}
    (hkept : ∀ c ∈ calls, c.isReset = false) :
    f.patterns.map Pattern.size <+: (f.performAll calls).patterns.map Pattern.size := by
  induction calls generalizing f with
  | nil => exact List.prefix_refl _
  | cons c calls ih =>
    obtain ⟨hkeep, hkeeps⟩ := List.forall_mem_cons.mp hkept
    exact (sizes_prefix_perform f hkeep).trans (ih (c.perform f) hkeeps)

/-- After any calls the sizes of the patterns differ, and there are no more patterns than the table
has room for; until the next reset every one of them stays. The samples of a pattern are all the
durations that were learned for its size since the last reset, counted in a word of 32 bits. If all
running products fit, its mean is at least the least of them, and as long as their number fits into
the counter it is at most their mean, rounded down. -/
theorem pattern_table (s : Settings) (unseeded : ρ) (calls : List (Operation ρ)) :
    let f := (ofSettings s unseeded).performAll calls
    let log := (ofSettings s unseeded).logged [] calls
    (f.patterns.map Pattern.size).Nodup ∧ f.patterns.length ≤ s.patternCapacity.toNat ∧
      (∀ later : List (Operation ρ), (∀ c ∈ later, c.isReset = false) →
        f.patterns.map Pattern.size <+: (f.performAll later).patterns.map Pattern.size) ∧
      ∀ p ∈ f.patterns, let times := timesOf p.size log
        p.samples = UInt32.ofNat times.length ∧
        (ProductsFit p.size times → (∃ t ∈ times, t ≤ p.meanTime) ∧
          (times.length < 2 ^ 32 → p.samples.toNat = times.length ∧
            p.meanTime.toNat ≤ (times.map UInt64.toNat).sum / times.length)) := by
  intro f log
  have hpatterns : f.patterns = teach s.patternCapacity.toNat [] log :=
    patterns_performAll rfl calls
  have htable : Tabulates s.patternCapacity.toNat log f.patterns :=
    hpatterns ▸ (tabulates_nil _).teach log
  refine ⟨htable.nodup, htable.length_le, fun later => sizes_prefix_performAll f, ?_⟩
  intro p hp times
  obtain ⟨first, more, hall, hmade⟩ := htable.made p hp
  change times = first :: more at hall
  have hopened : (⟨p.size, first, 1⟩ : Pattern).samples = UInt32.ofNat [first].length := rfl
  have hsamples : p.samples = UInt32.ofNat times.length := by
    rw [hmade, hall]
    exact Pattern.samples_foldl_add hopened more
  refine ⟨hsamples, fun hfit => ?_⟩
  rw [hall] at hfit
  have haverages := (Pattern.averages_opened p.size first).foldl_add hopened hfit
  rw [← Pattern.ofTimes, ← hmade, List.singleton_append, ← hall] at haverages
  refine ⟨haverages.least_le, fun hfew => ⟨?_, haverages.le_mean hfew⟩⟩
  rw [hsamples]
  exact UInt32.toNat_ofNat_of_lt' hfew

end Calls

section Samples

/-- A register whose qubits have results of these sizes, and have completed in these times. -/
def finished (rows : List (UInt64 × UInt64)) : Register Nat Unit :=
  { qubits := rows.map fun row =>
      { status := .completed, data := 0, resultSize := row.1, ended := row.2, id := 0 } }

/-- The first run is forgotten, and the third size of the second one finds the table full. -/
def runs : List (Operation Unit) :=
  let first := finished [(4, 7)]
  let second := finished [(8, 1), (16, 9), (32, 5), (8, 2), (8, 3)]
  [.predict first, .learn first, .reset (), .predict second, .setPlan .random, .learn second]

theorem pattern_table_runs :
    let start := ofSettings { patternCapacity := 2 } ()
    ProductsFit 8 (timesOf 8 (start.logged [] runs)) ∧
      (start.performAll runs).patterns = [⟨8, 1, 3⟩, ⟨16, 9, 1⟩] ∧
      timesOf 8 (start.logged [] runs) = [1, 2, 3] ∧
      (1 : UInt64).toNat ≤ (([1, 2, 3] : List UInt64).map UInt64.toNat).sum / 3 := by
  intro start
  have hpatterns : (start.performAll runs).patterns = [⟨8, 1, 3⟩, ⟨16, 9, 1⟩] := by decide +kernel
  have htimes : timesOf 8 (start.logged [] runs) = [1, 2, 3] := by decide +kernel
  have hfit : ProductsFit 8 (timesOf 8 (start.logged [] runs)) := by
    rw [htimes]
    exact ⟨by decide, by decide, trivial⟩
  have hstored : (⟨8, 1, 3⟩ : Pattern) ∈ (start.performAll runs).patterns := by simp [hpatterns]
  have hfew : (timesOf 8 (start.logged [] runs)).length < 2 ^ 32 := by simp [htimes]
  have hlaw := ((pattern_table { patternCapacity := 2 } () runs).2.2.2 _ hstored).2 hfit
  have hmost := (hlaw.2 hfew).2
  rw [htimes] at hmost
  exact ⟨hfit, hpatterns, htimes, hmost⟩

/-- One estimate after the other is compared with a duration of 0 for a result of size 8. -/
theorem logged_replicate_learn (n : Nat) {f : Forecast Unit} {e : Prediction} (log : List Sample)
    (hf : f.predictions = [e]) :
    f.logged log (List.replicate n (.learn (finished [(8, 0)]))) =
      log ++ List.replicate n ⟨8, 0⟩ := by
  induction n generalizing f log with
  | zero => simp [logged]
  | succ n ih =>
    have hkept : (f.learn (finished [(8, 0)])).predictions = [e] := by
      unfold learn
      split <;> exact hf
    have hsample : f.samples (finished [(8, 0)]) = [⟨8, 0⟩] := by
      simp [samples, hf, finished, sample?, Qubit.duration, elapsed]
    rw [List.replicate_succ, logged, Operation.perform, Operation.note, ih _ hkept, hsample,
      List.append_assoc]
    rfl

theorem teach_replicate_zero (n : Nat) (c : UInt32) :
    teach 32 [⟨8, 0, c⟩] (List.replicate n ⟨8, 0⟩) = [⟨8, 0, c + UInt32.ofNat n⟩] := by
  induction n generalizing c with
  | zero => simp [teach]
  | succ n ih =>
    have hone : learnTime 32 8 0 [⟨8, 0, c⟩] = [⟨8, 0, c + 1⟩] := by
      simp [learnTime, Pattern.add]
    have hstep : teach 32 [⟨8, 0, c⟩] (List.replicate (n + 1) ⟨8, 0⟩) =
        teach 32 [⟨8, 0, c + 1⟩] (List.replicate n ⟨8, 0⟩) := by
      rw [← hone]
      rfl
    rw [hstep, ih, UInt32.ofNat_add, UInt32.add_assoc, UInt32.add_comm 1]
    rfl

/-- What is left of the counter after some durations of 0. -/
theorem often_learned {n : Nat} (hn : 0 < n) :
    let start := ofSettings {} ()
    let often := .predict (finished [(8, 0)]) :: List.replicate n (.learn (finished [(8, 0)]))
    (start.performAll often).patterns = [⟨8, 0, UInt32.ofNat n⟩] ∧
      timesOf 8 (start.logged [] often) = List.replicate n 0 := by
  intro start often
  have hlog : start.logged [] often = List.replicate n ⟨8, 0⟩ :=
    logged_replicate_learn n (f := start.predict (finished [(8, 0)])) [] rfl
  have hpatterns : (start.performAll often).patterns = teach 32 [] (start.logged [] often) :=
    patterns_performAll rfl often
  constructor
  · obtain ⟨n, rfl⟩ := Nat.exists_eq_add_of_lt hn
    have hfirst : teach 32 [] (List.replicate (n + 1) ⟨8, 0⟩) =
        teach 32 [⟨8, 0, 1⟩] (List.replicate n ⟨8, 0⟩) := by
      rw [List.replicate_succ]
      rfl
    rw [hpatterns, hlog, Nat.zero_add, hfirst, teach_replicate_zero, UInt32.ofNat_add,
      UInt32.add_comm]
    rfl
  · rw [hlog, timesOf, List.filter_replicate, if_pos (by decide), List.map_replicate]

/-- **A table can misjudge and miscount** although every product of a mean and its number fits into
a word: the sum of such a product and one more duration may not fit, which overflow checks break off
at, and neither may the number of durations into its counter. -/
theorem misjudged_pattern :
    let start := ofSettings {} ()
    let long := finished [(8, 9223372036854775808)]
    let twice := [.predict long, .learn long, .learn long]
    let brief := finished [(8, 0)]
    let often := .predict brief :: List.replicate (2 ^ 32) (.learn brief)
    ((start.performAll twice).patterns = [⟨8, 0, 2⟩] ∧
        timesOf 8 (start.logged [] twice) =
          [9223372036854775808, 9223372036854775808] ∧
        (9223372036854775808 : UInt64).toNat * 1 < 2 ^ 64 ∧
        (((start.predict long).learn long).learn? long).1 = false) ∧
      (start.performAll often).patterns = [⟨8, 0, 0⟩] ∧
      timesOf 8 (start.logged [] often) = List.replicate (2 ^ 32) 0 := by
  have hzero : UInt32.ofNat (2 ^ 32) = 0 := by decide
  obtain ⟨hpatterns, htimes⟩ := often_learned (n := 2 ^ 32) (by decide)
  rw [hzero] at hpatterns
  exact ⟨⟨by decide +kernel, by decide +kernel, by decide +kernel, by decide +kernel⟩, hpatterns,
    htimes⟩

end Samples

end Superpose.Forecast
