import Mathlib.Data.List.Dedup
import Mathlib.Data.List.Perm.Subperm
import Superpose.Proofs.Forecast.PatternTable

/-!
# Steady durations

Let results of one size always take the same time. Then every pattern has learned equal durations,
and a mean of equal durations is the duration, however often it was rounded
(`Pattern.meanTime_ofTimes`). A table that has room for all sizes that come up stores each of them
when it first comes up, so in the end it has the sizes of the samples (`Tabulates.mem_sizes_iff`),
and estimates each of them at just what it takes (`learnedTime_teach`). Samples of sizes that came
up before change no mean any more (`means_teach_append`).
-/

namespace Superpose.Forecast

/-! ## Means of equal durations -/

namespace Pattern

/-- One more duration that is just the mean leaves the mean alone. -/
theorem meanTime_add_self {p : Pattern} {t : UInt64} (hmean : p.meanTime = t) (hfits : p.Fits t) :
    (p.add t).meanTime = t := by
  rw [← UInt64.toNat_inj, toNat_meanTime_add hfits, hmean, ← Nat.mul_succ]
  exact Nat.mul_div_cancel _ (Nat.succ_pos _)

/-- The running product is at most that of the duration and the number of samples, as far as the
counter counts them. -/
theorem fits_of_small {p : Pattern} {t : UInt64} {k n : Nat} (hmean : p.meanTime = t)
    (hcount : p.samples = UInt32.ofNat k) (hmore : k < n)
    (hsmall : t.toNat * min n (2 ^ 32) < 2 ^ 64) : p.Fits t := by
  have hcounted : p.samples.toNat + 1 ≤ min n (2 ^ 32) := by
    rw [hcount, UInt32.toNat_ofNat']
    omega
  rw [Fits, hmean, ← Nat.mul_succ]
  exact Nat.lt_of_le_of_lt (Nat.mul_le_mul_left _ hcounted) hsmall

theorem meanTime_foldl_add {p : Pattern} {t : UInt64} {k : Nat} (hmean : p.meanTime = t)
    (hcount : p.samples = UInt32.ofNat k) (n : Nat)
    (hsmall : t.toNat * min (k + n) (2 ^ 32) < 2 ^ 64) :
    ((List.replicate n t).foldl add p).meanTime = t := by
  induction n generalizing p k with
  | zero => exact hmean
  | succ n ih =>
    have hfits : p.Fits t := fits_of_small hmean hcount (by omega) hsmall
    have hcounts : (p.add t).samples = UInt32.ofNat (k + 1) := by
      rw [UInt32.ofNat_add, ← hcount]
      rfl
    rw [List.replicate_succ, List.foldl_cons]
    exact ih (meanTime_add_self hmean hfits) hcounts (by rwa [Nat.add_assoc, Nat.add_comm 1 n])

/-- **The mean of equal durations is the duration.** -/
theorem meanTime_ofTimes {size t : UInt64} {n : Nat}
    (hsmall : t.toNat * min (n + 1) (2 ^ 32) < 2 ^ 64) :
    (ofTimes size t (List.replicate n t)).meanTime = t :=
  meanTime_foldl_add rfl (k := 1) rfl n (by rwa [Nat.add_comm])

end Pattern

/-! ## Samples of steady durations -/

/-- Samples in which every size has the one duration that is given for it. -/
def Steady (d : UInt64 → UInt64) (log : List Sample) : Prop := ∀ s ∈ log, s.time = d s.size

/-- The number of samples of a size. -/
def sampled (size : UInt64) (log : List Sample) : Nat := (log.map Sample.size).count size

variable {d : UInt64 → UInt64} {log : List Sample}

theorem Steady.timesOf_eq (hsteady : Steady d log) (size : UInt64) :
    timesOf size log = List.replicate (sampled size log) (d size) := by
  refine List.eq_replicate_iff.mpr ⟨?_, fun t ht => ?_⟩
  · rw [timesOf, List.length_map, ← List.countP_eq_length_filter, sampled, List.count,
      List.countP_map]
    rfl
  · obtain ⟨s, hs, rfl⟩ := List.mem_map.mp ht
    obtain ⟨hsampled, hsame⟩ := List.mem_filter.mp hs
    rw [hsteady s hsampled, eq_of_beq hsame]

/-- The products that come up in learning fit into words. -/
def Small (d : UInt64 → UInt64) (log : List Sample) : Prop :=
  ∀ size, (d size).toNat * min (sampled size log) (2 ^ 32) < 2 ^ 64

theorem Small.of_append {more : List Sample} (hsmall : Small d (log ++ more)) : Small d log := by
  intro size
  refine Nat.lt_of_le_of_lt (Nat.mul_le_mul_left _ ?_) (hsmall size)
  rw [sampled, sampled, List.map_append, List.count_append]
  omega

/-- The means of a table, each with its size. -/
def means (ps : List Pattern) : List (UInt64 × UInt64) := ps.map fun p => (p.size, p.meanTime)

/-- Estimates are made from the means alone. -/
theorem learnedTime_congr {ps qs : List Pattern} (hsame : means ps = means qs) (size : UInt64) :
    learnedTime ps size = learnedTime qs size := by
  have hlooked : ∀ rs : List Pattern, (rs.find? fun p => p.size == size).map Pattern.meanTime =
      ((means rs).find? fun mean => mean.1 == size).map Prod.snd := by
    intro rs
    rw [means, List.find?_map, Option.map_map]
    rfl
  rw [learnedTime, learnedTime, hlooked, hlooked, hsame]

section Table

variable {capacity : Nat} (hroom : (log.map Sample.size).dedup.length ≤ capacity)

theorem Tabulates.sizes_subset {ps : List Pattern} (htable : Tabulates capacity log ps) :
    ps.map Pattern.size ⊆ log.map Sample.size := by
  intro size hknown
  obtain ⟨p, hp, rfl⟩ := List.mem_map.mp hknown
  obtain ⟨first, more, htimes, -⟩ := htable.made p hp
  have hfirst_mem : first ∈ timesOf p.size log := htimes ▸ List.mem_cons_self
  obtain ⟨s, hs, -⟩ := List.mem_map.mp hfirst_mem
  obtain ⟨hsampled, hsame⟩ := List.mem_filter.mp hs
  exact List.mem_map.mpr ⟨s, hsampled, eq_of_beq hsame⟩

include hroom in
/-- Where there is room for every size, every size is stored. -/
theorem Tabulates.mem_sizes_iff {ps : List Pattern} (htable : Tabulates capacity log ps)
    {size : UInt64} : size ∈ ps.map Pattern.size ↔ size ∈ log.map Sample.size := by
  refine ⟨fun hknown => htable.sizes_subset hknown, fun hsampled => ?_⟩
  obtain ⟨s, hs, rfl⟩ := List.mem_map.mp hsampled
  rcases htable.full s hs with hknown | hfull
  · exact hknown
  · -- a full table has as many sizes as came up, so it has all of them
    have hsome : (ps.map Pattern.size).Subperm (log.map Sample.size).dedup :=
      List.subperm_of_subset htable.nodup fun size hknown =>
        List.mem_dedup.mpr (htable.sizes_subset hknown)
    have hall := hsome.perm_of_length_le (by rw [List.length_map]; omega)
    exact hall.mem_iff.mpr (List.mem_dedup.mpr hsampled)

theorem Tabulates.meanTime_eq {ps : List Pattern} (htable : Tabulates capacity log ps)
    (hsteady : Steady d log) (hsmall : Small d log) {p : Pattern} (hp : p ∈ ps) :
    p.meanTime = d p.size := by
  obtain ⟨first, more, htimes, hmade⟩ := htable.made p hp
  rw [hsteady.timesOf_eq] at htimes
  have hsmall := hsmall p.size
  generalize sampled p.size log = n at htimes hsmall
  cases n with
  | zero => cases htimes
  | succ n =>
    rw [List.replicate_succ, List.cons.injEq] at htimes
    obtain ⟨rfl, rfl⟩ := htimes
    exact (congrArg Pattern.meanTime hmade).trans (Pattern.meanTime_ofTimes hsmall)

theorem Tabulates.means_eq {ps : List Pattern} (htable : Tabulates capacity log ps)
    (hsteady : Steady d log) (hsmall : Small d log) :
    means ps = (ps.map Pattern.size).map fun size => (size, d size) := by
  rw [means, List.map_map]
  refine List.map_congr_left fun p hp => ?_
  rw [htable.meanTime_eq hsteady hsmall hp]
  rfl

include hroom in
/-- **What is learned is what it takes**, for every size that came up. -/
theorem learnedTime_teach (hsteady : Steady d log) (hsmall : Small d log) {size : UInt64}
    (hsampled : size ∈ log.map Sample.size) (hpos : 0 < d size) :
    learnedTime (teach capacity [] log) size = some (d size) := by
  have htable : Tabulates capacity log (teach capacity [] log) := (tabulates_nil capacity).teach log
  obtain ⟨q, hq, hsame⟩ := List.mem_map.mp ((htable.mem_sizes_iff hroom).mpr hsampled)
  unfold learnedTime
  cases hfound : (teach capacity [] log).find? fun p => p.size == size with
  | none => exact absurd (beq_iff_eq.mpr hsame) (List.find?_eq_none.mp hfound q hq)
  | some p =>
    have hown : p.size = size := by simpa using List.find?_some hfound
    have hmean := htable.meanTime_eq hsteady hsmall (List.mem_of_find?_eq_some hfound)
    rw [Option.map_some, hmean, hown, Option.filter_some, if_pos (decide_eq_true hpos)]

include hroom in
/-- **Sizes that came up before change no mean**, and get no pattern of their own. -/
theorem means_teach_append {more : List Sample} (hsteady : Steady d (log ++ more))
    (hsmall : Small d (log ++ more))
    (hknown : more.map Sample.size ⊆ log.map Sample.size) :
    means (teach capacity [] (log ++ more)) = means (teach capacity [] log) := by
  have hbefore : Tabulates capacity log (teach capacity [] log) :=
    (tabulates_nil capacity).teach log
  have hafter := (tabulates_nil capacity).teach (log ++ more)
  rw [List.nil_append] at hafter
  have hsizes : (teach capacity [] log).map Pattern.size =
      (teach capacity [] (log ++ more)).map Pattern.size := by
    refine (List.IsPrefix.eq_of_length_le ?_ ?_)
    · rw [teach, teach, List.foldl_append]
      exact sizes_prefix_teach _ _ _
    · refine (List.subperm_of_subset hafter.nodup fun size hsize => ?_).length_le
      rw [hbefore.mem_sizes_iff hroom]
      have hsampled := hafter.sizes_subset hsize
      rw [List.map_append, List.mem_append] at hsampled
      rcases hsampled with hold | hnew
      · exact hold
      · exact hknown hnew
  have hsteady' : Steady d log := fun s hs => hsteady s (List.mem_append_left more hs)
  rw [hafter.means_eq hsteady hsmall, hbefore.means_eq hsteady' hsmall.of_append, hsizes]

end Table

end Superpose.Forecast
