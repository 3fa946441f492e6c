import Mathlib.Algebra.Order.BigOperators.Group.List
import Mathlib.Algebra.Order.Ring.Nat
import Superpose.Proofs.Checked
import Superpose.Proofs.Workbench.Script
import Superpose.Register.Run

/-!
# Timing in words

The mean duration of a workload and the mean squared deviation from it are taken on 64-bit words.
What they are in whole numbers is `wholeMean` and `wholeSpread`. Words come to the mean just where
the durations add up to no more than a word (`toNat_mean_eq_iff`), and then to the spread just where
the squared deviations do (`toNat_spread_eq_iff`): squares may wrap around on the way, but what a
sum has lost is too much for the same quotient. Squares are the same whether words have a sign or
not (`squares_eq`); where no word on the way is to hold another number than it stands for, they have
to stay in the range of a signed word (`Fits`), which short durations ensure (`fits_of_short`). A
build with overflow checks breaks off unless all operations stay in range (`Passes`).
-/

namespace Superpose

namespace Workload

/-! ## Whole numbers -/

/-- The sum of words as a whole number. -/
def total (ws : List UInt64) : Nat := (ws.map UInt64.toNat).sum

/-- The mean of durations, rounded down. -/
def wholeMean (ds : List UInt64) : Nat := total ds / ds.length

/-- How far a duration is from the mean. -/
def deviation (ds : List UInt64) (d : UInt64) : Int := (d.toNat : Int) - wholeMean ds

/-- The sum of the squared deviations of durations from their mean. -/
def scatter (ds : List UInt64) : Nat := (ds.map fun d => (deviation ds d).natAbs ^ 2).sum

/-- The mean squared deviation of durations from their mean, rounded down. -/
def wholeSpread (ds : List UInt64) : Nat := scatter ds / ds.length

/-! ## Words -/

theorem toNat_foldl_add (ws : List UInt64) (w : UInt64) :
    (ws.foldl (· + ·) w).toNat = (w.toNat + total ws) % 2 ^ 64 := by
  induction ws generalizing w with
  | nil => exact (Nat.mod_eq_of_lt w.toNat_lt).symm
  | cons v ws ih =>
    rw [List.foldl_cons, ih, UInt64.toNat_add, Nat.mod_add_mod, total, total, List.map_cons,
      List.sum_cons, Nat.add_assoc]

theorem toNat_mean {ws : List UInt64} (hlength : ws.length < 2 ^ 64) :
    (mean ws).toNat = total ws % 2 ^ 64 / ws.length := by
  rw [mean, UInt64.toNat_div, toNat_foldl_add, UInt64.toNat_ofNat_of_lt' hlength]
  simp

/-- What was wrapped around is too far off for the same quotient. -/
theorem wrapped_div_eq_iff {m n : Nat} (hpos : 0 < n) (hn : n < 2 ^ 64) :
    m % 2 ^ 64 / n = m / n ↔ m < 2 ^ 64 := by
  refine ⟨fun hsame => ?_, fun hsmall => by rw [Nat.mod_eq_of_lt hsmall]⟩
  by_contra hlarge
  have hless : m % 2 ^ 64 + n ≤ m := by omega
  have hquotients := Nat.div_le_div_right (c := n) hless
  rw [Nat.add_div_right _ hpos] at hquotients
  omega

/-- **The mean is exact** just if the durations do not add up to more than a word. -/
theorem toNat_mean_eq_iff {ds : List UInt64} (hlength : ds.length < 2 ^ 64) :
    (mean ds).toNat = wholeMean ds ↔ total ds < 2 ^ 64 := by
  rw [toNat_mean hlength, wholeMean]
  cases ds with
  | nil => decide
  | cons d ds => exact wrapped_div_eq_iff (Nat.succ_pos _) hlength

/-- The square of a difference of words is wrapped around, whichever of them is the greater one. -/
theorem toNat_square (d m : UInt64) :
    ((d - m) * (d - m)).toNat = ((d.toNat : Int) - m.toNat).natAbs ^ 2 % 2 ^ 64 := by
  wlog h : m ≤ d generalizing d m
  · rw [show (d - m) * (d - m) = (m - d) * (m - d) by grind,
      ← Int.natAbs_neg, Int.neg_sub]
    exact this m d (UInt64.le_of_lt (UInt64.not_le.mp h))
  · have habs : ((d.toNat : Int) - m.toNat).natAbs = d.toNat - m.toNat := by
      rw [UInt64.le_iff_toNat_le] at h
      omega
    rw [UInt64.toNat_mul, UInt64.toNat_sub_of_le _ _ h, habs, Nat.pow_two]

/-- The words for the squared deviations of durations from their mean. -/
def squares (ds : List UInt64) : List UInt64 := ds.map fun d => (d - mean ds) * (d - mean ds)

theorem spread_eq (ds : List UInt64) : spread ds = mean (squares ds) := rfl

theorem total_squares {ds : List UInt64} (hmean : (mean ds).toNat = wholeMean ds) :
    total (squares ds) % 2 ^ 64 = scatter ds % 2 ^ 64 := by
  have hwords : (squares ds).map UInt64.toNat =
      ds.map ((fun x => x % 2 ^ 64) ∘ fun d => (deviation ds d).natAbs ^ 2) := by
    rw [squares, List.map_map]
    refine List.map_congr_left fun d _ => ?_
    rw [Function.comp_apply, toNat_square, hmean]
    rfl
  rw [total, hwords, ← List.map_map, ← List.sum_nat_mod, scatter]

/-- **The spread is exact**, where the mean is, just if the squared deviations do not add up to more
than a word. -/
theorem toNat_spread_eq_iff {ds : List UInt64} (hlength : ds.length < 2 ^ 64)
    (hmean : (mean ds).toNat = wholeMean ds) :
    (spread ds).toNat = wholeSpread ds ↔ scatter ds < 2 ^ 64 := by
  have hsquares : (squares ds).length = ds.length := List.length_map _
  rw [spread_eq, toNat_mean (hsquares ▸ hlength), hsquares, total_squares hmean, wholeSpread]
  cases ds with
  | nil => decide
  | cons d ds => exact wrapped_div_eq_iff (Nat.succ_pos _) hlength

/-! ## Signed words -/

/-- How far a duration is from the mean, as a signed word. -/
def difference (ds : List UInt64) (d : UInt64) : Int64 := d.toInt64 - (mean ds).toInt64

/-- Whether words have a sign makes no difference to the squares. -/
theorem squares_eq (ds : List UInt64) :
    squares ds = ds.map fun d => (difference ds d * difference ds d).toUInt64 := by
  simp [squares, difference]

/-- Each word on the way to the mean and the spread holds the number that it stands for. -/
structure Faithful (ds : List UInt64) : Prop where
  sum : (ds.foldl (· + ·) 0).toNat = total ds
  mean : (mean ds).toNat = wholeMean ds
  signedMean : (Workload.mean ds).toInt64.toInt = wholeMean ds
  signed : ∀ d ∈ ds, d.toInt64.toInt = d.toNat
  difference : ∀ d ∈ ds, (difference ds d).toInt = deviation ds d
  square : ∀ d ∈ ds, (Workload.difference ds d * Workload.difference ds d).toInt =
    ((deviation ds d).natAbs ^ 2 : Nat)
  squares : ((squares ds).foldl (· + ·) 0).toNat = scatter ds
  spread : (spread ds).toNat = wholeSpread ds

/-- No number on the way to the mean and the spread leaves the range of its word. -/
structure Fits (ds : List UInt64) : Prop where
  total : total ds < 2 ^ 64
  signed : ∀ d ∈ ds, d.toNat < 2 ^ 63
  square : ∀ d ∈ ds, (deviation ds d).natAbs ^ 2 < 2 ^ 63
  scatter : scatter ds < 2 ^ 64

theorem toInt_toInt64 (w : UInt64) : w.toInt64.toInt = (w.toNat : Int).bmod (2 ^ 64) :=
  BitVec.toInt_eq_toNat_bmod w.toBitVec

theorem toInt_toInt64_of_lt {w : UInt64} (h : w.toNat < 2 ^ 63) : w.toInt64.toInt = w.toNat := by
  rw [toInt_toInt64]
  exact Int.bmod_eq_of_le (by omega) (by omega)

theorem sum_map_le {ds : List UInt64} {f : UInt64 → Nat} {bound : Nat}
    (h : ∀ d ∈ ds, f d ≤ bound) : (ds.map f).sum ≤ ds.length * bound := by
  have hsum := List.sum_le_card_nsmul (ds.map f) bound (by simpa using h)
  rwa [List.length_map] at hsum

theorem wholeMean_le {ds : List UInt64} {bound : Nat} (h : ∀ d ∈ ds, d.toNat ≤ bound) :
    wholeMean ds ≤ bound :=
  Nat.div_le_of_le_mul (sum_map_le h)

/-- A mean of words that keep their sign keeps its own. -/
theorem toInt_toInt64_mean {ds : List UInt64} (hmean : (mean ds).toNat = wholeMean ds)
    (hsigned : ∀ d ∈ ds, d.toNat < 2 ^ 63) : (mean ds).toInt64.toInt = wholeMean ds := by
  have hlow : wholeMean ds ≤ 2 ^ 63 - 1 := wholeMean_le fun d hd => Nat.le_pred_of_lt (hsigned d hd)
  rw [toInt_toInt64_of_lt (by omega), hmean]

theorem Fits.faithful {ds : List UInt64} (hlength : ds.length < 2 ^ 64) (h : Fits ds) :
    Faithful ds := by
  have hmean : (mean ds).toNat = wholeMean ds := (toNat_mean_eq_iff hlength).mpr h.total
  have hsigned : (mean ds).toInt64.toInt = wholeMean ds := toInt_toInt64_mean hmean h.signed
  have hdifference : ∀ d ∈ ds, (difference ds d).toInt = deviation ds d := fun d hd => by
    have hsquare := h.square d hd
    have hclose : (deviation ds d).natAbs < 2 ^ 32 := by
      by_contra hfar
      have := Nat.pow_le_pow_left (Nat.le_of_not_lt hfar) 2
      omega
    rw [deviation] at hclose
    rw [difference, Int64.toInt_sub, toInt_toInt64_of_lt (h.signed d hd), hsigned]
    exact Int.bmod_eq_of_le (by omega) (by omega)
  exact {
    sum := by rw [toNat_foldl_add, UInt64.toNat_zero, Nat.zero_add, Nat.mod_eq_of_lt h.total]
    mean := hmean
    signedMean := hsigned
    signed := fun d hd => toInt_toInt64_of_lt (h.signed d hd)
    difference := hdifference
    square := fun d hd => by
      have hsquare := h.square d hd
      rw [Int64.toInt_mul, hdifference d hd, ← Int.natAbs_mul_self, ← Nat.pow_two]
      exact Int.bmod_eq_of_le (by omega) (by omega)
    squares := by
      rw [toNat_foldl_add, UInt64.toNat_zero, Nat.zero_add, total_squares hmean,
        Nat.mod_eq_of_lt h.scatter]
    spread := (toNat_spread_eq_iff hlength hmean).mpr h.scatter }

theorem Faithful.fits {ds : List UInt64} (h : Faithful ds) : Fits ds where
  total := h.sum ▸ UInt64.toNat_lt _
  signed d hd := by
    have hhigh := d.toInt64.toInt_lt
    rw [h.signed d hd] at hhigh
    omega
  square d hd := by
    have hhigh := Int64.toInt_lt (Workload.difference ds d * Workload.difference ds d)
    rw [h.square d hd] at hhigh
    omega
  scatter := h.squares ▸ UInt64.toNat_lt _

/-- A single duration is its own mean. -/
theorem deviation_singleton (d : UInt64) : deviation [d] d = 0 := by
  simp [deviation, wholeMean, total]

theorem natAbs_deviation_le {ds : List UInt64} {bound : Nat} (hshort : ∀ d ∈ ds, d.toNat ≤ bound) :
    ∀ d ∈ ds, (deviation ds d).natAbs ≤ bound := fun d hd => by
  have hown := hshort d hd
  have hmean := wholeMean_le hshort
  rw [deviation]
  omega

/-- **Short durations fit**: it is enough that their greatest square, taken so often as there are
durations, is in the range of a word. -/
theorem fits_of_short {ds : List UInt64} {bound : Nat} (hshort : ∀ d ∈ ds, d.toNat ≤ bound)
    (hfew : ds.length * bound ^ 2 < 2 ^ 64) : Fits ds := by
  have hsquares : ∀ d ∈ ds, (deviation ds d).natAbs ^ 2 ≤ bound ^ 2 := fun d hd =>
    Nat.pow_le_pow_left (natAbs_deviation_le hshort d hd) 2
  exact {
    total := by
      have hlinear : ds.length * bound ≤ ds.length * bound ^ 2 :=
        Nat.mul_le_mul_left _ (Nat.le_self_pow two_ne_zero bound)
      exact Nat.lt_of_le_of_lt ((sum_map_le hshort).trans hlinear) hfew
    signed := fun d hd => by
      by_contra hlong
      have hone : 1 * bound ^ 2 ≤ ds.length * bound ^ 2 :=
        Nat.mul_le_mul_right _ (List.length_pos_of_mem hd)
      have hlarge := Nat.pow_le_pow_left (Nat.le_trans (Nat.le_of_not_lt hlong) (hshort d hd)) 2
      omega
    square := fun d hd => by
      rcases Nat.lt_or_ge 1 ds.length with hseveral | hsingle
      · have htwo : 2 * bound ^ 2 ≤ ds.length * bound ^ 2 := Nat.mul_le_mul_right _ hseveral
        have hsquare := hsquares d hd
        omega
      · -- The bound of a single duration may have a square of up to `2 ^ 64`.
        obtain ⟨d', rfl⟩ := List.length_eq_one_iff.mp
          (Nat.le_antisymm hsingle (List.length_pos_of_mem hd))
        obtain rfl := List.mem_singleton.mp hd
        rw [deviation_singleton]
        exact Nat.two_pow_pos 63
    scatter := Nat.lt_of_le_of_lt (sum_map_le hsquares) hfew }

/-! ## Overflow checks -/

/-- No operation on the way to the mean and the spread overflows. A duration that is taken for a
signed number may lose its value all the same. -/
structure Passes (ds : List UInt64) : Prop where
  total : total ds < 2 ^ 64
  difference : ∀ d ∈ ds, (difference ds d).toInt = d.toInt64.toInt - (mean ds).toInt64.toInt
  square : ∀ d ∈ ds, (Workload.difference ds d * Workload.difference ds d).toInt =
    (Workload.difference ds d).toInt * (Workload.difference ds d).toInt
  squares : Workload.total (squares ds) < 2 ^ 64

theorem mean?_eq_some_iff {ws : List UInt64} {m : UInt64} :
    mean? ws = some m ↔ total ws < 2 ^ 64 ∧ m = mean ws := by
  have hwrapped : UInt64.ofNat (total ws) = ws.foldl (· + ·) 0 := by
    rw [← UInt64.toNat_inj, toNat_foldl_add, UInt64.toNat_ofNat', UInt64.toNat_zero, Nat.zero_add]
  simp only [mean?, Checked.sum_eq, Option.map_eq_some_iff, Checked.word_eq_some_iff_lt]
  rw [← total, hwrapped]
  constructor
  · rintro ⟨_, ⟨hfits, rfl⟩, rfl⟩
    exact ⟨hfits, rfl⟩
  · rintro ⟨hfits, rfl⟩
    exact ⟨_, ⟨hfits, rfl⟩, rfl⟩

/-- A word that has a number is what the number is wrapped around to. -/
theorem eq_of_toInt_eq_bmod {w wrapped : Int64} {n : Int} (hw : n = w.toInt)
    (hwrapped : wrapped.toInt = n.bmod (2 ^ 64)) : w = wrapped := by
  have hlow := w.le_toInt
  have hhigh := w.toInt_lt
  rw [← Int64.toInt_inj, hwrapped, hw]
  exact (Int.bmod_eq_of_le (by omega) (by omega)).symm

theorem square?_eq_some_iff (ds : List UInt64) (d s : UInt64) :
    square? (mean ds) d = some s ↔
      ((difference ds d).toInt = d.toInt64.toInt - (mean ds).toInt64.toInt ∧
        (difference ds d * difference ds d).toInt =
          (difference ds d).toInt * (difference ds d).toInt) ∧
      s = (difference ds d * difference ds d).toUInt64 := by
  simp only [square?, Option.bind_eq_bind, Option.bind_eq_some_iff, Checked.signed_eq_some_iff,
    Option.pure_def, Option.some.injEq]
  constructor
  · rintro ⟨diff, hdiff, square, hsquare, rfl⟩
    obtain rfl : diff = difference ds d := eq_of_toInt_eq_bmod hdiff (Int64.toInt_sub ..)
    obtain rfl : square = difference ds d * difference ds d :=
      eq_of_toInt_eq_bmod hsquare (Int64.toInt_mul ..)
    exact ⟨⟨hdiff.symm, hsquare.symm⟩, rfl⟩
  · rintro ⟨⟨hdiff, hsquare⟩, rfl⟩
    exact ⟨_, hdiff.symm, _, hsquare.symm, rfl⟩

theorem spread?_eq_some_iff {ds : List UInt64} {v : UInt64} (htotal : total ds < 2 ^ 64) :
    spread? (mean ds) ds = some v ↔ Passes ds ∧ v = spread ds := by
  have hsquares := Checked.mapM_eq_some_iff fun d (_ : d ∈ ds) => square?_eq_some_iff ds d
  rw [← squares_eq] at hsquares
  simp only [spread?, Option.bind_eq_some_iff, hsquares, mean?_eq_some_iff]
  constructor
  · rintro ⟨ws, ⟨hpass, rfl⟩, hsum, rfl⟩
    exact ⟨⟨htotal, fun d hd => (hpass d hd).1, fun d hd => (hpass d hd).2, hsum⟩, rfl⟩
  · rintro ⟨hpass, rfl⟩
    exact ⟨_, ⟨fun d hd => ⟨hpass.difference d hd, hpass.square d hd⟩, rfl⟩, hpass.squares, rfl⟩

/-- Squares of signed words that do not overflow are the squares of the deviations. -/
theorem total_squares_of_exact {ds : List UInt64}
    (hsquare : ∀ d ∈ ds, (difference ds d * difference ds d).toInt =
      ((deviation ds d).natAbs ^ 2 : Nat)) : total (squares ds) = scatter ds := by
  rw [total, scatter, squares_eq, List.map_map]
  refine congrArg List.sum (List.map_congr_left fun d hd => ?_)
  have hnonneg : 0 ≤ difference ds d * difference ds d := by
    rw [Int64.le_iff_toInt_le, hsquare d hd]
    exact Int.natCast_nonneg _
  have hword : (difference ds d * difference ds d).toUInt64.toNat =
      (difference ds d * difference ds d).toInt.toNat := Int64.toNat_toUInt64_of_le hnonneg
  rw [Function.comp_apply, hword, hsquare d hd, Int.toNat_natCast]

/-- **Nothing leaves its range** just if no operation overflows and no duration loses its value. -/
theorem fits_iff_passes {ds : List UInt64} (hlength : ds.length < 2 ^ 64) :
    Fits ds ↔ Passes ds ∧ ∀ d ∈ ds, d.toNat < 2 ^ 63 := by
  constructor
  · intro h
    have hexact := h.faithful hlength
    refine ⟨⟨h.total, fun d hd => ?_, fun d hd => ?_, ?_⟩, h.signed⟩
    · rw [hexact.difference d hd, hexact.signed d hd, hexact.signedMean, deviation]
    · rw [hexact.square d hd, hexact.difference d hd, ← Int.natAbs_mul_self, ← Nat.pow_two]
    · rw [total_squares_of_exact hexact.square]
      exact h.scatter
  · rintro ⟨hpass, hsigned⟩
    have hmean : (mean ds).toNat = wholeMean ds := (toNat_mean_eq_iff hlength).mpr hpass.total
    have hdifference : ∀ d ∈ ds, (difference ds d).toInt = deviation ds d := fun d hd => by
      rw [hpass.difference d hd, toInt_toInt64_of_lt (hsigned d hd),
        toInt_toInt64_mean hmean hsigned, deviation]
    have hsquare : ∀ d ∈ ds, (difference ds d * difference ds d).toInt =
        ((deviation ds d).natAbs ^ 2 : Nat) := fun d hd => by
      rw [hpass.square d hd, hdifference d hd, ← Int.natAbs_mul_self, ← Nat.pow_two]
    refine ⟨hpass.total, hsigned, fun d hd => ?_, ?_⟩
    · have hhigh := Int64.toInt_lt (difference ds d * difference ds d)
      rw [hsquare d hd] at hhigh
      omega
    · rw [← total_squares_of_exact hsquare]
      exact hpass.squares

end Workload

namespace Register

open Workload

variable {α ω : Type}

theorem length_durations_le (r : Register α ω) : r.durations.length ≤ r.count := by
  rw [durations, List.length_map, count]
  exact List.length_filter_le ..

/-- Overflow checks make no difference where they do not break off. -/
theorem workload?_eq_some_iff (r : Register α ω) (w : Workload) :
    r.workload? = some w ↔ Passes r.durations ∧ w = r.workload := by
  simp only [workload?, Option.bind_eq_bind, Option.bind_eq_some_iff, mean?_eq_some_iff,
    Option.pure_def, Option.some.injEq]
  constructor
  · rintro ⟨m, ⟨htotal, rfl⟩, v, hspread, rfl⟩
    obtain ⟨hpass, rfl⟩ := (spread?_eq_some_iff htotal).mp hspread
    exact ⟨hpass, rfl⟩
  · rintro ⟨hpass, rfl⟩
    exact ⟨_, ⟨hpass.total, rfl⟩, _, (spread?_eq_some_iff hpass.total).mpr ⟨hpass, rfl⟩, rfl⟩

/-- **The timing of a workload.** The mean is that of the durations of the completed qubits just if
their sum is in the range of a word, and so are mean and spread together just if the sum of the
squared deviations is in this range too. Each word on the way holds the number that it stands for
just if none of these numbers leaves the range of its word. Durations up to a bound whose square,
taken as often as there are durations, is in the range of a word ensure it. A build with overflow
checks breaks off just if an operation on the way overflows; they differ from all these numbers only
where a duration is too long for a signed word, which no check looks at. -/
theorem exact_timing (r : Register α ω) (hcount : r.count < 2 ^ 64) :
    let ds := r.durations
    (r.workload.meanTime.toNat = wholeMean ds ↔ total ds < 2 ^ 64) ∧
      (r.workload.meanTime.toNat = wholeMean ds ∧ r.workload.variance.toNat = wholeSpread ds ↔
        total ds < 2 ^ 64 ∧ scatter ds < 2 ^ 64) ∧
      (Faithful ds ↔ Fits ds) ∧
      (∀ bound, (∀ d ∈ ds, d.toNat ≤ bound) → ds.length * bound ^ 2 < 2 ^ 64 → Fits ds) ∧
      (∀ w, r.workload? = some w ↔ Passes ds ∧ w = r.workload) ∧
      (Fits ds ↔ Passes ds ∧ ∀ d ∈ ds, d.toNat < 2 ^ 63) := by
  intro ds
  have hlength : ds.length < 2 ^ 64 := Nat.lt_of_le_of_lt r.length_durations_le hcount
  have hmean : r.workload.meanTime.toNat = wholeMean ds ↔ total ds < 2 ^ 64 :=
    toNat_mean_eq_iff hlength
  refine ⟨hmean, ?_, ⟨Faithful.fits, Fits.faithful hlength⟩, fun bound => fits_of_short,
    r.workload?_eq_some_iff, fits_iff_passes hlength⟩
  rw [← hmean]
  exact and_congr_right fun hsame => toNat_spread_eq_iff hlength hsame

section Samples

open Workbench

/-- A register that has run a qubit for each of some times, without waiting for all of them. -/
def timed (times : List UInt64) : Register Val World :=
  ({ qubits := times.map fun ms => scripted 0 [.advance ms], waitsForAll := false } :
    Register Val World).execute {} |>.2.1

/-- The greatest difference of two durations that fits: one more, and a square leaves the range of a
signed word, although the spread is still exact. -/
theorem exact_timing_farApart :
    (timed [0, 6074000998]).count < 2 ^ 64 ∧ Faithful (timed [0, 6074000998]).durations ∧
      (timed [0, 6074000998]).workload? = some (timed [0, 6074000998]).workload ∧
      (timed [0, 6074000998]).workload.meanTime = 3037000499 ∧
      (timed [0, 6074000998]).workload.variance = 9223372030926249001 ∧
      (timed [0, 6074000999]).workload? = none ∧
      ¬ Faithful (timed [0, 6074000999]).durations ∧
      (timed [0, 6074000999]).workload.variance.toNat =
        wholeSpread (timed [0, 6074000999]).durations ∧
      Fits (timed [10, 20, 30]).durations := by
  have hcount : (timed [0, 6074000998]).count < 2 ^ 64 := by decide +kernel
  have hfits : Fits (timed [0, 6074000998]).durations := by
    rw [show (timed [0, 6074000998]).durations = [0, 6074000998] by decide +kernel]
    refine ⟨by decide +kernel, ?_, ?_, by decide +kernel⟩
    · exact List.forall_mem_cons.mpr
        ⟨by decide +kernel, List.forall_mem_singleton.mpr (by decide +kernel)⟩
    · exact List.forall_mem_cons.mpr
        ⟨by decide +kernel, List.forall_mem_singleton.mpr (by decide +kernel)⟩
  have hshort : Fits (timed [10, 20, 30]).durations := by
    refine (exact_timing _ (by decide +kernel)).2.2.2.1 30 ?_ (by decide +kernel)
    rw [show (timed [10, 20, 30]).durations = [10, 20, 30] by decide +kernel]
    exact List.forall_mem_cons.mpr ⟨by decide, List.forall_mem_cons.mpr
      ⟨by decide, List.forall_mem_singleton.mpr (by decide)⟩⟩
  obtain ⟨-, -, hfaithful, -, hchecked, hpasses⟩ := exact_timing _ hcount
  refine ⟨hcount, hfaithful.mpr hfits, (hchecked _).mpr ⟨(hpasses.mp hfits).1, rfl⟩,
    by decide +kernel, by decide +kernel, by decide +kernel, fun h => ?_, by decide +kernel, hshort⟩
  exact absurd (h.fits.square 6074000999 (by decide +kernel)) (by decide +kernel)

/-- Four qubits, two of which take no time and the others some weeks. -/
def longRun : Register Val World := timed [0, 0, 4294967296, 4294967296]

/-- **The spread can wrap around**: each squared deviation is `2 ^ 62`, but their sum is lost, and
the durations count as equal, which makes for another recommendation. With overflow checks there are
no figures at all. -/
theorem wrapped_spread :
    longRun.count = 4 ∧ longRun.durations = [0, 0, 4294967296, 4294967296] ∧
      longRun.workload.meanTime.toNat = wholeMean longRun.durations ∧
      wholeSpread longRun.durations = 4611686018427387904 ∧ longRun.workload? = none ∧
      longRun.workload.variance = 0 ∧ ¬ Faithful longRun.durations ∧
      (Experience.ofSettings .standard : Experience Rat).recommend longRun.workload =
        .firstWins ∧
      (Experience.ofSettings .standard : Experience Rat).recommend
        { longRun.workload with variance := 4611686018427387904 } = .validate := by
  refine ⟨by decide +kernel, by decide +kernel, by decide +kernel, by decide +kernel,
    by decide +kernel, by decide +kernel, fun h => ?_, by decide +kernel, by decide +kernel⟩
  exact absurd h.fits.scatter (by decide +kernel)

end Samples

end Register

end Superpose
