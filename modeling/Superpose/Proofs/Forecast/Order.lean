import Superpose.Proofs.Register.ExactlyOnce
import Superpose.Proofs.Workbench.Script
import Superpose.Workbench.Shuffle

/-!
# The order that a forecast proposes

A forecast with an estimate for every qubit of a register proposes an order of them: one that it
sorts by the estimates, one that it shuffles, or the order by index. Sorting and shuffling only move
indices about (`sortBy_perm`, `shuffle_perm`), and a sort keeps those in ascending order between
which the estimates do not decide (`pairwise_sortBy`). An arrangement of all indices is what a
register takes for an order, and leaves nothing to be completed, so a run in it hands over every
qubit that takes part once (`eachOnce_of_perm`).
-/

namespace Superpose

/-! ## Shuffling -/

/-- A shuffle moves the elements of a list about and does nothing else. -/
def Shuffler.Permutes (ρ : Type) [Shuffler ρ] : Prop :=
  ∀ (is : List Nat) (source : ρ), (shuffle is source).1.Perm is

namespace Workbench.Stream

variable {β : Type}

theorem exchange_perm (xs : Array β) (i j : Nat) : (exchange xs i j).Perm xs := by
  unfold exchange
  split
  · exact Array.swap_perm _ _
  · exact .refl xs

theorem shuffleFrom_perm (last : Nat) (xs : Array β) (s : Stream) :
    (shuffleFrom last xs s).1.Perm xs := by
  induction last generalizing xs s with
  | zero => exact .refl xs
  | succ last ih => exact (ih _ _).trans (exchange_perm xs _ _)

/-- **A shuffled list is a permutation**, whatever is drawn. -/
theorem shuffle_perm (xs : List β) (s : Stream) : (s.shuffle xs).1.Perm xs :=
  Array.perm_iff_toList_perm.mp (shuffleFrom_perm _ xs.toArray s)

theorem permutes : Shuffler.Permutes Stream := fun is s => s.shuffle_perm is

end Workbench.Stream

namespace Forecast

/-! ## Sorting -/

/-- A comparison under which neither of two indices coming first is transitive, as it is for the
comparison of keys in a linear order. -/
structure Weak (before : Nat → Nat → Bool) : Prop where
  asymm : ∀ {i j}, before i j = true → before j i = false
  trans : ∀ {i j k}, before i j = false → before j k = false → before i k = false

/-- Whether a stable sort of ascending indices puts one before another. -/
def Ranks (before : Nat → Nat → Bool) (i j : Nat) : Prop :=
  before i j = true ∨ before j i = false ∧ i < j

theorem insertBy_perm (before : Nat → Nat → Bool) (i : Nat) (js : List Nat) :
    (insertBy before i js).Perm (i :: js) := by
  induction js with
  | nil => exact .refl [i]
  | cons j js ih =>
    unfold insertBy
    split
    · exact (ih.cons j).trans (.swap i j js)
    · exact .refl _

theorem sortBy_perm (before : Nat → Nat → Bool) (is : List Nat) : (sortBy before is).Perm is := by
  induction is with
  | nil => exact .refl []
  | cons i is ih => exact (insertBy_perm before i _).trans (ih.cons i)

section Stable

variable {before : Nat → Nat → Bool} (hweak : Weak before)

include hweak

/-- An index below all others is put where it belongs. -/
theorem pairwise_insertBy {i : Nat} {js : List Nat} (hbelow : ∀ j ∈ js, i < j)
    (hsorted : js.Pairwise (Ranks before)) : (insertBy before i js).Pairwise (Ranks before) := by
  induction js with
  | nil => exact List.pairwise_singleton _ i
  | cons j js ih =>
    obtain ⟨hfirst, hrest⟩ := List.pairwise_cons.mp hsorted
    obtain ⟨hhere, hthere⟩ := List.forall_mem_cons.mp hbelow
    unfold insertBy
    split
    · next hpassed =>
      refine List.pairwise_cons.mpr ⟨fun k hk => ?_, ih hthere hrest⟩
      rcases List.mem_cons.mp ((insertBy_perm before i js).mem_iff.mp hk) with rfl | hk
      · exact .inl hpassed
      · exact hfirst k hk
    · next hstays =>
      rw [Bool.not_eq_true] at hstays
      refine List.pairwise_cons.mpr ⟨List.forall_mem_cons.mpr ⟨.inr ⟨hstays, hhere⟩, ?_⟩, hsorted⟩
      -- nothing behind `j` comes before it, and `j` does not come before `i`
      intro k hk
      have hbehind : before k j = false := by
        rcases hfirst k hk with hranked | ⟨hunranked, -⟩
        · exact hweak.asymm hranked
        · exact hunranked
      exact .inr ⟨hweak.trans hbehind hstays, hthere k hk⟩

theorem pairwise_sortBy {is : List Nat} (hascending : is.Pairwise (· < ·)) :
    (sortBy before is).Pairwise (Ranks before) := by
  induction is with
  | nil => exact .nil
  | cons i is ih =>
    obtain ⟨hbelow, hrest⟩ := List.pairwise_cons.mp hascending
    refine pairwise_insertBy hweak (fun j hj => ?_) (ih hrest)
    exact hbelow j ((sortBy_perm before is).mem_iff.mp hj)

end Stable

/-- Shorter times come first. -/
theorem weak_shorter (time : Nat → UInt64) : Weak fun i j => decide (time i < time j) where
  asymm h := decide_eq_false (UInt64.not_lt.mpr (UInt64.le_of_lt (of_decide_eq_true h)))
  trans h h' := decide_eq_false (UInt64.not_lt.mpr (UInt64.le_trans
    (UInt64.not_lt.mp (of_decide_eq_false h')) (UInt64.not_lt.mp (of_decide_eq_false h))))

/-- Longer times come first. -/
theorem weak_longer (time : Nat → UInt64) : Weak fun i j => decide (time j < time i) where
  asymm h := (weak_shorter time).asymm h
  trans h h' := (weak_shorter time).trans h' h

theorem ranks_shorter_iff {time : Nat → UInt64} {i j : Nat} :
    Ranks (fun i j => decide (time i < time j)) i j ↔
      time i < time j ∨ time i = time j ∧ i < j := by
  simp only [Ranks, decide_eq_true_eq, decide_eq_false_iff_not, UInt64.lt_iff_toNat_lt,
    ← UInt64.toNat_inj]
  omega

theorem ranks_longer_iff {time : Nat → UInt64} {i j : Nat} :
    Ranks (fun i j => decide (time j < time i)) i j ↔
      time j < time i ∨ time i = time j ∧ i < j := by
  simp only [Ranks, decide_eq_true_eq, decide_eq_false_iff_not, UInt64.lt_iff_toNat_lt,
    ← UInt64.toNat_inj]
  omega

/-! ## Orders -/

variable {α ω ρ : Type} [Shuffler ρ]

theorem order_eq_none_iff (f : Forecast ρ) (r : Register α ω) :
    (f.order r).1 = none ↔ f.predictions = [] ∨ f.predictions.length ≠ r.count := by
  rw [← List.isEmpty_iff, ← bne_iff_ne, ← Bool.or_eq_true]
  unfold order
  split
  · next hunfit => exact iff_of_true rfl hunfit
  · next hfit =>
    refine iff_of_false ?_ hfit
    repeat' split
    all_goals exact Option.some_ne_none _

/-- What a plan makes of the indices of a register. -/
inductive Arranged (f : Forecast ρ) (count : Nat) : List Nat → Prop
  | longest (hplan : f.plan = .longestFirst ∨ f.plan = .predicted) :
      Arranged f count (sortBy (fun i j => decide (f.timeOf j < f.timeOf i)) (List.range count))
  | shortest (hplan : f.plan = .shortestFirst) :
      Arranged f count (sortBy (fun i j => decide (f.timeOf i < f.timeOf j)) (List.range count))
  | shuffled (hplan : f.plan = .random) (hon : f.settings.randomize = true) :
      Arranged f count (Shuffler.shuffle (List.range count) f.shuffler).1
  | kept (hplan : f.plan = .sequential ∨ f.plan = .balanced ∨
        f.plan = .random ∧ f.settings.randomize = false) :
      Arranged f count (List.range count)

theorem arranged_order {f : Forecast ρ} {r : Register α ω} {order : List Nat}
    (h : (f.order r).1 = some order) : Arranged f r.count order := by
  unfold Forecast.order at h
  split at h
  · cases h
  · cases hplan : f.plan with
    | longestFirst =>
      simp only [hplan, Option.some.injEq] at h
      exact h ▸ .longest (.inl hplan)
    | predicted =>
      simp only [hplan, Option.some.injEq] at h
      exact h ▸ .longest (.inr hplan)
    | shortestFirst =>
      simp only [hplan, Option.some.injEq] at h
      exact h ▸ .shortest hplan
    | random =>
      cases hon : f.settings.randomize with
      | true =>
        simp only [hplan, hon, ↓reduceIte, Option.some.injEq] at h
        exact h ▸ .shuffled hplan hon
      | false =>
        simp only [hplan, hon, Bool.false_eq_true, ↓reduceIte, Option.some.injEq] at h
        exact h ▸ .kept (.inr (.inr ⟨hplan, hon⟩))
    | sequential =>
      simp only [hplan, Option.some.injEq] at h
      exact h ▸ .kept (.inl hplan)
    | balanced =>
      simp only [hplan, Option.some.injEq] at h
      exact h ▸ .kept (.inr (.inl hplan))

namespace Arranged

variable {f : Forecast ρ} {count : Nat} {order : List Nat} (h : Arranged f count order)

include h

/-- An arrangement keeps every index, if a plan that leaves it to chance shuffles with a source that
does. -/
theorem perm (hperm : f.plan = .random → f.settings.randomize = true → Shuffler.Permutes ρ) :
    order.Perm (List.range count) := by
  cases h with
  | longest | shortest => exact sortBy_perm _ _
  | shuffled hplan hon => exact hperm hplan hon _ _
  | kept => exact .refl _

theorem longest_first (hplan : f.plan = .longestFirst ∨ f.plan = .predicted) :
    order.Pairwise fun i j => f.timeOf j < f.timeOf i ∨ f.timeOf i = f.timeOf j ∧ i < j := by
  cases h with
  | longest =>
    exact (pairwise_sortBy (weak_longer f.timeOf) List.pairwise_lt_range).imp ranks_longer_iff.mp
  | shortest hother | shuffled hother | kept hother =>
    rcases hplan with hplan | hplan <;> simp [hplan] at hother

theorem shortest_first (hplan : f.plan = .shortestFirst) :
    order.Pairwise fun i j => f.timeOf i < f.timeOf j ∨ f.timeOf i = f.timeOf j ∧ i < j := by
  cases h with
  | shortest =>
    exact (pairwise_sortBy (weak_shorter f.timeOf) List.pairwise_lt_range).imp ranks_shorter_iff.mp
  | longest hother | shuffled hother | kept hother => simp [hplan] at hother

theorem eq_range (hplan : f.plan = .sequential ∨ f.plan = .balanced ∨
    f.plan = .random ∧ f.settings.randomize = false) : order = List.range count := by
  cases h with
  | kept => rfl
  | longest hother | shortest hother | shuffled hother => grind

end Arranged

end Forecast

/-! ## Running in an order -/

namespace Register

variable {α ω : Type} [Clocked ω]

/-- A run in a given order hands over every qubit that takes part once, and runs no body twice. -/
structure EachOnce (r : Register α ω) (w : ω) (order : List Nat) : Prop where
  accepted : ∀ fault, (r.executeOrdered w order).1 ≠ .refused fault
  /-- The waves hold the qubits that take part, each once and in the order. -/
  planned : (r.planned order).flatten = order.filter r.isEnabled
  perm : (r.planned order).flatten.Perm ((List.range r.count).filter r.isEnabled)
  handed_prefix : r.handedOver w order <+: r.planned order
  handed_all : (r.executeOrdered w order).1 ≠ .panicked → r.handedOver w order = r.planned order
  once : ((r.runsOf w order).map Prod.fst).Nodup
  /-- Where the dispatcher runs every job and none breaks off, no body is left out. -/
  all : r.dispatcher.Complete → (∀ run ∈ r.runsOf w order, run.2 ≠ .panicked) →
    ∀ (i : Nat) (q : Qubit α ω), r.qubits[i]? = some q → q.enabled = true → q.body ≠ none →
      i ∈ (r.runsOf w order).map Prod.fst

section Perm

variable {r : Register α ω} {order : List Nat} (hperm : order.Perm (List.range r.count))

include hperm

omit [Clocked ω] in
theorem isOrder_of_perm : IsOrder r.count order where
  nodup := hperm.nodup_iff.mpr List.nodup_range
  lt _ hi := List.mem_range.mp (hperm.mem_iff.mp hi)

omit [Clocked ω] in
/-- An order of all qubits leaves nothing to be completed. -/
theorem completeOrder_of_perm : completeOrder r.count order = order := by
  have hnone : (List.range r.count).filter (fun i => !order.contains i) = [] := by
    refine List.filter_eq_nil_iff.mpr fun i hi => ?_
    simpa using hperm.mem_iff.mpr hi
  rw [completeOrder, hnone, List.append_nil]

/-- A register that refuses an order of all qubits does so for another reason. -/
theorem ne_invalidOrder_of_perm (w : ω) (reason : String) :
    (r.executeOrdered w order).1 ≠ .refused (.register (.invalidOrder reason)) := by
  rw [executeOrdered_of_isOrder (isOrder_of_perm hperm)]
  cases hready : r.obstacle with
  | none =>
    rw [runInOrder_of_ready hready]
    split <;> exact nofun
  | some fault =>
    rw [runInOrder, hready]
    rintro hrefused
    obtain rfl := Outcome.refused.inj hrefused
    unfold obstacle at hready
    split at hready
    · cases hready
    · obtain ⟨fault, -, hfault⟩ := Option.map_eq_some_iff.mp hready
      cases hfault

/-- **An arrangement of all indices is an order in which every qubit is run once.** -/
theorem eachOnce_of_perm (hready : r.obstacle = none) (w : ω) : EachOnce r w order where
  accepted := accepted_of_isOrder hready (isOrder_of_perm hperm) w
  planned := by rw [planned, flatten_waves, completeOrder_of_perm hperm]
  perm := by
    rw [planned, flatten_waves, completeOrder_of_perm hperm]
    exact hperm.filter _
  handed_prefix := handed_prefix ..
  handed_all := handedOver_eq_planned hready (isOrder_of_perm hperm)
  once := nodup_runsOf hready (isOrder_of_perm hperm) w
  all hd hcalm i q hq hon hbody := by
    obtain ⟨q', -, hends⟩ := exists_getElem?_executeOrdered_of_enabled hready
      (isOrder_of_perm hperm) hd hcalm hq hon
    rcases hends with ⟨-, hreturned⟩ | ⟨-, hfailed | hnone⟩
    · exact List.mem_map_of_mem hreturned
    · exact List.mem_map_of_mem hfailed
    · exact absurd hnone hbody

end Perm

end Register

namespace Forecast

variable {α ω ρ : Type} [Shuffler ρ]

/-- **The proposed order.** A forecast proposes none exactly if it has no estimates, or not as many
as the register has qubits. What it proposes is an arrangement of all qubits: by the estimates,
longest or shortest first, with equal ones by index; or by index; or shuffled, by a source that only
moves them about. No register with so many qubits refuses it as an invalid order, and one that is
ready runs every qubit that takes part once. -/
theorem scheduled_order (f : Forecast ρ) (r : Register α ω)
    (hperm : f.plan = .random → f.settings.randomize = true → Shuffler.Permutes ρ) :
    ((f.order r).1 = none ↔ f.predictions = [] ∨ f.predictions.length ≠ r.count) ∧
      ∀ order, (f.order r).1 = some order →
        order.Perm (List.range r.count) ∧
        (f.plan = .longestFirst ∨ f.plan = .predicted → order.Pairwise fun i j =>
          f.timeOf j < f.timeOf i ∨ f.timeOf i = f.timeOf j ∧ i < j) ∧
        (f.plan = .shortestFirst → order.Pairwise fun i j =>
          f.timeOf i < f.timeOf j ∨ f.timeOf i = f.timeOf j ∧ i < j) ∧
        (f.plan = .sequential ∨ f.plan = .balanced ∨
            f.plan = .random ∧ f.settings.randomize = false →
          order = List.range r.count) ∧
        ∀ [Clocked ω] (r' : Register α ω) (w : ω), r'.count = r.count →
          (∀ reason, (r'.executeOrdered w order).1 ≠
            .refused (.register (.invalidOrder reason))) ∧
          (r'.obstacle = none → Register.EachOnce r' w order) := by
  refine ⟨f.order_eq_none_iff r, fun order hproposed => ?_⟩
  have harranged : Arranged f r.count order := arranged_order hproposed
  refine ⟨harranged.perm hperm, ?_, ?_, ?_, fun r' w hsame => ?_⟩
  · exact harranged.longest_first
  · exact harranged.shortest_first
  · exact harranged.eq_range
  · have hall : order.Perm (List.range r'.count) := hsame ▸ harranged.perm hperm
    exact ⟨Register.ne_invalidOrder_of_perm hall w, fun hready =>
      Register.eachOnce_of_perm hall hready w⟩

section Unequal

open Workbench

/-- Four qubits, two of which have results of one size, and one of which takes no part. -/
def unequal : Register Val World where
  qubits :=
    [{ scripted 0 [.add 1] with resultSize := 500 }, { scripted 1 [.fail] with resultSize := 2000 },
      { scripted 2 [.add 3] with resultSize := 500 },
      { scripted 3 [.add 4] with resultSize := 100, enabled := false }]
  dispatcher := .waves 2 true none

/-- A forecast for these qubits that shuffles, under a plan. -/
def foreseen (plan : Plan) : Forecast Stream :=
  (ofSettings { plan := plan, randomize := true } (.ofSeed 3)).predict unequal

/-- By the estimates, the longest run comes first, and of two equally long ones the one of the lower
index; shuffled, the qubits come in an order that the estimates say nothing of. -/
theorem scheduled_order_unequal :
    ((foreseen .predicted).order unequal).1 = some [1, 0, 2, 3] ∧
      [1, 0, 2, 3].Pairwise (fun i j =>
        (foreseen .predicted).timeOf j < (foreseen .predicted).timeOf i ∨
          (foreseen .predicted).timeOf i = (foreseen .predicted).timeOf j ∧ i < j) ∧
      unequal.obstacle = none ∧ Register.EachOnce unequal {} [1, 0, 2, 3] ∧
      unequal.planned [1, 0, 2, 3] = [[1, 0], [2]] ∧
      ((foreseen .random).order unequal).1 = some [2, 3, 1, 0] ∧
      [2, 3, 1, 0].Perm (List.range unequal.count) ∧
      Register.EachOnce unequal {} [2, 3, 1, 0] := by
  have hsorted : ((foreseen .predicted).order unequal).1 = some [1, 0, 2, 3] := by decide +kernel
  have hshuffled : ((foreseen .random).order unequal).1 = some [2, 3, 1, 0] := by decide +kernel
  have hready : unequal.obstacle = none := rfl
  obtain ⟨-, hlongest, -, -, hsorted_runs⟩ :=
    (scheduled_order (foreseen .predicted) unequal fun _ _ => Stream.permutes).2 _ hsorted
  obtain ⟨hall, -, -, -, hshuffled_runs⟩ :=
    (scheduled_order (foreseen .random) unequal fun _ _ => Stream.permutes).2 _ hshuffled
  exact ⟨hsorted, hlongest (.inr rfl), hready, (hsorted_runs unequal {} rfl).2 hready, rfl,
    hshuffled, hall, (hshuffled_runs unequal {} rfl).2 hready⟩

end Unequal

end Forecast

end Superpose
