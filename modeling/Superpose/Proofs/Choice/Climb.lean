import Superpose.Proofs.Choice.Greatest
import Superpose.Reduction

/-!
# Climbing to the best result

A climb walks over the same scores several times, and each walk begins with what the one before it
adopted. `adopted` lists what a walk adopts on its way, of which the last is where it ends
(`scan_eq_getLastD`). The first walk ends on top of all scores, so every later one adopts nothing
(`adoptions_add_one`), and a climb ends at the best result (`progressive_best`).
-/

namespace Superpose.Choice

/-! ## Adoptions -/

/-- The candidates that a walk adopts, one after the other. -/
def adopted : Peak → (next : Nat) → List Int → List Peak
  | _, _, [] => []
  | best, next, k :: ks =>
    if best.key < k then ⟨next, k⟩ :: adopted ⟨next, k⟩ (next + 1) ks
    else adopted best (next + 1) ks

/-- A walk ends with what it adopted last. -/
theorem scan_eq_getLastD (p : Peak) (next : Nat) (ks : List Int) :
    scan p next ks = (adopted p next ks).getLastD p := by
  induction ks generalizing p next with
  | nil => rfl
  | cons k ks ih =>
    rw [scan, adopted]
    split
    · rw [ih, List.getLastD_cons]
    · exact ih p (next + 1)

/-- A walk adopts nothing just where no key exceeds the candidate with which it begins. -/
theorem adopted_eq_nil_iff {p : Peak} {ks : List Int} (next : Nat) :
    adopted p next ks = [] ↔ ∀ k ∈ ks, k ≤ p.key := by
  induction ks generalizing next with
  | nil => simp [adopted]
  | cons k ks ih =>
    rw [adopted, List.forall_mem_cons, ← ih (next + 1)]
    split
    · next hgreater => simp [Int.not_le.mpr hgreater]
    · next hno => simp [Int.not_lt.mp hno]

/-! ## Climbs -/

variable {α : Type}

/-- What the walk of a given number adopts, counted from 0. -/
def adoptions (score : α → Int32) (walk : Nat) : List α → List Peak
  | [] => []
  | r :: rs =>
    let keys := rs.map fun r => (score r).toInt
    adopted (stand walk (score r).toInt keys) 1 keys

/-- **Only the first walk adopts anything.** -/
theorem adoptions_add_one (score : α → Int32) (walk : Nat) (results : List α) :
    adoptions score (walk + 1) results = [] := by
  cases results with
  | nil => rfl
  | cons r rs =>
    rw [adoptions, stand_add_one, adopted_eq_nil_iff]
    exact (tops_scan _ _).le_of_mem_tail

/-! ## The best result -/

/-- The least position of the greatest score. -/
def IsBest (score : α → Int32) (results : List α) (i : Nat) : Prop :=
  ∃ a, results[i]? = some a ∧ ∀ j b, results[j]? = some b →
    (score b).toInt ≤ (score a).toInt ∧ (j < i → (score b).toInt < (score a).toInt)

theorem IsBest.index_le {score : α → Int32} {results : List α} {i j : Nat}
    (h : IsBest score results i) (h' : IsBest score results j) : i ≤ j := by
  obtain ⟨a, ha, hleast⟩ := h
  obtain ⟨b, hb, hgreatest⟩ := h'
  refine Nat.le_of_not_lt fun hlt => ?_
  have hless := (hleast j b hb).2 hlt
  have hle := (hgreatest i a ha).1
  omega

theorem isBest_best (score : α → Int32) {results : List α} (h : results ≠ []) :
    IsBest score results (best score results) := by
  have hne : (results.map fun r => (score r).toInt) ≠ [] := by simpa using h
  obtain ⟨top, hat, htops⟩ := exists_tops_firstGreatest hne
  obtain ⟨a, ha, rfl⟩ := Option.map_eq_some_iff.mp ((List.getElem?_map ..).symm.trans hat)
  exact ⟨a, ha, fun j b hb => htops j _ (by rw [List.getElem?_map, hb, Option.map_some])⟩

/-- **Climbing leads to the best result.** The best result is the first one of greatest score, and
there is no other such place. The climb ends there as well, where its first walk adopts last, for
its second walk and its third adopt nothing; so the two strategies come to the same. -/
theorem progressive_best (score : α → Int32) (r : α) (rs : List α) :
    (∀ i, IsBest score (r :: rs) i ↔ i = best score (r :: rs)) ∧
      progressive (some score) (r :: rs) = best score (r :: rs) ∧
      (∀ walk, adoptions score (walk + 1) (r :: rs) = []) ∧
      best score (r :: rs) =
        ((adoptions score 0 (r :: rs)).getLastD ⟨0, (score r).toInt⟩).index ∧
      ∀ [BEq α] (output : α) (tools : Toolkit α) (now : UInt64),
        reduce .progressive (r :: rs) output { tools with evaluator := some score } now =
          reduce .best (r :: rs) output { tools with evaluator := some score } now := by
  have hbest := isBest_best score (List.cons_ne_nil r rs)
  have hclimb : progressive (some score) (r :: rs) = best score (r :: rs) :=
    climb_add_one 2 ((r :: rs).map fun r => (score r).toInt)
  refine ⟨fun i => ⟨fun h => ?_, fun h => h ▸ hbest⟩, hclimb,
    fun walk => adoptions_add_one score walk _, ?_, fun output tools now => ?_⟩
  · exact Nat.le_antisymm (h.index_le hbest) (hbest.index_le h)
  · exact congrArg Peak.index (scan_eq_getLastD _ _ _)
  · have hruling : ruling .progressive (r :: rs) output { tools with evaluator := some score } now =
        ruling .best (r :: rs) output { tools with evaluator := some score } now :=
      congrArg Ruling.select hclimb
    rw [reduce, reduce, hruling]

/-- The first of two equally good results is adopted on the way, and stays. -/
example :
    adoptions id 0 [(1 : Int32), 4, 3, 5, 5] = [⟨1, 4⟩, ⟨3, 5⟩] ∧
      adoptions id 1 [(1 : Int32), 4, 3, 5, 5] = [] ∧
      progressive (some id) [(1 : Int32), 4, 3, 5, 5] = 3 := by decide

end Superpose.Choice
