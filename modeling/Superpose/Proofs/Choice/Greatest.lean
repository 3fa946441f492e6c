import Mathlib.Algebra.GroupWithZero.Nat
import Superpose.Choice.Greatest

/-!
# Where the greatest key stands

`Peak.Tops` describes the first greatest key of a list from outside: nothing exceeds it, and what
stands before it is smaller. A walk over keys keeps its best candidate on top of the keys walked so
far (`Peak.Tops.scan`), so `firstGreatest` finds the first greatest key
(`exists_tops_firstGreatest`). A second walk adopts nothing (`scan_eq_self`), so climbing leads to
the same place (`climb_add_one`). `Foremost` says the same of the items of a list whose keys these
are.
-/

namespace Superpose.Choice

/-- The size of a score. -/
theorem natAbs_toInt_le (s : Int32) : s.toInt.natAbs ≤ 2 ^ 31 := by
  have hlow : -2 ^ 31 ≤ s.toInt := Int32.le_toInt s
  have hhigh : s.toInt < 2 ^ 31 := Int32.toInt_lt s
  omega

/-- The candidate is the first greatest key of a list. -/
def Peak.Tops (p : Peak) (keys : List Int) : Prop :=
  keys[p.index]? = some p.key ∧ ∀ j k, keys[j]? = some k → k ≤ p.key ∧ (j < p.index → k < p.key)

theorem Peak.Tops.index_lt {p : Peak} {keys : List Int} (h : p.Tops keys) :
    p.index < keys.length :=
  (List.getElem?_eq_some_iff.mp h.1).1

theorem tops_singleton (k : Int) : (⟨0, k⟩ : Peak).Tops [k] := by
  refine ⟨rfl, fun j k' hj => ?_⟩
  cases j with
  | zero =>
    cases hj
    exact ⟨Int.le_refl k, fun h => absurd h (Nat.lt_irrefl 0)⟩
  | succ j => cases hj

/-- What stands in a list with one more item stands in the list, or is that item. -/
theorem getElem?_concat_cases {β : Type} {xs : List β} {x y : β} {j : Nat}
    (h : (xs ++ [x])[j]? = some y) : xs[j]? = some y ∨ (j = xs.length ∧ y = x) := by
  rcases Nat.lt_trichotomy j xs.length with hlt | heq | hgt
  · rw [List.getElem?_append_left hlt] at h
    exact Or.inl h
  · rw [heq, List.getElem?_concat_length] at h
    exact Or.inr ⟨heq, (Option.some.inj h).symm⟩
  · rw [List.getElem?_eq_none (by simp; omega)] at h
    cases h

/-- One step of a walk. -/
theorem Peak.Tops.step {p : Peak} {keys : List Int} (h : p.Tops keys) (k : Int) :
    (if p.key < k then ⟨keys.length, k⟩ else p : Peak).Tops (keys ++ [k]) := by
  by_cases hk : p.key < k
  · rw [if_pos hk]
    refine ⟨List.getElem?_concat_length, fun j k' hj => ?_⟩
    rcases getElem?_concat_cases hj with hj | ⟨rfl, rfl⟩
    · have hle := (h.2 j k' hj).1
      simp only
      omega
    · exact ⟨Int.le_refl k', fun hlt => absurd hlt (Nat.lt_irrefl _)⟩
  · rw [if_neg hk]
    refine ⟨by rw [List.getElem?_append_left h.index_lt, h.1], fun j k' hj => ?_⟩
    rcases getElem?_concat_cases hj with hj | ⟨rfl, rfl⟩
    · exact h.2 j k' hj
    · have hindex := h.index_lt
      exact ⟨by omega, by omega⟩

/-- **A walk keeps its best candidate on top of the keys walked so far.** -/
theorem Peak.Tops.scan {p : Peak} {keys : List Int} (h : p.Tops keys) (ks : List Int) :
    (Choice.scan p keys.length ks).Tops (keys ++ ks) := by
  induction ks generalizing p keys with
  | nil => simpa only [Choice.scan, List.append_nil] using h
  | cons k ks ih =>
    have hnext := ih (h.step k)
    rw [List.length_append, List.length_singleton, List.append_assoc] at hnext
    exact hnext

theorem tops_scan (k : Int) (ks : List Int) : (scan ⟨0, k⟩ 1 ks).Tops (k :: ks) :=
  (tops_singleton k).scan ks

theorem exists_tops_firstGreatest {keys : List Int} (h : keys ≠ []) :
    ∃ top, (⟨firstGreatest keys, top⟩ : Peak).Tops keys := by
  cases keys with
  | nil => exact absurd rfl h
  | cons k ks => exact ⟨_, tops_scan k ks⟩

theorem firstGreatest_lt {keys : List Int} (h : keys ≠ []) :
    firstGreatest keys < keys.length := by
  obtain ⟨top, htops⟩ := exists_tops_firstGreatest h
  exact htops.index_lt

/-- A walk over keys that do not exceed the candidate adopts none of them. -/
theorem scan_eq_self {p : Peak} {ks : List Int} (h : ∀ k ∈ ks, k ≤ p.key) (next : Nat) :
    scan p next ks = p := by
  induction ks generalizing next with
  | nil => rfl
  | cons k ks ih =>
    rw [List.forall_mem_cons] at h
    rw [scan, if_neg (Int.not_lt.mpr h.1)]
    exact ih h.2 (next + 1)

theorem Peak.Tops.le_of_mem_tail {p : Peak} {k : Int} {ks : List Int} (h : p.Tops (k :: ks)) :
    ∀ x ∈ ks, x ≤ p.key := by
  intro x hx
  obtain ⟨j, hj⟩ := List.mem_iff_getElem?.mp hx
  exact (h.2 (j + 1) x (by rw [List.getElem?_cons_succ, hj])).1

theorem Peak.Tops.scan_tail {p : Peak} {k : Int} {ks : List Int} (h : p.Tops (k :: ks))
    (next : Nat) : Choice.scan p next ks = p :=
  scan_eq_self h.le_of_mem_tail next

/-- Where so many walks lead from the head of a list. -/
def stand (walks : Nat) (k : Int) (ks : List Int) : Peak :=
  walks.repeat (fun best => scan best 1 ks) ⟨0, k⟩

/-- The first walk ends on top, and the others end where they begin. -/
theorem stand_add_one (walks : Nat) (k : Int) (ks : List Int) :
    stand (walks + 1) k ks = scan ⟨0, k⟩ 1 ks := by
  induction walks with
  | zero => rfl
  | succ walks ih =>
    have hstep : stand (walks + 1 + 1) k ks = scan (stand (walks + 1) k ks) 1 ks := rfl
    rw [hstep, ih, (tops_scan k ks).scan_tail]

/-- Every walk after the first adopts nothing. -/
theorem climb_add_one (walks : Nat) (keys : List Int) :
    climb (walks + 1) keys = firstGreatest keys := by
  cases keys with
  | nil => rfl
  | cons k ks => exact congrArg Peak.index (stand_add_one walks k ks)

/-! ## Items of greatest key -/

/-- An item that is the first of greatest key, where a key may depend on the place of its item. -/
structure Foremost {β : Type} (key : Nat → β → Int) (xs : List β) (i : Nat) (x : β) : Prop where
  here : xs[i]? = some x
  most : ∀ j y, xs[j]? = some y → key j y ≤ key i x
  first : ∀ j y, xs[j]? = some y → j < i → key j y < key i x

section Foremost

variable {β : Type} {key : Nat → β → Int} {xs : List β} {i j : Nat} {x y : β}

theorem foremost_iff_tops :
    Foremost key xs i x ↔ xs[i]? = some x ∧ (⟨i, key i x⟩ : Peak).Tops (xs.mapIdx key) := by
  constructor
  · intro h
    refine ⟨h.here, by rw [List.getElem?_mapIdx, h.here, Option.map_some], fun j k hj => ?_⟩
    rw [List.getElem?_mapIdx] at hj
    obtain ⟨y, hy, rfl⟩ := Option.map_eq_some_iff.mp hj
    exact ⟨h.most j y hy, h.first j y hy⟩
  · rintro ⟨hhere, -, htops⟩
    have hkey : ∀ j y, xs[j]? = some y → (xs.mapIdx key)[j]? = some (key j y) := by
      intro j y hy
      rw [List.getElem?_mapIdx, hy, Option.map_some]
    exact ⟨hhere, fun j y hy => (htops j _ (hkey j y hy)).1,
      fun j y hy => (htops j _ (hkey j y hy)).2⟩

theorem Foremost.index_le (h : Foremost key xs i x) (h' : Foremost key xs j y) : i ≤ j := by
  refine Nat.le_of_not_lt fun hlt => ?_
  have hless := h.first j y h'.here hlt
  have hmost := h'.most i x h.here
  omega

theorem Foremost.index_eq (h : Foremost key xs i x) (h' : Foremost key xs j y) : i = j :=
  Nat.le_antisymm (h.index_le h') (h'.index_le h)

theorem exists_foremost_firstGreatest (key : Nat → β → Int) (hne : xs ≠ []) :
    ∃ x, Foremost key xs (firstGreatest (xs.mapIdx key)) x := by
  have hkeys : xs.mapIdx key ≠ [] := by simpa using hne
  obtain ⟨top, htops⟩ := exists_tops_firstGreatest hkeys
  have htop : (xs.mapIdx key)[firstGreatest (xs.mapIdx key)]? = some top := htops.1
  rw [List.getElem?_mapIdx] at htop
  obtain ⟨x, hx, rfl⟩ := Option.map_eq_some_iff.mp htop
  exact ⟨x, foremost_iff_tops.mpr ⟨hx, htops⟩⟩

/-- A walk over the keys finds the first item of greatest key, and there is no other one. -/
theorem foremost_iff (hne : xs ≠ []) :
    Foremost key xs i x ↔ i = firstGreatest (xs.mapIdx key) ∧ xs[i]? = some x := by
  obtain ⟨top, htop⟩ := exists_foremost_firstGreatest key hne
  constructor
  · exact fun h => ⟨h.index_eq htop, h.here⟩
  · rintro ⟨rfl, hx⟩
    rwa [Option.some.inj (hx.symm.trans htop.here)]

theorem foremost_singleton (x : β) : Foremost key [x] 0 x :=
  foremost_iff_tops.mpr ⟨rfl, tops_singleton (key 0 x)⟩

/-- What one more item changes. -/
theorem Foremost.concat (h : Foremost key xs i x) (y : β) :
    if key i x < key xs.length y then Foremost key (xs ++ [y]) xs.length y
    else Foremost key (xs ++ [y]) i x := by
  have hi : i < xs.length := (List.getElem?_eq_some_iff.mp h.here).1
  have hstep := (foremost_iff_tops.mp h).2.step (key xs.length y)
  rw [List.length_mapIdx, ← List.mapIdx_concat] at hstep
  split
  · next hmore =>
    rw [if_pos hmore] at hstep
    exact foremost_iff_tops.mpr ⟨List.getElem?_concat_length, hstep⟩
  · next hno =>
    rw [if_neg hno] at hstep
    exact foremost_iff_tops.mpr ⟨by rw [List.getElem?_append_left hi, h.here], hstep⟩

end Foremost

end Superpose.Choice
