import Mathlib.Logic.ExistsUnique
import Superpose.Proofs.Steering.Check

/-!
# The way round the strategies

A steering that cannot follow its adviser goes on through the strategies in index order, round a
ring that leaves out the last one. `Strategy.Meets` is the way round this ring, and
`getElem?_rotation` ties it to the list that a steering goes through. Every strategy of the ring is
met exactly once from wherever the way begins (`existsUnique_meets_iff`), so a steering finds the
first that is eligible if there is one at all (`exists_alternative_eq`).
-/

namespace Superpose

namespace Strategy

/-- So many strategies upward from `s` in the ring of all strategies but the last, `t` is met. The
way round ends after one turn. The last strategy is outside of the ring, and the way from there is
that from the first one. -/
def Meets (s : Strategy) (k : Nat) (t : Strategy) : Prop :=
  1 ≤ k ∧ k ≤ Steering.turns ∧ t.index = (s.index + k) % Steering.turns

theorem ofIndex?_eq_some_iff {i : Nat} {t : Strategy} : ofIndex? i = some t ↔ t.index = i := by
  constructor
  · intro h
    have hindex : ∀ i : Fin all.length, (all.get i).index = i := by decide
    obtain ⟨hi, rfl⟩ := List.getElem?_eq_some_iff.mp h
    exact hindex ⟨i, hi⟩
  · rintro rfl
    exact ofIndex?_index t

theorem index_lt_turns_iff (t : Strategy) : t.index < Steering.turns ↔ t ≠ .ensemble := by
  cases t <;> decide

theorem Meets.ne_ensemble {s t : Strategy} {k : Nat} (h : s.Meets k t) : t ≠ .ensemble := by
  rw [← index_lt_turns_iff, h.2.2]
  exact Nat.mod_lt _ (by decide)

/-- **The way round meets each strategy of the ring once**, and no other. -/
theorem existsUnique_meets_iff (s t : Strategy) : (∃! k, s.Meets k t) ↔ t ≠ .ensemble := by
  constructor
  · rintro ⟨k, hmeets, -⟩
    exact hmeets.ne_ensemble
  · intro ht
    have hs : s.index < 13 := s.index_lt
    have hindex : t.index < 12 := (index_lt_turns_iff t).mpr ht
    refine ⟨(t.index + 23 - s.index) % 12 + 1, ?_, ?_⟩
    · show 1 ≤ _ ∧ _ ≤ 12 ∧ _ = _ % 12
      omega
    · intro k hk
      have hmeets : 1 ≤ k ∧ k ≤ 12 ∧ t.index = (s.index + k) % 12 := hk
      omega

end Strategy

namespace Steering

open Strategy (Meets)

/-- The strategies that a steering goes through are those that are met on the way round. -/
theorem getElem?_rotation {s t : Strategy} {k : Nat} :
    (rotation s)[k]? = some t ↔ s.Meets (k + 1) t := by
  have hbound : ∀ k, (s.index + (k + 1)) % turns < Strategy.all.length := fun k =>
    Nat.lt_trans (Nat.mod_lt _ (by decide)) (by decide)
  have hturn : ∀ k, Strategy.ofIndex? ((s.index + (k + 1)) % turns) =
      some (Strategy.all.get ⟨_, hbound k⟩) := fun k => List.getElem?_eq_getElem (hbound k)
  have hrotation : rotation s =
      (List.range turns).map fun k => Strategy.all.get ⟨_, hbound k⟩ := by
    rw [rotation, funext hturn]
    exact congrFun List.filterMap_eq_map' _
  rw [hrotation, List.getElem?_map, Meets, ← Strategy.ofIndex?_eq_some_iff, hturn]
  by_cases hk : k < turns
  · rw [List.getElem?_range hk, Option.map_some]
    exact ⟨fun h => ⟨Nat.succ_pos k, hk, h⟩, fun h => h.2.2⟩
  · rw [List.getElem?_eq_none (by rw [List.length_range]; exact Nat.le_of_not_lt hk)]
    exact ⟨nofun, fun h => absurd h.2.1 hk⟩

theorem mem_rotation_iff {s t : Strategy} : t ∈ rotation s ↔ t ≠ .ensemble := by
  rw [List.mem_iff_getElem?]
  constructor
  · rintro ⟨k, hk⟩
    exact (getElem?_rotation.mp hk).ne_ensemble
  · intro ht
    obtain ⟨k, hmeets, -⟩ := (s.existsUnique_meets_iff t).mpr ht
    refine ⟨k - 1, getElem?_rotation.mpr ?_⟩
    rwa [Nat.sub_add_cancel hmeets.1]

/-- A search on the way round ends at the first strategy that fits. -/
theorem find?_rotation {s t : Strategy} {p : Strategy → Bool}
    (h : (rotation s).find? p = some t) :
    ∃ k, s.Meets k t ∧ ∀ j u, j < k → s.Meets j u → p u = false := by
  obtain ⟨-, k, hk, rfl, hbefore⟩ := List.find?_eq_some_iff_getElem.mp h
  refine ⟨k + 1, getElem?_rotation.mp (List.getElem?_eq_getElem hk), fun j u hj hmeets => ?_⟩
  obtain ⟨j, rfl⟩ := Nat.exists_eq_add_of_le' hmeets.1
  obtain ⟨hlt, rfl⟩ := List.getElem?_eq_some_iff.mp (getElem?_rotation.mpr hmeets)
  have hskipped := hbefore j (Nat.lt_of_succ_lt_succ hj)
  rwa [Bool.not_eq_true'] at hskipped

/-- The strategy that a steering has to turn to: the recommended one if that is eligible, and
otherwise the eligible one that is met first. The current strategy is never eligible. -/
structure TurnsTo (eligible : Strategy → Bool) (current recommended next : Strategy) : Prop where
  differs : next ≠ current
  supported : eligible next = true
  advised : recommended ≠ current → eligible recommended = true → next = recommended
  rotated : (recommended = current ∨ eligible recommended = false) →
    ∃ k, current.Meets k next ∧
      ∀ j t, j < k → current.Meets j t → t = current ∨ eligible t = false

variable {ω : Type}

/-- **A steering finds where to turn**, if there is an eligible strategy in the ring. -/
theorem exists_alternative_eq {s : Steering ω} {eligible : Strategy → Bool} {t : Strategy}
    (hring : t ≠ .ensemble) (hother : t ≠ s.current) (heligible : eligible t = true)
    (recommended : Strategy) :
    ∃ next, s.alternative eligible recommended = some next ∧
      TurnsTo eligible s.current recommended next := by
  have hcandidate : ∀ u : Strategy, (u != s.current && eligible u) = true ↔
      u ≠ s.current ∧ eligible u = true := by
    intro u
    rw [Bool.and_eq_true, bne_iff_ne]
  by_cases hadvised : recommended ≠ s.current ∧ eligible recommended = true
  · refine ⟨recommended, ?_, hadvised.1, hadvised.2, fun _ _ => rfl, fun hnot => ?_⟩
    · rw [alternative, if_pos ((hcandidate recommended).mpr hadvised)]
    · rcases hnot with hcurrent | hnot
      · exact absurd hcurrent hadvised.1
      · exact absurd hadvised.2 (Bool.eq_false_iff.mp hnot)
  · have halternative : s.alternative eligible recommended =
        (rotation s.current).find? fun u => u != s.current && eligible u := by
      rw [alternative, if_neg (mt (hcandidate recommended).mp hadvised)]
    -- the eligible strategy is met somewhere on the way, so the search ends there or before
    have hfound : (s.alternative eligible recommended).isSome := by
      rw [halternative, List.find?_isSome]
      exact ⟨t, mem_rotation_iff.mpr hring, (hcandidate t).mpr ⟨hother, heligible⟩⟩
    obtain ⟨next, hnext⟩ := Option.isSome_iff_exists.mp hfound
    obtain ⟨hdiffers, hsupported⟩ := alternative_eq_some hnext
    obtain ⟨k, hmeets, hbefore⟩ := find?_rotation (halternative.symm.trans hnext)
    refine ⟨next, hnext, hdiffers, hsupported, fun hne hsome => absurd ⟨hne, hsome⟩ hadvised,
      fun _ => ⟨k, hmeets, fun j u hj hu => ?_⟩⟩
    have hpassed := hbefore j u hj hu
    rwa [Bool.and_eq_false_iff, bne_eq_false_iff_eq] at hpassed

end Steering

end Superpose
