import Mathlib.Data.List.Induction
import Mathlib.Data.List.Perm.Basic
import Superpose.Register.Run

/-!
# Orders of qubits

Which lists a register accepts as an order (`orderFault_nil_eq_none_iff`), that a refused one is
always refused as an invalid order (`invalidOrder_of_orderFault`), and what becomes of an accepted
one: completed by the indices that it leaves out, it is an arrangement of all qubits
(`completeOrder_perm`), and the qubits to be run stand in it first as they are listed and then by
index (`filter_completeOrder`).
-/

namespace Superpose.Register

/-- Distinct indices of so many qubits. -/
structure IsOrder (count : Nat) (order : List Nat) : Prop where
  nodup : order.Nodup
  lt : ∀ i ∈ order, i < count

/-- The check passes exactly the orders that avoid what was seen before. -/
theorem orderFault_eq_none_iff {count : Nat} {order : List Nat} : ∀ {seen : List Nat},
    orderFault count seen order = none ↔ IsOrder count order ∧ ∀ i ∈ order, i ∉ seen := by
  induction order with
  | nil =>
    intro seen
    exact ⟨fun _ => ⟨⟨List.nodup_nil, by simp⟩, by simp⟩, fun _ => rfl⟩
  | cons i is ih =>
    intro seen
    rw [orderFault]
    by_cases hi : count ≤ i
    · rw [if_pos hi]
      refine ⟨fun h => (by cases h), fun h => ?_⟩
      exact absurd (h.1.lt i List.mem_cons_self) (Nat.not_lt.mpr hi)
    · rw [if_neg hi]
      by_cases hs : i ∈ seen
      · rw [if_pos (List.contains_iff_mem.mpr hs)]
        exact ⟨fun h => (by cases h), fun h => absurd hs (h.2 i List.mem_cons_self)⟩
      · rw [if_neg (mt List.contains_iff_mem.mp hs), ih]
        constructor
        · rintro ⟨⟨hnodup, hlt⟩, hnew⟩
          have hmem : i ∉ is := fun h => hnew i h List.mem_cons_self
          refine ⟨⟨List.nodup_cons.mpr ⟨hmem, hnodup⟩, ?_⟩, ?_⟩
          · intro j hj
            rcases List.mem_cons.mp hj with rfl | hj
            · exact Nat.lt_of_not_le hi
            · exact hlt j hj
          · intro j hj
            rcases List.mem_cons.mp hj with rfl | hj
            · exact hs
            · exact fun h => hnew j hj (List.mem_cons_of_mem i h)
        · rintro ⟨⟨hnodup, hlt⟩, hnew⟩
          obtain ⟨hmem, hnodup⟩ := List.nodup_cons.mp hnodup
          refine ⟨⟨hnodup, fun j hj => hlt j (List.mem_cons_of_mem i hj)⟩, fun j hj h => ?_⟩
          rcases List.mem_cons.mp h with rfl | h
          · exact hmem hj
          · exact hnew j (List.mem_cons_of_mem i hj) h

theorem orderFault_nil_eq_none_iff {count : Nat} {order : List Nat} :
    orderFault count [] order = none ↔ IsOrder count order := by
  rw [orderFault_eq_none_iff]
  exact ⟨And.left, fun h => ⟨h, fun i _ => List.not_mem_nil⟩⟩

theorem invalidOrder_of_orderFault {count : Nat} {order : List Nat} {fault : RegisterFault} :
    ∀ {seen : List Nat}, orderFault count seen order = some fault →
      ∃ reason, fault = .invalidOrder reason := by
  induction order with
  | nil => intro seen h; cases h
  | cons i is ih =>
    intro seen h
    rw [orderFault] at h
    split at h
    · exact ⟨_, (Option.some.inj h).symm⟩
    · split at h
      · exact ⟨_, (Option.some.inj h).symm⟩
      · exact ih h

/-! ## Completion -/

theorem mem_completeOrder {count : Nat} {order : List Nat} (h : IsOrder count order) (i : Nat) :
    i ∈ completeOrder count order ↔ i < count := by
  simp only [completeOrder, List.mem_append, List.mem_filter, List.mem_range,
    List.contains_eq_mem, Bool.not_eq_true', decide_eq_false_iff_not]
  constructor
  · rintro (hi | ⟨hi, -⟩)
    · exact h.lt i hi
    · exact hi
  · intro hi
    by_cases hmem : i ∈ order
    · exact Or.inl hmem
    · exact Or.inr ⟨hi, hmem⟩

theorem nodup_completeOrder {count : Nat} {order : List Nat} (h : order.Nodup) :
    (completeOrder count order).Nodup := by
  refine List.nodup_append.mpr ⟨h, List.nodup_range.filter _, ?_⟩
  rintro i hi j hj rfl
  have := (List.mem_filter.mp hj).2
  simp [hi] at this

/-- A completed order is an arrangement of all qubits. -/
theorem completeOrder_perm {count : Nat} {order : List Nat} (h : IsOrder count order) :
    (completeOrder count order).Perm (List.range count) := by
  refine (List.perm_ext_iff_of_nodup (nodup_completeOrder h.nodup) List.nodup_range).mpr ?_
  intro i
  rw [mem_completeOrder h, List.mem_range]

theorem isOrder_completeOrder {count : Nat} {order : List Nat} (h : IsOrder count order) :
    IsOrder count (completeOrder count order) :=
  ⟨nodup_completeOrder h.nodup, fun i hi => (mem_completeOrder h i).mp hi⟩

/-- The completion of nothing is the order by index. -/
theorem completeOrder_nil (count : Nat) : completeOrder count [] = List.range count := by
  simp [completeOrder]

/-! ## The qubits that take part -/

/-- A list is counted through by its indices. -/
theorem countP_eq_countP_range {β : Type} (l : List β) (p : β → Bool) :
    l.countP p = (List.range l.length).countP fun i => (l[i]?).any p := by
  induction l using List.reverseRecOn with
  | nil => rfl
  | append_singleton l a ih =>
    have hfront : (List.range l.length).countP (fun i => ((l ++ [a])[i]?).any p) =
        (List.range l.length).countP fun i => (l[i]?).any p := by
      refine List.countP_congr fun i hi => ?_
      rw [List.getElem?_append_left (List.mem_range.mp hi)]
    rw [List.length_append, List.length_singleton, List.range_succ, List.countP_append,
      List.countP_append, hfront, ih, List.countP_singleton, List.countP_singleton,
      List.getElem?_append_right (Nat.le_refl _), Nat.sub_self]
    rfl

variable {α ω : Type}

theorem enabledCount_le (r : Register α ω) : r.enabledCount ≤ r.count := List.countP_le_length

theorem enabledCount_eq (r : Register α ω) :
    r.enabledCount = (List.range r.count).countP r.isEnabled :=
  countP_eq_countP_range r.qubits _

theorem length_filter_completeOrder {r : Register α ω} {order : List Nat}
    (h : IsOrder r.count order) :
    ((completeOrder r.count order).filter r.isEnabled).length = r.enabledCount := by
  rw [← List.countP_eq_length_filter, (completeOrder_perm h).countP_eq, enabledCount_eq]

theorem mem_filter_isEnabled {r : Register α ω} {order : List Nat}
    (horder : IsOrder r.count order) (i : Nat) :
    i ∈ (completeOrder r.count order).filter r.isEnabled ↔ r.isEnabled i = true := by
  rw [List.mem_filter, mem_completeOrder horder]
  refine and_iff_right_of_imp fun h => ?_
  obtain ⟨q, hq, -⟩ := (Option.any_eq_true ..).mp h
  exact (List.getElem?_eq_some_iff.mp hq).1

end Superpose.Register
