import Superpose.Run.Waves

/-!
# Cutting into waves

What `chunks` does to a list: the pieces concatenate to the list (`flatten_chunks`), and they are
`Even`: none is empty, none is longer than the size, and all but the last have exactly the size
(`even_chunks`). Both come from one statement on `cut` (`cut_spec`), whose first piece fills the
room that is left before any further piece begins.
-/

namespace Superpose.Run

variable {β : Type}

/-- Pieces of a list, none of them empty or longer than `size`, and only the last one shorter. -/
structure Even (size : Nat) (pieces : List (List β)) : Prop where
  ne_nil : ∀ piece ∈ pieces, piece ≠ []
  length_le : ∀ piece ∈ pieces, piece.length ≤ size
  length_eq : ∀ piece ∈ pieces.dropLast, piece.length = size

namespace Even

theorem nil (size : Nat) : Even size ([] : List (List β)) :=
  ⟨by simp, by simp, by simp⟩

/-- A piece in front of others is full, unless there are no others. -/
theorem cons {size : Nat} {piece : List β} {pieces : List (List β)} (hne : piece ≠ [])
    (hle : piece.length ≤ size) (hfull : pieces ≠ [] → piece.length = size)
    (h : Even size pieces) : Even size (piece :: pieces) := by
  refine ⟨?_, ?_, ?_⟩
  · intro p hp
    rcases List.mem_cons.mp hp with rfl | hp
    · exact hne
    · exact h.ne_nil p hp
  · intro p hp
    rcases List.mem_cons.mp hp with rfl | hp
    · exact hle
    · exact h.length_le p hp
  · intro p hp
    cases pieces with
    | nil => simp at hp
    | cons q qs =>
      rw [List.dropLast_cons_of_ne_nil (List.cons_ne_nil q qs)] at hp
      rcases List.mem_cons.mp hp with rfl | hp
      · exact hfull (List.cons_ne_nil q qs)
      · exact h.length_eq p hp

end Even

/-- A cut loses nothing, its first piece keeps to the room and fills it before another piece begins,
and the further pieces are even. -/
theorem cut_spec {size : Nat} (hsize : 0 < size) (xs : List β) : ∀ room,
    (cut size room xs).1 ++ (cut size room xs).2.flatten = xs ∧
      (cut size room xs).1.length ≤ room ∧
      ((cut size room xs).2 ≠ [] → (cut size room xs).1.length = room) ∧
      Even size (cut size room xs).2 := by
  induction xs with
  | nil =>
    intro room
    refine ⟨by simp [cut], by simp [cut], fun h => ?_, ?_⟩
    · exact absurd (by simp [cut]) h
    · rw [cut]
      exact Even.nil size
  | cons x xs ih =>
    intro room
    cases room with
    | zero =>
      obtain ⟨happend, hle, hfull, heven⟩ := ih (size - 1)
      simp only [cut]
      refine ⟨?_, Nat.le_refl 0, fun _ => rfl, ?_⟩
      · rw [List.nil_append, List.flatten_cons, List.cons_append, happend]
      · refine Even.cons (List.cons_ne_nil _ _) ?_ (fun h => ?_) heven
        · rw [List.length_cons]
          omega
        · have := hfull h
          rw [List.length_cons]
          omega
    | succ room =>
      obtain ⟨happend, hle, hfull, heven⟩ := ih room
      simp only [cut]
      refine ⟨?_, ?_, fun h => ?_, heven⟩
      · rw [List.cons_append, happend]
      · rw [List.length_cons]
        omega
      · rw [List.length_cons, hfull h]

theorem flatten_chunks {size : Nat} (hsize : 0 < size) (xs : List β) :
    (chunks size xs).flatten = xs := by
  obtain ⟨happend, hle, -, -⟩ := cut_spec hsize xs 0
  rw [List.length_eq_zero_iff.mp (Nat.le_zero.mp hle), List.nil_append] at happend
  exact happend

/-- There is a wave as soon as there is anything to run. -/
theorem chunks_eq_nil_iff {size : Nat} (hsize : 0 < size) (xs : List β) :
    chunks size xs = [] ↔ xs = [] := by
  constructor
  · intro h
    rw [← flatten_chunks hsize xs, h, List.flatten_nil]
  · rintro rfl
    rfl

example : chunks 2 [4, 7, 1, 0, 3] = [[4, 7], [1, 0], [3]] := by decide

end Superpose.Run
