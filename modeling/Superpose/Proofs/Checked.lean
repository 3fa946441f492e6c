import Mathlib.Algebra.GroupWithZero.Nat
import Mathlib.Data.List.Basic
import Superpose.Checked

/-!
# Numbers that have a word

Each of the functions for a build with overflow checks gives the word that has the number which it
is asked for, and nothing if there is no such word. Words that are added one after the other break
off just if their whole sum does: on the way it only grows.
-/

namespace Superpose.Checked

/-- The word for a number is what the number is wrapped around to. -/
theorem word_eq_some_iff_lt {n : Nat} {w : UInt64} :
    word n = some w ↔ n < 2 ^ 64 ∧ w = .ofNat n := by
  rw [word]
  constructor
  · intro h
    split at h
    · next hn => exact ⟨hn, (Option.some.inj h).symm⟩
    · cases h
  · rintro ⟨hn, rfl⟩
    exact if_pos hn

theorem word_eq_some_iff {n : Nat} {w : UInt64} : word n = some w ↔ n = w.toNat := by
  rw [word_eq_some_iff_lt]
  constructor
  · rintro ⟨hn, rfl⟩
    exact (UInt64.toNat_ofNat_of_lt' hn).symm
  · rintro rfl
    exact ⟨w.toNat_lt, (UInt64.ofNat_toNat).symm⟩

theorem word_eq_none_iff {n : Nat} : word n = none ↔ 2 ^ 64 ≤ n := by
  rw [word, ite_eq_right_iff]
  constructor
  · intro h
    exact Nat.le_of_not_lt fun hn => Option.some_ne_none _ (h hn)
  · intro hover hn
    exact absurd hn (Nat.not_lt.mpr hover)

theorem signed_eq_some_iff {n : Int} {w : Int64} : signed n = some w ↔ n = w.toInt := by
  rw [signed]
  constructor
  · intro h
    split at h
    · next hn => rw [← Option.some.inj h, Int64.toInt_ofInt_of_le hn.1 (Int.lt_add_one_of_le hn.2)]
    · cases h
  · rintro rfl
    rw [if_pos ⟨w.le_toInt, Int.le_of_lt_add_one w.toInt_lt⟩, Int64.ofInt_toInt]

/-- Going over a list breaks off just if one of its elements does. -/
theorem mapM_eq_some_iff {β γ : Type} {f : β → Option γ} {P : β → Prop} {g : β → γ} {xs : List β}
    (hf : ∀ x ∈ xs, ∀ y, f x = some y ↔ P x ∧ y = g x) (ys : List γ) :
    xs.mapM f = some ys ↔ (∀ x ∈ xs, P x) ∧ ys = xs.map g := by
  induction xs generalizing ys with
  | nil => simp [eq_comm]
  | cons x xs ih =>
    obtain ⟨hx, hxs⟩ := List.forall_mem_cons.mp hf
    simp only [List.mapM_cons, Option.bind_eq_bind, Option.bind_eq_some_iff, hx, ih hxs,
      Option.pure_def, Option.some.injEq, List.forall_mem_cons, List.map_cons]
    constructor
    · rintro ⟨y, ⟨hy, rfl⟩, zs, ⟨hzs, rfl⟩, rfl⟩
      exact ⟨⟨hy, hzs⟩, rfl⟩
    · rintro ⟨⟨hy, hzs⟩, rfl⟩
      exact ⟨_, ⟨hy, rfl⟩, _, ⟨hzs, rfl⟩, rfl⟩

/-- A sum that overflows stays out of range, whatever is added to it. -/
theorem word_bind_add (m n : Nat) : ((word m).bind fun w => word (w.toNat + n)) = word (m + n) := by
  cases hm : word m with
  | none =>
    have hover : 2 ^ 64 ≤ m := word_eq_none_iff.mp hm
    exact (word_eq_none_iff.mpr (Nat.le_trans hover (Nat.le_add_right _ _))).symm
  | some w => rw [word_eq_some_iff.mp hm, Option.bind_some]

theorem word_of_lt {n : Nat} (h : n < 2 ^ 64) : word n = some (.ofNat n) := if_pos h

theorem shortWord_of_lt {n : Nat} (h : n < 2 ^ 32) : shortWord n = some (.ofNat n) := if_pos h

theorem shortWord_eq_none_iff {n : Nat} : shortWord n = none ↔ 2 ^ 32 ≤ n := by
  rw [shortWord, ite_eq_right_iff]
  constructor
  · intro h
    exact Nat.le_of_not_lt fun hn => Option.some_ne_none _ (h hn)
  · intro hover hn
    exact absurd hn (Nat.not_lt.mpr hover)

theorem foldlM_word (ws : List UInt64) (w : UInt64) :
    ws.foldlM (fun sum w => word (sum.toNat + w.toNat)) w =
      word (w.toNat + (ws.map UInt64.toNat).sum) := by
  induction ws generalizing w with
  | nil => exact (word_eq_some_iff.mpr rfl).symm
  | cons v ws ih =>
    rw [List.foldlM_cons, List.map_cons, List.sum_cons, ← Nat.add_assoc]
    exact (congrArg (Option.bind _) (funext ih)).trans (word_bind_add _ _)

/-- **A sum breaks off just if it is out of range as a whole.** -/
theorem sum_eq (ws : List UInt64) : sum ws = word (ws.map UInt64.toNat).sum := by
  rw [sum, foldlM_word, UInt64.toNat_zero, Nat.zero_add]

end Superpose.Checked
