import Superpose.Proofs.Steering.Check

/-!
# The one change of a steering

A steering may change the strategy once. Its `Ledger` tells whether it has done so, and only a reset
gives it the change back. `call` is what the figures of a run call for at a look, whether or not the
change was made before; a look changes the strategy to what is called for, if the change is still to
be made (`check_fst`), and takes it from the ledger (`spends_check`).
-/

namespace Superpose.Steering

variable {ω : Type}

/-- What a steering has spent, and the strategy that it goes back to. -/
structure Ledger where
  switches : UInt32
  switched : Bool
  initial : Strategy

def ledger (s : Steering ω) : Ledger := ⟨s.switches, s.switched, s.initial⟩

namespace Ledger

def fresh (initial : Strategy) : Ledger := ⟨0, false, initial⟩

def spend (l : Ledger) : Ledger := { l with switches := l.switches + 1, switched := true }

/-- A ledger that counts the change exactly if it notes it. -/
def Balanced (l : Ledger) : Prop := l.switches = if l.switched then 1 else 0

theorem balanced_fresh (initial : Strategy) : (fresh initial).Balanced := rfl

theorem Balanced.spend {l : Ledger} (h : l.Balanced) (hfresh : l.switched = false) :
    l.spend.Balanced := by
  rw [Balanced, hfresh] at h
  show l.switches + 1 = 1
  rw [h]
  rfl

theorem Balanced.switches_le_one {l : Ledger} (h : l.Balanced) : l.switches ≤ 1 := by
  rw [h]
  split <;> decide

theorem Balanced.switched_iff {l : Ledger} (h : l.Balanced) :
    l.switched = true ↔ l.switches = 1 := by
  rw [h]
  cases l.switched <;> decide

/-- What becomes of a ledger while the strategy is changed to those of a list: nothing without a
change, and it is spent with one. There is no second change. -/
inductive Spends : Option Ledger → List Strategy → Option Ledger → Prop
  | kept (l : Option Ledger) : Spends l [] l
  | spent {l : Ledger} (hfresh : l.switched = false) (next : Strategy) :
      Spends (some l) [next] (some l.spend)

namespace Spends

variable {a b c : Option Ledger} {xs ys : List Strategy}

theorem append (h : Spends a xs b) (h' : Spends b ys c) : Spends a (xs ++ ys) c := by
  cases h with
  | kept => exact h'
  | spent hfresh next =>
    -- a spent ledger is not fresh, so nothing more is spent of it
    cases h' with
    | kept => exact .spent hfresh next
    | spent hspent => cases hspent

theorem map_initial (h : Spends a xs b) : b.map initial = a.map initial := by
  cases h <;> rfl

theorem balanced (h : Spends a xs b) (ha : ∀ l ∈ a, l.Balanced) : ∀ l ∈ b, l.Balanced := by
  cases h with
  | kept => exact ha
  | spent hfresh next =>
    rintro l ⟨⟩
    exact (ha _ rfl).spend hfresh

theorem any_switched (h : Spends a xs b) :
    b.any switched = (a.any switched || !xs.isEmpty) := by
  cases h with
  | kept => simp
  | spent hfresh next => simp [spend]

end Spends

end Ledger

/-! ## Looks -/

/-- The strategy that the figures of a run call for, if it is time to look at them. -/
def call (s : Steering ω) (now : UInt64) (completed failed : UInt32) (qubits : Nat)
    (eligible : Strategy → Bool) (recommended : Strategy) : Option Strategy :=
  if s.isDue now &&
      (trigger s.policy s.thresholds s.quality
        ⟨elapsed s.started now, completed, failed, qubits⟩).isSome then
    s.alternative eligible recommended
  else none

section Look

variable (s : Steering ω) (now : UInt64) (completed failed : UInt32) (qubits : Nat)
  (eligible : Strategy → Bool) (recommended : Strategy)

/-- **A look changes the strategy to what is called for**, unless that was done before. -/
theorem check_fst :
    (s.check now completed failed qubits eligible recommended).1 =
      if s.switched then none
      else s.call now completed failed qubits eligible recommended := by
  have hdecision : s.isDue now = true → { s with lastCheck := now }.decision
      ⟨elapsed s.started now, completed, failed, qubits⟩ eligible recommended =
        if s.switched then none
        else s.call now completed failed qubits eligible recommended := by
    intro hdue
    simp only [decision, call, hdue, Bool.true_and]
    cases s.switched with
    | true => rw [Bool.not_true, Bool.and_false, if_neg Bool.false_ne_true, if_pos rfl]
    | false =>
      rw [Bool.not_false, Bool.and_true, if_neg Bool.false_ne_true]
      rfl
  rcases s.check_cases now completed failed qubits eligible recommended with
    ⟨hdue, hc⟩ | ⟨hdue, hd, hc⟩ | ⟨next, hdue, hd, hc⟩
  · simp [hc, call, hdue]
  · rw [hc, ← hdecision hdue, hd]
  · rw [hc, ← hdecision hdue, hd]

theorem spends_check :
    Ledger.Spends (some s.ledger)
      (s.check now completed failed qubits eligible recommended).1.toList
      (some (s.check now completed failed qubits eligible recommended).2.ledger) := by
  rcases s.check_cases now completed failed qubits eligible recommended with
    ⟨-, hc⟩ | ⟨-, -, hc⟩ | ⟨next, -, hd, hc⟩
  · rw [hc]
    exact .kept _
  · rw [hc]
    exact .kept _
  · rw [hc]
    exact .spent (decision_eq_some hd).2.1 next

end Look

end Superpose.Steering
