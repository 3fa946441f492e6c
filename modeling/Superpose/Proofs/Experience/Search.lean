import Superpose.Proofs.Binary64.Order
import Superpose.Proofs.Experience.Operation

/-!
# The search for the greatest score

The most similar entry and the best strategy are searched for in the same way (`climb`): items are
gone through in order, and one takes the place of the best so far if its score is greater, where the
first has to exceed a floor. What is found is the first item of greatest score (`found_climb`), and
there is no other (`Found.eq_some`). The order of the scores need not be total: what is not a number
compares with nothing, but all that stands above something can be compared.
-/

namespace Superpose.Experience

/-- An order in which all that stands above something can be compared. -/
class Comparable (K : Type) [LT K] [LE K] : Prop where
  lt_irrefl (a : K) : ¬ a < a
  le_of_lt {a b : K} : a < b → a ≤ b
  le_trans {a b c : K} : a ≤ b → b ≤ c → a ≤ c
  lt_of_lt_of_le {a b c : K} : a < b → b ≤ c → a < c
  le_of_not_lt {a b c : K} : c < a → c < b → ¬ a < b → b ≤ a

instance {K : Type} [LT K] [LE K] [Std.IsLinearOrder K] [Std.LawfulOrderLT K] : Comparable K where
  lt_irrefl _ := Std.lt_irrefl
  le_of_lt := Std.le_of_lt
  le_trans := Std.le_trans
  lt_of_lt_of_le := Std.lt_of_lt_of_le
  le_of_not_lt _ _ := Std.not_lt.mp

instance : Comparable Float where
  lt_irrefl := Binary64.lt_irrefl
  le_of_lt := Binary64.le_of_lt
  le_trans := Binary64.le_trans
  lt_of_lt_of_le := Binary64.lt_of_lt_of_le
  le_of_not_lt habove habove' h := by
    rw [Binary64.lt_iff_not_le (Binary64.isNaN_eq_false_of_lt habove)
      (Binary64.isNaN_eq_false_of_lt habove'), not_not] at h
    exact h

variable {β K : Type} [Scale K] (score : β → K) (floor : K)

/-- The score that the next item has to exceed. -/
def bar : Option (Nat × β) → K
  | none => floor
  | some (_, b) => score b

/-- The best item so far and of those from position `next` on, with its position. -/
def climb : Option (Nat × β) → (next : Nat) → List β → Option (Nat × β)
  | best, _, [] => best
  | best, next, b :: bs =>
    climb (if bar score floor best < score b then some (next, b) else best) (next + 1) bs

/-- Of the items of a list, one is the first of greatest score, as far as scores can be compared. -/
structure Tops (front : List β) (b : β) (back : List β) : Prop where
  before : ∀ b' ∈ front, ¬ score b ≤ score b'
  behind : ∀ b' ∈ back, ¬ score b < score b'

/-- What a search has found among the items that it has gone through. -/
inductive Found (seen : List β) : Option (Nat × β) → Prop
  | nothing (hlow : ∀ b ∈ seen, ¬ floor < score b) : Found seen none
  | item {front b back} (hwhole : seen = front ++ b :: back) (habove : floor < score b)
      (htops : Tops score front b back) : Found seen (some (front.length, b))

variable {score floor}

section Laws

variable [Comparable K] {seen : List β} {best : Option (Nat × β)}

theorem Found.step (h : Found score floor seen best) (b : β) :
    Found score floor (seen ++ [b])
      (if bar score floor best < score b then some (seen.length, b) else best) := by
  cases h with
  | nothing hlow =>
    split
    · next hhigher =>
      refine .item rfl hhigher ⟨fun b' hb' hreached => ?_, by simp⟩
      exact hlow b' hb' (Comparable.lt_of_lt_of_le hhigher hreached)
    · next hlower =>
      refine .nothing fun b' hb' => ?_
      rcases List.mem_append.mp hb' with hold | hnew
      · exact hlow b' hold
      · rwa [List.mem_singleton.mp hnew]
  | @item front top back hwhole habove htops =>
    subst hwhole
    split
    · next hhigher =>
      have habove' : floor < score b :=
        Comparable.lt_of_lt_of_le habove (Comparable.le_of_lt hhigher)
      refine .item rfl habove' ⟨fun b' hb' hreached => ?_, by simp⟩
      rcases List.mem_append.mp hb' with hbefore | hafter
      · exact htops.before b' hbefore (Comparable.le_trans (Comparable.le_of_lt hhigher) hreached)
      · have hpassed : score top < score b' := Comparable.lt_of_lt_of_le hhigher hreached
        rcases List.mem_cons.mp hafter with rfl | hbehind
        · exact Comparable.lt_irrefl _ hpassed
        · exact htops.behind b' hbehind hpassed
    · next hlower =>
      refine .item (List.append_assoc ..) habove ⟨htops.before, fun b' hb' => ?_⟩
      rcases List.mem_append.mp hb' with hbehind | hnew
      · exact htops.behind b' hbehind
      · rwa [List.mem_singleton.mp hnew]

theorem found_climb (h : Found score floor seen best) (bs : List β) :
    Found score floor (seen ++ bs) (climb score floor best seen.length bs) := by
  induction bs generalizing seen best with
  | nil => simpa only [climb, List.append_nil] using h
  | cons b bs ih =>
    have hnext := ih (h.step b)
    rw [List.length_append, List.length_singleton, List.append_assoc] at hnext
    exact hnext

theorem found_climb_none (bs : List β) :
    Found score floor bs (climb score floor none 0 bs) :=
  found_climb (.nothing (List.forall_mem_nil _) : Found score floor [] none) bs

/-- An item of greatest score stands behind no other one that is the first of them. -/
theorem Tops.length_le {front front' back back' : List β} {b b' : β}
    (htops : Tops score front b back) (htops' : Tops score front' b' back')
    (habove : floor < score b) (habove' : floor < score b')
    (hsame : front ++ b :: back = front' ++ b' :: back') : front.length ≤ front'.length := by
  rcases List.append_eq_append_iff.mp hsame with ⟨between, rfl, -⟩ | ⟨between, rfl, hrest⟩
  · simp
  · cases between with
    | nil => simp
    | cons c between =>
      obtain ⟨rfl, rfl⟩ := List.cons.inj hrest
      have hreached : score b ≤ score b' :=
        Comparable.le_of_not_lt habove' habove (htops'.behind b (by simp))
      exact absurd hreached (htops.before b' (by simp))

/-- **Only the first item of greatest score is found.** -/
theorem Found.eq_some (h : Found score floor seen best) {front back : List β} {b : β}
    (hwhole : seen = front ++ b :: back) (habove : floor < score b)
    (htops : Tops score front b back) :
    best = some (front.length, b) := by
  cases h with
  | nothing hlow => exact absurd habove (hlow b (by simp [hwhole]))
  | @item front' b' back' hwhole' habove' htops' =>
    have hsame := hwhole'.symm.trans hwhole
    have hplace : front'.length = front.length :=
      Nat.le_antisymm (htops'.length_le htops habove' habove hsame)
        (htops.length_le htops' habove habove' hsame.symm)
    obtain ⟨rfl, hrest⟩ := List.append_inj hsame hplace
    obtain ⟨rfl, -⟩ := List.cons.inj hrest
    rfl

end Laws

/-! ## What is searched for -/

/-- How much a workload is like that of an entry. -/
def Entry.likeness (e : Entry K) (w : Workload) : K := w.similarity e.workload

theorem nearestFrom_eq (w : Workload) (best : Option (Nat × Entry K)) (next : Nat)
    (es : List (Entry K)) :
    nearestFrom w (best.map fun p => (p.1, p.2.likeness w)) next es =
      (climb (fun e => e.likeness w) 0.0 best next es).map fun p => (p.1, p.2.likeness w) := by
  induction es generalizing best next with
  | nil => rfl
  | cons e es ih =>
    rw [climb, ← ih, apply_ite (Option.map _)]
    cases best <;> rfl

theorem leader_eq (e : Entry K) (best : Option (Nat × Strategy)) (next : Nat)
    (ss : List Strategy) :
    e.leader (best.elim (.firstWins, 0.0) fun p => (p.2, (e.record p.2).merit)) ss =
      (climb (fun s => (e.record s).merit) 0.0 best next ss).elim (.firstWins, 0.0)
        fun p => (p.2, (e.record p.2).merit) := by
  induction ss generalizing best next with
  | nil => rfl
  | cons s ss ih =>
    rw [climb, ← ih, apply_ite fun best : Option (Nat × Strategy) => best.elim _ _]
    cases best <;> rfl

section Searches

variable [Comparable K]

theorem exists_found_nearest (x : Experience K) (w : Workload) :
    ∃ best, Found (fun e => e.likeness w) 0.0 x.entries best ∧
      x.nearest w = best.map fun p => (p.1, p.2.likeness w) :=
  ⟨_, found_climb_none x.entries, nearestFrom_eq w none 0 x.entries⟩

theorem exists_found_recommended (e : Entry K) :
    ∃ best, Found (fun s => (e.record s).merit) 0.0 Strategy.all best ∧
      e.recommended = best.elim .firstWins Prod.snd := by
  refine ⟨_, found_climb_none Strategy.all, ?_⟩
  have hled := congrArg Prod.fst (leader_eq e none 0 Strategy.all)
  refine hled.trans ?_
  cases climb (fun s => (e.record s).merit) 0.0 none 0 Strategy.all <;> rfl

end Searches

end Superpose.Experience
