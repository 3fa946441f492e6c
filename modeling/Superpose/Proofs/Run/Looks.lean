import Superpose.Proofs.Run.Course
import Superpose.Proofs.Steering.Ledger

/-!
# The looks of a steering

After each wave of a run the steering looks at the register. A single look changes the strategy to
what the figures call for, if the steering has changed nothing yet (`looked`). What a run or a
longer history leaves to the looks is `Watched`: a figure of the register that nothing but looks
changes. Of a whole list of looks the first that calls for a change makes it, and no other
(`Watched.changes_eq`).
-/

namespace Superpose.Register

open Steering (Ledger)

variable {α ω : Type}

/-- What the steering has spent, if there is one. -/
def ledger (r : Register α ω) : Option Ledger := r.steering.map Steering.ledger

/-- Whether the steering has changed the strategy. -/
def spent (r : Register α ω) : Bool := r.ledger.any Ledger.switched

variable [Clocked ω]

/-! ## One look -/

/-- The strategy that the figures of a register call for when its steering looks at them. -/
def call (r : Register α ω) (w : ω) : Option Strategy :=
  if r.progress.executing then
    r.steering.bind fun s => s.call (Clocked.read w).1 r.progress.completed r.progress.failed
      r.count r.supports (s.advise (Clocked.read w).2 r.workload)
  else none

/-- The strategy that a look changes to. -/
def change (r : Register α ω) (w : ω) : Option Strategy :=
  if (r.checkpoint w).1 then some (r.checkpoint w).2.1.strategy else none

/-- What a look does. -/
structure Looked (r : Register α ω) (w : ω) : Prop where
  change : r.change w = if r.spent then none else r.call w
  ledger : Ledger.Spends r.ledger (r.change w).toList (r.checkpoint w).2.1.ledger
  strategy : (r.checkpoint w).2.1.strategy = (r.change w).getD r.strategy

theorem looked_of_idle {r : Register α ω} {w : ω} (h : r.checkpoint w = (false, r, w))
    (hcall : r.call w = none) : Looked r w := by
  have hchange : r.change w = none := by rw [change, h, if_neg Bool.false_ne_true]
  refine ⟨?_, ?_, ?_⟩
  · rw [hchange, hcall, ite_self]
  · rw [hchange, h]
    exact .kept _
  · rw [hchange, h]
    rfl

theorem checkpoint_eq_check {r : Register α ω} {s : Steering ω} (hs : r.steering = some s)
    (hon : r.progress.executing = true) (hpolicy : s.policy ≠ .none) (w : ω) :
    let check := s.check (Clocked.read w).1 r.progress.completed r.progress.failed r.count
      r.supports (s.advise (Clocked.read w).2 r.workload)
    r.checkpoint w = (check.1.isSome,
      { r with steering := some check.2, strategy := check.1.getD r.strategy },
      (Clocked.read w).2) := by
  have hwatched : (r.progress.executing && s.policy != .none) = true := by
    rw [hon, Bool.true_and, bne_iff_ne]
    exact hpolicy
  simp only [checkpoint, hs, hwatched, ↓reduceIte, steer]
  rcases s.check (Clocked.read w).1 r.progress.completed r.progress.failed r.count r.supports
    (s.advise (Clocked.read w).2 r.workload) with ⟨_ | next, s'⟩ <;> rfl

/-- **What a look does**: it changes the strategy to what the figures call for, unless the steering
has changed it before. -/
theorem looked (r : Register α ω) (w : ω) : Looked r w := by
  cases hs : r.steering with
  | none =>
    refine looked_of_idle ?_ ?_
    · rw [checkpoint, hs]
    · rw [call, hs, Option.bind_none, ite_self]
  | some s =>
    by_cases hon : r.progress.executing = true
    · by_cases hpolicy : s.policy = .none
      · refine looked_of_idle (checkpoint_of_unwatched (by simp [hs, hpolicy]) w) ?_
        simp [call, hs, Steering.call, Steering.trigger, hpolicy]
      · have hcheck := checkpoint_eq_check hs hon hpolicy w
        have hspent : r.spent = s.switched := by rw [spent, ledger, hs]; rfl
        have hchange : r.change w = (s.check (Clocked.read w).1 r.progress.completed
            r.progress.failed r.count r.supports
            (s.advise (Clocked.read w).2 r.workload)).1 := by
          rw [change, hcheck]
          cases (s.check (Clocked.read w).1 r.progress.completed r.progress.failed r.count
            r.supports (s.advise (Clocked.read w).2 r.workload)).1 <;> rfl
        refine ⟨?_, ?_, ?_⟩
        · rw [hchange, Steering.check_fst, hspent, call, if_pos hon, hs, Option.bind_some]
        · rw [hchange, hcheck, ledger, hs]
          exact s.spends_check ..
        · rw [hchange, hcheck]
    · rw [Bool.not_eq_true] at hon
      refine looked_of_idle ?_ ?_
      · rw [checkpoint, hs, hon]
        rfl
      · rw [call, hon, if_neg Bool.false_ne_true]

/-! ## Many looks -/

/-- What the figures call for at some looks. -/
def calls (looks : List (Register α ω × ω)) : List Strategy :=
  looks.filterMap fun look => look.1.call look.2

/-- The strategies that some looks change to. -/
def changes (looks : List (Register α ω × ω)) : List Strategy :=
  looks.filterMap fun look => look.1.change look.2

theorem calls_cons (r : Register α ω) (w : ω) (looks : List (Register α ω × ω)) :
    calls ((r, w) :: looks) = (r.call w).toList ++ calls looks := by
  rw [calls, List.filterMap_cons]
  cases r.call w <;> rfl

theorem changes_cons (r : Register α ω) (w : ω) (looks : List (Register α ω × ω)) :
    changes ((r, w) :: looks) = (r.change w).toList ++ changes looks := by
  rw [changes, List.filterMap_cons]
  cases r.change w <;> rfl

/-- A figure of a register that is changed by looks, in the order of a list, and by nothing else. -/
inductive Watched {β : Type} (f : Register α ω → β) : β → List (Register α ω × ω) → β → Prop
  | still (b : β) : Watched f b [] b
  | look (r : Register α ω) (w : ω) {looks : List (Register α ω × ω)} {b : β}
      (h : Watched f (f (r.checkpoint w).2.1) looks b) : Watched f (f r) ((r, w) :: looks) b

namespace Watched

variable {β : Type} {f : Register α ω → β} {looks more : List (Register α ω × ω)}

theorem append {a b c : β} (h : Watched f a looks b) (h' : Watched f b more c) :
    Watched f a (looks ++ more) c := by
  induction h with
  | still => exact h'
  | look r w _ ih => exact .look r w (ih h')

/-- What was so before a look. -/
theorem before {r : Register α ω} {w : ω} {a b : β} (h : Watched f a (looks ++ (r, w) :: more) b) :
    Watched f a looks (f r) := by
  induction looks generalizing a with
  | nil =>
    cases h
    exact .still _
  | cons look looks ih =>
    cases h with
    | look r' w' h => exact .look r' w' (ih h)

theorem spends {a b : Option Ledger} (h : Watched ledger a looks b) :
    Ledger.Spends a (changes looks) b := by
  induction h with
  | still => exact .kept _
  | look r w _ ih =>
    rw [changes_cons]
    exact (looked r w).ledger.append ih

/-- **The first call is answered, and no other**: of all that the figures call for at some looks,
the first changes the strategy if nothing has changed it before. -/
theorem changes_eq {a b : Option Ledger} (h : Watched ledger a looks b) :
    changes looks = if a.any Ledger.switched then [] else (calls looks).take 1 := by
  induction h with
  | still => exact (ite_self _).symm
  | look r w _ ih =>
    obtain ⟨hchange, hledger, -⟩ := looked r w
    have hafter := hledger.any_switched
    have hspent : r.ledger.any Ledger.switched = r.spent := rfl
    -- a spent ledger stays spent, and one that is not is spent by the first call
    rw [changes_cons, calls_cons, ih, hafter, hchange, hspent]
    cases r.spent with
    | true => simp
    | false => cases r.call w <;> simp

theorem strategy_eq {a b : Strategy} (h : Watched strategy a looks b) :
    b = (changes looks).getLastD a := by
  induction h with
  | still => rfl
  | @look r w looks b _ ih =>
    rw [changes_cons, ih, (looked r w).strategy]
    cases r.change w with
    | none => rfl
    | some next => cases changes looks <;> rfl

end Watched

/-! ## The looks of a run -/

/-- The registers at which the steering looks after waves, with the worlds in which it does. -/
def waveLooks : (number : Nat) → List (List Nat) → Register α ω → ω → List (Register α ω × ω)
  | _, [], _, _ => []
  | number, wave :: waves, r, w =>
    let site := r.runWave w number wave
    if site.panicked then []
    else
      let checked := site.register.checkpoint site.world
      (site.register, site.world) :: waveLooks (number + 1) waves checked.2.1 checked.2.2

/-- What waves and checkpoints keep is so at every look after a wave. -/
theorem forall_waveLooks {P : Register α ω → Prop}
    (hwave : ∀ r w number wave, P r → P (runWave r w number wave).register)
    (hcheck : ∀ r w, P r → P (checkpoint r w).2.1) :
    ∀ (waves : List (List Nat)) (number : Nat) (r : Register α ω) (w : ω), P r →
      ∀ look ∈ waveLooks number waves r w, P look.1 := by
  intro waves
  induction waves with
  | nil =>
    intro number r w _
    exact List.forall_mem_nil _
  | cons wave waves ih =>
    intro number r w h
    have hran := hwave r w number wave h
    rw [waveLooks]
    simp only
    split
    · exact List.forall_mem_nil _
    · rw [List.forall_mem_cons]
      exact ⟨hran, ih _ _ _ (hcheck _ _ hran)⟩

/-- The looks of a run in a given order. -/
def looksOf (r : Register α ω) (w : ω) (order : List Nat) : List (Register α ω × ω) :=
  waveLooks 0 (r.waves order) (r.begin (Clocked.read w).1) (Clocked.read w).2

section Run

variable {β : Type} {f : Register α ω → β}
  (hwave : ∀ r w number wave, f (runWave r w number wave).register = f r)

include hwave in
theorem watched_runWaves : ∀ (waves : List (List Nat)) (number : Nat) (r : Register α ω) (w : ω),
    Watched f (f r) (waveLooks number waves r w) (f (runWaves number waves r w).register) := by
  intro waves
  induction waves with
  | nil => intro number r w; exact .still _
  | cons wave waves ih =>
    intro number r w
    rw [waveLooks, runWaves]
    simp only
    by_cases hp : (r.runWave w number wave).panicked = true
    · rw [if_pos hp, if_pos hp, hwave]
      exact .still _
    · -- the wave leaves the figure alone, and the checkpoint after it is the first look
      rw [if_neg hp, if_neg hp, ← hwave r w number wave]
      exact .look _ _ (ih _ _ _)

include hwave in
/-- What neither waves nor the beginning and the end of a run change, only its looks change. -/
theorem watched_runInOrder (hbegin : ∀ r now, f (begin r now) = f r)
    (hfinish : ∀ r time, f (finish r time) = f r) {r : Register α ω} (hready : r.obstacle = none)
    (w : ω) (order : List Nat) :
    Watched f (f r) (r.looksOf w order) (f (r.runInOrder w order).2.1) := by
  have hwaves := watched_runWaves hwave (r.waves order) 0 (r.begin (Clocked.read w).1)
    (Clocked.read w).2
  rw [hbegin] at hwaves
  rw [runInOrder_of_ready hready]
  split
  · exact hwaves
  · rw [hfinish]
    exact hwaves

end Run

theorem watched_ledger_runInOrder {r : Register α ω} (hready : r.obstacle = none) (w : ω)
    (order : List Nat) :
    Watched ledger r.ledger (r.looksOf w order) (r.runInOrder w order).2.1.ledger := by
  refine watched_runInOrder (fun _ _ _ _ => rfl) (fun r now => ?_) (fun _ _ => rfl) hready w order
  rw [ledger, ledger, begin, Option.map_map]
  rfl

theorem watched_strategy_runInOrder {r : Register α ω} (hready : r.obstacle = none) (w : ω)
    (order : List Nat) :
    Watched strategy r.strategy (r.looksOf w order) (r.runInOrder w order).2.1.strategy :=
  watched_runInOrder (fun _ _ _ _ => rfl) (fun _ _ => rfl) (fun _ _ => rfl) hready w order

end Superpose.Register
