import Superpose.Workbench.Bench

/-!
# Calls of an experience

What can be asked of an experience, as data: reports of finished runs of any registers, switching it
on and off, a reset, and questions. `Observing` lists what becomes of an observation; every other
call leaves the entries alone or forgets all of them.
-/

namespace Superpose.Experience

open Workbench

variable {K : Type}

inductive Operation (K : Type) : Type 1 where
  | report {α ω : Type} (r : Register α ω) (time : UInt64) (quality : K) (memory : Nat → Bool)
  /-- A report on a run that a ticket was taken for when it began. -/
  | close {α ω : Type} (t : Ticket) (now : UInt64) (r : Register α ω) (quality : K)
    (memory : Nat → Bool)
  | setEnabled (on : Bool)
  | reset
  | recommend (w : Workload)
  | confidence (w : Workload) (s : Strategy)

inductive Answer (K : Type) where
  | done
  | advice (s : Strategy)
  | confidence (c : K)

namespace Operation

/-- What a report tells. -/
def observation? : Operation K → Option (Observation K)
  | report r time quality memory => some (Bench.observation r time quality memory)
  | close t now r quality memory => some (Bench.observation r (elapsed t.time now) quality memory)
  | _ => none

def reports (c : Operation K) : Bool := c.observation?.isSome

def isReset : Operation K → Bool
  | reset => true
  | _ => false

theorem reports_of_observation? {c : Operation K} {o : Observation K}
    (h : c.observation? = some o) : c.reports = true := by
  rw [reports, h]
  rfl

variable [Scale K]

def perform (x : Experience K) : Operation K → Answer K × Experience K
  | report r time quality memory => (.done, x.observe (Bench.observation r time quality memory))
  | close t now r quality memory =>
    (.done, x.observe (Bench.observation r (elapsed t.time now) quality memory))
  | setEnabled on => (.done, x.setEnabled on)
  | reset => (.done, x.reset)
  | recommend w => (.advice (x.recommend w), x)
  | confidence w s => (.confidence (x.confidence w s), x)

theorem perform_of_observation? {c : Operation K} {o : Observation K}
    (h : c.observation? = some o) (x : Experience K) : (c.perform x).2 = x.observe o := by
  cases c <;> cases h <;> rfl

end Operation

variable [Scale K]

/-- What a call does to the experience. -/
inductive Effect (x : Experience K) (c : Operation K) : Experience K → Prop
  | observed {o} (htold : c.observation? = some o) : Effect x c (x.observe o)
  | reset (hasked : c.isReset = true) : Effect x c x.reset
  | aside (huntold : c.observation? = none) (on : Bool) : Effect x c { x with enabled := on }

theorem Operation.effect (c : Operation K) (x : Experience K) : Effect x c (c.perform x).2 := by
  cases c with
  | report | close => exact .observed rfl
  | setEnabled on => exact .aside rfl on
  | reset => exact .reset rfl
  | recommend | confidence => exact .aside rfl x.enabled

/-- The experience after a number of calls. -/
def performAll (x : Experience K) : List (Operation K) → Experience K
  | [] => x
  | c :: calls => (c.perform x).2.performAll calls

/-- A register of so many qubits, which was never run. -/
def idle (n : Nat) (s : Strategy) : Register Nat Unit :=
  { qubits := List.replicate n (.blank 0), strategy := s }

/-- No piece of memory has `2 ^ 63` bytes. -/
def addressable (entries : Nat) : Bool := decide (entries < UInt64.size / 2)

/-- A report when there is all the memory that can be. -/
def tell (r : Register Nat Unit) (time : UInt64) (quality : K) : Operation K :=
  .report r time quality addressable

/-! ## Observations -/

theorem index_lt_of_nearestFrom {w : Workload} {best : Option (Nat × K)} {next i : Nat}
    {es : List (Entry K)} {likeness : K} (hknown : ∀ b ∈ best, b.1 < next)
    (h : nearestFrom w best next es = some (i, likeness)) : i < next + es.length := by
  induction es generalizing best next with
  | nil => exact hknown (i, likeness) h
  | cons e es ih =>
    have hstep (closer : Prop) [Decidable closer] (top : K) :
        ∀ b ∈ (if closer then some (next, top) else best), b.1 < next + 1 := by
      intro b hb
      split at hb
      · cases hb
        exact Nat.lt_succ_self next
      · exact Nat.lt_succ_of_lt (hknown b hb)
    have hlater := ih (hstep _ _) h
    simp only [List.length_cons]
    omega

theorem index_lt_of_matching {x : Experience K} {w : Workload} {i : Nat}
    (h : x.matching w = some i) : i < x.entries.length := by
  unfold matching at h
  split at h
  · cases h
  · next j likeness hfound =>
    split at h
    · cases h
      simpa using index_lt_of_nearestFrom (by simp) hfound
    · cases h

theorem modify_concat {β : Type} (l : List β) (a : β) (f : β → β) :
    (l ++ [a]).modify l.length f = l ++ [f a] := by
  induction l with
  | nil => rfl
  | cons b l ih => simp [ih]

/-- What becomes of an observation. -/
inductive Observing (x : Experience K) (o : Observation K) : Experience K → Prop
  | off (hoff : x.enabled = false) : Observing x o x
  | folded {front e back} (hon : x.enabled = true) (hwhole : x.entries = front ++ e :: back)
      (hsame : x.matching o.workload = some front.length) :
      Observing x o
        { x with
          entries := front ++ x.fold o e :: back
          observations := x.observations + 1 }
  | opened {capacity} (hon : x.enabled = true) (hnew : x.matching o.workload = none)
      (hroom : x.room o.memory = some capacity) :
      Observing x o
        { x with
          entries := x.entries ++ [x.fold o (.ofWorkload o.workload)]
          capacity
          observations := x.observations + 1 }
  | lost (hon : x.enabled = true) (hnew : x.matching o.workload = none)
      (hfull : x.room o.memory = none) :
      Observing x o x

theorem observing (x : Experience K) (o : Observation K) : Observing x o (x.observe o) := by
  unfold observe
  cases hon : x.enabled with
  | false => exact .off hon
  | true =>
    cases hfound : x.matching o.workload with
    | some i =>
      obtain ⟨front, e, back, hwhole, rfl, hmodified⟩ :=
        List.exists_of_modify (x.fold o) (index_lt_of_matching hfound)
      simpa [place, hfound, hmodified] using Observing.folded hon hwhole hfound
    | none =>
      cases hroom : x.room o.memory with
      | none => simpa [place, hfound, hroom] using Observing.lost hon hfound hroom
      | some capacity => simpa [place, hfound, hroom, modify_concat] using .opened hon hfound hroom

end Superpose.Experience
