import Superpose.Qubit

/-!
# Self-contained bodies

A body is self-contained (`Body.SelfContained`) if its ending and data depend on nothing but the
data that it finds. While the clock stands still (`StandsStill`), a qubit with such a body comes to
the same whenever it is run: there is one ending and one qubit for all worlds
(`Qubit.exists_run_eq`).
-/

namespace Superpose

variable {α ω : Type}

/-- In the worlds of `S` the clock shows one time, and looking at it does not lead out of them. -/
structure StandsStill [Clocked ω] (time : UInt64) (S : ω → Prop) : Prop where
  now : ∀ {w}, S w → (Clocked.read w).1 = time
  kept : ∀ {w}, S w → S (Clocked.read w).2

/-- A body whose ending and data depend on nothing but the data that it finds, that never breaks off
and that does not lead out of `S`. -/
def Body.SelfContained (S : ω → Prop) (body : Body α ω) : Prop :=
  ∃ outcome : α → Ending × α, ∀ data, (outcome data).1 ≠ .panicked ∧
    ∀ w, S w → (body data w).ending = (outcome data).1 ∧ (body data w).data = (outcome data).2 ∧
      S (body data w).world

/-- A qubit whose body, if there is one, is self-contained. -/
def Qubit.SelfContained (S : ω → Prop) (q : Qubit α ω) : Prop :=
  ∀ body ∈ q.body, body.SelfContained S

variable [Clocked ω] {time : UInt64} {S : ω → Prop}

/-- A self-contained qubit comes to the same in all worlds of `S`. -/
theorem Qubit.exists_run_eq (hstill : StandsStill time S) {q : Qubit α ω}
    (hq : q.SelfContained S) :
    ∃ ending after, ending ≠ .panicked ∧ ∀ w, S w →
      (q.run w).ending = ending ∧ (q.run w).qubit = after ∧ S (q.run w).world := by
  cases hb : q.body with
  | none =>
    refine ⟨.failed, { q with status := .failed, started := time, ended := time }, by decide,
      fun w hw => ?_⟩
    have hw' := hstill.kept hw
    unfold run
    simp only [hb, finish, hstill.now hw, hstill.now hw']
    exact ⟨trivial, rfl, hstill.kept hw'⟩
  | some body =>
    obtain ⟨outcome, houtcome⟩ := hq body hb
    obtain ⟨hcalm, hbody⟩ := houtcome q.data
    refine ⟨(outcome q.data).1, { q with
      status := if (outcome q.data).1 = .returned then .completed else .failed
      data := (outcome q.data).2, started := time, ended := time }, hcalm, fun w hw => ?_⟩
    obtain ⟨hending, hdata, hworld⟩ := hbody _ (hstill.kept hw)
    unfold run
    simp only [hb, finish, hending, hdata, if_neg hcalm, hstill.now hw, hstill.now hworld]
    exact ⟨trivial, trivial, hstill.kept hworld⟩

end Superpose
