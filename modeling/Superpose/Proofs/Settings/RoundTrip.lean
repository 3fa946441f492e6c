import Superpose.Proofs.Workbench.Json.Format
import Superpose.Settings.File

/-!
# Settings come back

The settings in a file are those that were written to it, in any format that restores the kinds of
data that settings are made of. Each section is a record whose parts are restored one by one, and so
are all settings, whose parts are the sections. The only thing that is left to ask for is that each
of the real numbers among them is read back from its digits.
-/

namespace Superpose

variable {F : Format} {Restores : {β : Type} → F.Codec β → β → Prop}
  (hF : F.Lawful Restores)

include hF

/-! ## Sections -/

theorem Logging.restores (s : Logging) : Restores (codec F) s :=
  hF.record (by simp)
    (List.forall_iff_forall_mem.mp ⟨hF.text _, hF.flag _, hF.text _⟩) rfl

theorem Strategy.restores (s : Strategy) : Restores (codec F) s :=
  hF.choice (by decide) (by cases s <;> decide)

theorem DispatchMode.restores (m : DispatchMode) : Restores (codec F) m :=
  hF.choice (by decide) (by cases m <;> decide)

theorem Register.Settings.restores (s : Register.Settings) : Restores (codec F) s :=
  hF.record (by simp)
    (List.forall_iff_forall_mem.mp
      ⟨Strategy.restores hF _, hF.flag _, DispatchMode.restores hF _, hF.word _⟩) rfl

theorem Experience.Settings.restores {s : Experience.Settings Float}
    (hmatch : Restores F.real s.matchThreshold) (hrate : Restores F.real s.learningRate)
    (hgate : Restores F.real s.confidenceGate) : Restores (codec F) s :=
  hF.record (by simp)
    (List.forall_iff_forall_mem.mp ⟨hF.flag _, hmatch, hrate, hF.word _, hgate, hF.word _⟩) rfl

theorem Forecast.Plan.restores (p : Forecast.Plan) : Restores (codec F) p :=
  hF.choice (by decide) (by cases p <;> decide)

theorem Forecast.Settings.restores {s : Forecast.Settings}
    (htolerance : Restores F.real s.tolerance) (hsmoothing : Restores F.real s.smoothing)
    (hlearned : Restores F.real s.learnedConfidence)
    (hheuristic : Restores F.real s.heuristicConfidence) : Restores (codec F) s :=
  hF.record (by simp)
    (List.forall_iff_forall_mem.mp
      ⟨Plan.restores hF _, hF.word _, htolerance, hsmoothing, hlearned, hheuristic, hF.word _,
        hF.flag _, hF.optional_word _⟩) rfl

theorem Bus.Settings.restores (s : Bus.Settings) : Restores (codec F) s :=
  hF.record (by simp)
    (List.forall_iff_forall_mem.mp
      ⟨hF.flag _, hF.flag _, hF.shortWord _, hF.word _, hF.word _⟩) rfl

theorem Steering.Thresholds.restores {s : Steering.Thresholds}
    (hrate : Restores F.real s.failureRate) (hquality : Restores F.real s.quality) :
    Restores (codec F) s :=
  hF.record (by simp)
    (List.forall_iff_forall_mem.mp ⟨hF.word _, hrate, hquality, hF.word _⟩) rfl

/-! ## All sections -/

namespace Settings

omit hF in
/-- The real numbers among settings. -/
def reals (s : Settings) : List Float :=
  [s.experience.matchThreshold, s.experience.learningRate, s.experience.confidenceGate,
    s.forecast.tolerance, s.forecast.smoothing, s.forecast.learnedConfidence,
    s.forecast.heuristicConfidence, s.steering.failureRate, s.steering.quality]

theorem restores {s : Settings} (hreals : ∀ x ∈ s.reals, Restores F.real x) :
    Restores (codec F) s := by
  simp only [reals, List.forall_mem_cons] at hreals
  obtain ⟨hmatch, hrate, hgate, htolerance, hsmoothing, hlearned, hheuristic, hfailure, hquality,
    -⟩ := hreals
  have hexperience : Restores (Experience.Settings.codec F) s.experience :=
    Experience.Settings.restores hF hmatch hrate hgate
  have hforecast : Restores (Forecast.Settings.codec F) s.forecast :=
    Forecast.Settings.restores hF htolerance hsmoothing hlearned hheuristic
  have hsteering : Restores (Steering.Thresholds.codec F) s.steering :=
    Steering.Thresholds.restores hF hfailure hquality
  exact hF.record (by simp)
    (List.forall_iff_forall_mem.mp
      ⟨Logging.restores hF _, Register.Settings.restores hF _, hexperience, hforecast,
        Bus.Settings.restores hF _, hsteering⟩) rfl

/-- **The settings in a file are the settings that were written to it**, in each field of each
section, whatever the format, if all real numbers among them are finite and read back from their
digits. The latter is asked of these numbers only: a format may round, and then it does not hold of
every number. -/
theorem ofFile_toText (path : String) (s : Settings) (hfinite : ∀ x ∈ s.reals, x.isFinite)
    (hdigits : ∀ x ∈ s.reals, x.isFinite → Restores F.real x) :
    ofFile F path (some (s.toText F).toUTF8) = .ok s := by
  have hcontent (text : String) : String.fromUTF8? text.toUTF8 = some text :=
    dif_pos text.isValidUTF8
  have hrestored : Restores (codec F) s := restores hF fun x hx => hdigits x hx (hfinite x hx)
  have htext : ofText F (s.toText F) = .ok s := hF.read_write hrestored
  rw [ofFile, Option.bind_some, hcontent]
  simp only [htext, Except.mapError]

end Settings

omit hF

namespace Settings

open Workbench.Json

theorem ofFile_toText_escapes :
    let s : Settings :=
      { logging := { level := "\"a\\b\"/\x00\x1f\n\r\t\x08\x0c", directory := "r\u00e9/\x7f" }
        register :=
          { strategy := .multiDim, dispatch := .parallel, waveSize := 18446744073709551615 }
        experience :=
          { (.standard : Experience.Settings Float) with
            matchThreshold := -2.5, learningRate := 1e-7, confidenceGate := -0.0 }
        forecast := { seed := some 18446744073709551615 } }
    (∀ x ∈ s.reals, x.isFinite ∧ Number.ReadsBack x) ∧
      ofFile format "settings.json" (some (s.toText format).toUTF8) = .ok s := by
  intro s
  have hdigits : ∀ x ∈ s.reals, x.isFinite ∧ Number.ReadsBack x := by decide +kernel
  exact ⟨hdigits, ofFile_toText format_lawful _ s (fun x hx => (hdigits x hx).1) fun x hx _ =>
    Codec.restores_real (hdigits x hx).2⟩

end Settings

end Superpose
