import Superpose.Settings.Basic
import Superpose.Settings.Format

/-!
# Settings in a text

The form that settings have in a text, whatever its format: a record of sections, each of which is a
record in turn. A section may be left out, and then is as usual; one that is there has to be
complete, but for the seed.
-/

namespace Superpose

variable (F : Format)

/-! ## Sections -/

/-- How logging is set. -/
def Logging.codec : F.Codec Logging :=
  F.record
    [ ⟨"level", true, F.text, level, fun s x => { s with level := x }⟩,
      ⟨"json_file", true, F.flag, keepsFile, fun s x => { s with keepsFile := x }⟩,
      ⟨"log_dir", true, F.text, directory, fun s x => { s with directory := x }⟩ ]
    {}

/-- Strategies by name. -/
def Strategy.codec : F.Codec Strategy := F.choice Strategy.all Strategy.name

/-- Modes of dispatch by name. -/
def DispatchMode.codec : F.Codec DispatchMode := F.choice DispatchMode.all DispatchMode.name

/-- How registers are set. -/
def Register.Settings.codec : F.Codec Register.Settings :=
  F.record
    [ ⟨"default_strategy", true, Strategy.codec F, strategy, fun s x => { s with strategy := x }⟩,
      ⟨"wait_for_all", true, F.flag, waitsForAll, fun s x => { s with waitsForAll := x }⟩,
      ⟨"dispatch", true, DispatchMode.codec F, dispatch, fun s x => { s with dispatch := x }⟩,
      ⟨"wave_size", true, F.word, waveSize, fun s x => { s with waveSize := x }⟩ ]
    {}

/-- How an experience is set. -/
def Experience.Settings.codec : F.Codec (Experience.Settings Float) :=
  F.record
    [ ⟨"enabled", true, F.flag, enabled, fun s x => { s with enabled := x }⟩,
      ⟨"match_threshold", true, F.real, matchThreshold, fun s x => { s with matchThreshold := x }⟩,
      ⟨"learning_rate", true, F.real, learningRate, fun s x => { s with learningRate := x }⟩,
      ⟨"initial_capacity", true, F.word, initialCapacity,
        fun s x => { s with initialCapacity := x }⟩,
      ⟨"confidence_gate", true, F.real, confidenceGate, fun s x => { s with confidenceGate := x }⟩,
      ⟨"low_variance_threshold", true, F.word, lowVariance,
        fun s x => { s with lowVariance := x }⟩ ]
    .standard

/-- Plans by name. -/
def Forecast.Plan.codec : F.Codec Forecast.Plan := F.choice Forecast.Plan.all Forecast.Plan.name

/-- How forecasts are set. -/
def Forecast.Settings.codec : F.Codec Forecast.Settings :=
  F.record
    [ ⟨"strategy", true, Forecast.Plan.codec F, plan, fun s x => { s with plan := x }⟩,
      ⟨"pattern_capacity", true, F.word, patternCapacity,
        fun s x => { s with patternCapacity := x }⟩,
      ⟨"accuracy_tolerance", true, F.real, tolerance, fun s x => { s with tolerance := x }⟩,
      ⟨"error_smoothing", true, F.real, smoothing, fun s x => { s with smoothing := x }⟩,
      ⟨"learned_confidence", true, F.real, learnedConfidence,
        fun s x => { s with learnedConfidence := x }⟩,
      ⟨"heuristic_confidence", true, F.real, heuristicConfidence,
        fun s x => { s with heuristicConfidence := x }⟩,
      ⟨"complexity_factor", true, F.word, complexityFactor,
        fun s x => { s with complexityFactor := x }⟩,
      ⟨"randomize", true, F.flag, randomize, fun s x => { s with randomize := x }⟩,
      ⟨"seed", false, F.optional F.word, seed, fun s x => { s with seed := x }⟩ ]
    {}

/-- How a bus is set. -/
def Bus.Settings.codec : F.Codec Bus.Settings :=
  F.record
    [ ⟨"enabled", true, F.flag, enabled, fun s x => { s with enabled := x }⟩,
      ⟨"broadcast_enabled", true, F.flag, broadcast, fun s x => { s with broadcast := x }⟩,
      ⟨"message_priority", true, F.shortWord, priority, fun s x => { s with priority := x }⟩,
      ⟨"max_message_age_ms", true, F.word, maxAge, fun s x => { s with maxAge := x }⟩,
      ⟨"capacity", true, F.word, capacity, fun s x => { s with capacity := x }⟩ ]
    {}

/-- How thresholds are set. -/
def Steering.Thresholds.codec : F.Codec Steering.Thresholds :=
  F.record
    [ ⟨"timeout_ms", true, F.word, timeout, fun s x => { s with timeout := x }⟩,
      ⟨"failure_rate_threshold", true, F.real, failureRate,
        fun s x => { s with failureRate := x }⟩,
      ⟨"quality_threshold", true, F.real, quality, fun s x => { s with quality := x }⟩,
      ⟨"check_interval_ms", true, F.word, interval, fun s x => { s with interval := x }⟩ ]
    {}

/-! ## All sections -/

/-- How all is set. -/
def Settings.codec : F.Codec Settings :=
  F.record
    [ ⟨"logging", false, Logging.codec F, logging, fun s x => { s with logging := x }⟩,
      ⟨"register", false, Register.Settings.codec F, register,
        fun s x => { s with register := x }⟩,
      ⟨"observer", false, Experience.Settings.codec F, experience,
        fun s x => { s with experience := x }⟩,
      ⟨"scheduler", false, Forecast.Settings.codec F, forecast,
        fun s x => { s with forecast := x }⟩,
      ⟨"bus", false, Bus.Settings.codec F, bus, fun s x => { s with bus := x }⟩,
      ⟨"adaptive", false, Steering.Thresholds.codec F, steering,
        fun s x => { s with steering := x }⟩ ]
    {}

end Superpose
