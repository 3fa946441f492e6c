import Superpose.Bus.Basic
import Superpose.Experience.Basic
import Superpose.Forecast.Basic
import Superpose.Register.Basic
import Superpose.Steering.Policy

/-!
# Settings

All that can be set from outside, in one section for each part of a program that runs registers.
-/

namespace Superpose

/-- What is logged, and where. -/
structure Logging where
  level : String := "info"
  keepsFile : Bool := false
  directory : String := "logs"
  deriving DecidableEq

/-- All that can be set from outside. -/
structure Settings where
  logging : Logging := {}
  register : Register.Settings := {}
  experience : Experience.Settings Float := .standard
  forecast : Forecast.Settings := {}
  bus : Bus.Settings := {}
  steering : Steering.Thresholds := {}

end Superpose
