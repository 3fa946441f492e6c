import Superpose.Settings.Environment
import Superpose.Settings.File

/-!
# Loading settings

Settings come from a file, if one is named, and the environment overrides them.
-/

namespace Superpose.Settings

/-- Why settings could not be loaded. -/
inductive LoadFault (ε : Type) where
  | file (fault : FileFault ε)
  | environment (fault : EnvironmentFault)
  deriving DecidableEq

/-- Settings from the file at a path, of which the content is given, or else the usual settings, as
the environment overrides them. -/
def load (F : Format) (file : Option (String × Option ByteArray))
    (environment : String → Option String) : Except (LoadFault F.Failure) Settings := do
  let s ←
    match file with
    | none => .ok {}
    | some (path, content) => (ofFile F path content).mapError .file
  match s.override environment with
  | (some fault, _) => .error (.environment fault)
  | (none, s) => .ok s

end Superpose.Settings
