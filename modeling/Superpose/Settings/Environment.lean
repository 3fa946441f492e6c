import Superpose.Settings.Basic

/-!
# Settings in the environment

Seven variables of the environment override single settings. They are read in a fixed order. At the
first one that makes no sense the reading stops, and what the variables before it have changed stays
changed.
-/

namespace Superpose.Settings

/-- A variable that overrides a setting. -/
inductive Variable where
  | logLevel
  | logFile
  | logDirectory
  | dispatch
  | waveSize
  | busCapacity
  | seed
  deriving DecidableEq

namespace Variable

/-- All variables, in the order in which they are read. -/
def all : List Variable :=
  [logLevel, logFile, logDirectory, dispatch, waveSize, busCapacity, seed]

def name : Variable → String
  | logLevel => "QARMA_LOG_LEVEL"
  | logFile => "QARMA_LOG_JSON"
  | logDirectory => "QARMA_LOG_DIR"
  | dispatch => "QARMA_DISPATCH"
  | waveSize => "QARMA_WAVE_SIZE"
  | busCapacity => "QARMA_BUS_CAPACITY"
  | seed => "QARMA_SCHEDULER_SEED"

end Variable

/-- Why a value makes no sense. -/
inductive ValueFault where
  | notFlag (value : String)
  | notDispatch (value : String)
  | empty
  | notDigit
  | tooLarge
  deriving DecidableEq

/-- A fault in words. -/
def ValueFault.message : ValueFault → String
  | notFlag value => s!"expected a boolean, got '{value}'"
  | notDispatch value => s!"unknown dispatch mode '{value}'"
  | empty => "cannot parse integer from empty string"
  | notDigit => "invalid digit found in string"
  | tooLarge => "number too large to fit in target type"

/-- A variable whose value makes no sense. -/
structure EnvironmentFault where
  culprit : Variable
  cause : ValueFault
  deriving DecidableEq

/-- A fault in words. -/
def EnvironmentFault.message (f : EnvironmentFault) : String :=
  s!"{f.culprit.name}: {f.cause.message}"

/-! ## Values -/

/-- The truth value that a word stands for, in capitals or not. -/
def flagOf (value : String) : Except ValueFault Bool :=
  if value.toLower ∈ ["1", "true", "yes", "on"] then .ok true
  else if value.toLower ∈ ["0", "false", "no", "off"] then .ok false
  else .error (.notFlag value.toLower)

/-- The mode of dispatch of a name, in capitals or not. -/
def dispatchOf (value : String) : Except ValueFault DispatchMode :=
  match value.toLower with
  | "inline" => .ok .inline
  | "parallel" => .ok .parallel
  | other => .error (.notDispatch other)

def appendDigits (n : Nat) : List Char → Except ValueFault Nat
  | [] => .ok n
  | c :: cs =>
    if !c.isDigit then .error .notDigit
    else
      let n := 10 * n + (c.toNat - '0'.toNat)
      if n < UInt64.size then appendDigits n cs else .error .tooLarge

/-- The number that digits stand for. A plus sign may come before them. -/
def wordOf (value : String) : Except ValueFault UInt64 :=
  match value.toList with
  | [] => .error .empty
  | ['+'] => .error .notDigit
  | '+' :: cs => (appendDigits 0 cs).map UInt64.ofNat
  | cs => (appendDigits 0 cs).map UInt64.ofNat

/-! ## Overriding -/

/-- A setting with a new value. -/
inductive Change where
  | logLevel (level : String)
  | logFile (keeps : Bool)
  | logDirectory (path : String)
  | dispatch (mode : DispatchMode)
  | waveSize (size : UInt64)
  | busCapacity (capacity : UInt64)
  | seed (seed : UInt64)
  deriving DecidableEq

/-- Gives a setting its new value. -/
def apply (s : Settings) : Change → Settings
  | .logLevel level => { s with logging.level := level }
  | .logFile keeps => { s with logging.keepsFile := keeps }
  | .logDirectory path => { s with logging.directory := path }
  | .dispatch mode => { s with register.dispatch := mode }
  | .waveSize size => { s with register.waveSize := size }
  | .busCapacity capacity => { s with bus.capacity := capacity }
  | .seed seed => { s with forecast.seed := some seed }

def Variable.change (v : Variable) (value : String) : Except ValueFault Change :=
  match v with
  | logLevel => .ok (.logLevel value)
  | logFile => (flagOf value).map .logFile
  | logDirectory => .ok (.logDirectory value)
  | dispatch => (dispatchOf value).map .dispatch
  | waveSize => (wordOf value).map .waveSize
  | busCapacity => (wordOf value).map .busCapacity
  | seed => (wordOf value).map .seed

/-- Settings overridden by some variables in turn, up to the first that makes no sense. -/
def overrideBy (environment : String → Option String) :
    List Variable → Settings → Option EnvironmentFault × Settings
  | [], s => (none, s)
  | v :: vs, s =>
    match environment v.name with
    | none => overrideBy environment vs s
    | some value =>
      match v.change value with
      | .error cause => (some ⟨v, cause⟩, s)
      | .ok change => overrideBy environment vs (s.apply change)

/-- Settings overridden by an environment, and what made no sense in it. -/
def override (s : Settings) (environment : String → Option String) :
    Option EnvironmentFault × Settings :=
  overrideBy environment Variable.all s

end Superpose.Settings
