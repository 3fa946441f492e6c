import Superpose.Fault.Handling

/-!
# Fault reports

A fault together with where, when and in the course of what it occurred, and the line that a log
keeps of it.
-/

namespace Superpose

/-- A fault and the circumstances in which it occurred. -/
structure Report where
  fault : Fault
  /-- In the course of what, outermost first. -/
  context : List String := []
  correlation : Option String := none
  /-- When, in seconds since the beginning of 1970. -/
  time : Int
  component : Option String := none

/-- A labelled part of a log line, which is left out where there is nothing to say. -/
def Report.part (label : String) : Option String → String
  | none => ""
  | some text => s!" | {label}: {text}"

/-- The line for a report, given how a time is written. -/
def Report.logLine (timeText : Int → String) (r : Report) : String :=
  let context := if r.context.isEmpty then none else some (" -> ".intercalate r.context)
  s!"[{timeText r.time}] {r.fault.message} " ++
    s!"(Code: {r.fault.code}, Severity: {r.fault.severity.name})" ++
    Report.part "Context" context ++ Report.part "Correlation" r.correlation ++
    Report.part "Component" r.component

end Superpose
