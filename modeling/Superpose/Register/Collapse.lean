import Superpose.Reduction
import Superpose.Register.Basic

/-!
# Collapsing a register

A collapse reduces the results of the completed qubits to the output of the register. The value is
kept until the next run or reset, and asking again gives it again without any work.
-/

namespace Superpose.Register

variable {α ω : Type} [Inhabited α] [BEq α] [Clocked ω]

/-- The register after its results were reduced. The output is made when it is first needed, and
stays even if the strategy then gives no value. -/
def settle (r : Register α ω) (reduced : Reduced α) : Register α ω :=
  { r with
    output := some reduced.output
    toolkit := { r.toolkit with trend := reduced.trend } }

/-- Reduces the results with the strategy of the register; the clock is read before and after. -/
def collapseResults (r : Register α ω) (w : ω) : Except Fault α × Register α ω × ω :=
  let start := Clocked.read w
  if r.results.isEmpty then (.error (.collapse .noResults), r, start.2)
  else
    let reduced := reduce r.strategy r.results (r.output.getD default) r.toolkit start.1
    let settled := r.settle reduced
    match reduced.verdict with
    | .error fault => (.error (.collapse fault), settled, start.2)
    | .ok _ =>
      let stop := Clocked.read start.2
      (.ok reduced.output,
        { settled with collapsed := true, collapseTime := elapsed start.1 stop.1 }, stop.2)

/-- The value of the last run: the one that was kept, or else what the strategy makes of the results
of the completed qubits. -/
def collapse (r : Register α ω) (w : ω) : Except Fault α × Register α ω × ω :=
  if r.collapsed then
    match r.output with
    | some value => (.ok value, r, w)
    | none => (.error (.internal "collapsed register has no output"), r, w)
  else
    match r.toolkit.missing r.strategy with
    | some fault => (.error (.collapse fault), r, w)
    | none => r.collapseResults w

end Superpose.Register
