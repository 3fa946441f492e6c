import Superpose.Workbench.Decimal.Basic

/-!
# Shortest decimals

Of all decimal numbers that round to a given binary64 number, `shortest` picks one on the coarsest
decimal grid, and on that grid the nearest. The numbers that round to a binary64 number form an
interval about it, whose ends belong to it when its significand is even. If any number of a grid
lies in the interval, so does one of the two that stand on either side of the binary64 number, and
so only these two are tried. All arithmetic is exact.
-/

namespace Superpose.Workbench

/-- A positive binary64 number, as the whole multiple of a power of two that its bits say. -/
structure Magnitude where
  significand : Nat
  /-- The power of two that it counts. -/
  exponent : Int
  /-- Whether the next smaller number is only half as far away as the next greater one. -/
  narrow : Bool
  deriving DecidableEq

namespace Magnitude

/-- The magnitude of a finite binary64 number. -/
def ofFloat (x : Float) : Magnitude :=
  let bits := x.toBits.toNat
  let field : Nat := (bits >>> 52) % (1 <<< 11)
  let fraction := bits % (1 <<< 52)
  if field = 0 then { significand := fraction, exponent := -1074, narrow := false }
  else
    { significand := (1 <<< 52) + fraction
      exponent := (field : Int) - 1075
      narrow := fraction = 0 ∧ 1 < field }

/-- The interval of the numbers that round to a given one, and a decimal grid: all as whole
multiples of a common unit. -/
structure Span where
  /-- The lower end. -/
  low : Nat
  /-- The number itself. -/
  middle : Nat
  /-- The upper end. -/
  high : Nat
  /-- The distance between neighbours on the grid. -/
  step : Nat
  /-- Whether the ends round to the number as well. -/
  closed : Bool

/-- The span of a number against the grid of multiples of `10 ^ k`. -/
def span (m : Magnitude) (k : Int) : Span :=
  let up := Nat.pow 10 (-k).toNat <<< (m.exponent - 2).toNat
  let down := Nat.pow 10 k.toNat <<< (2 - m.exponent).toNat
  { low := (4 * m.significand - if m.narrow then 1 else 2) * up
    middle := 4 * m.significand * up
    high := (4 * m.significand + 2) * up
    step := down
    closed := m.significand % 2 = 0 }

/-- Whether a number of the grid rounds to the number in question. -/
def Span.holds (s : Span) (d : Nat) : Bool :=
  if s.closed then s.low ≤ d * s.step ∧ d * s.step ≤ s.high
  else s.low < d * s.step ∧ d * s.step < s.high

/-- The number of the grid that rounds to the number in question; the nearer one if there are two,
and the even one of two that are equally near. -/
def Span.nearest? (s : Span) : Option Nat :=
  let d := s.middle / s.step
  let below := s.middle - d * s.step
  let above := (d + 1) * s.step - s.middle
  match s.holds d, s.holds (d + 1) with
  | true, true => if below < above ∨ below = above ∧ d % 2 = 0 then some d else some (d + 1)
  | true, false => some d
  | false, true => some (d + 1)
  | false, false => none

/-- At least the number of decimal digits in front of the point. -/
def reach (m : Magnitude) : Int := (m.exponent + 54) * 30103 / 100000 + 1

/-- The shortest decimal number that rounds to a given one. Twenty grids are enough, as the last of
them is finer than the interval is wide. -/
def shortest (m : Magnitude) : Decimal :=
  let found := (List.range 20).findSome? fun (i : Nat) =>
    ((m.span (m.reach - i)).nearest?).map fun d => Decimal.mk d (m.reach - i)
  found.getD ⟨0, 0⟩

end Magnitude

end Superpose.Workbench
