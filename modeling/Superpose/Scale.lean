/-!
# Scales

The numbers in which likeness and merit are measured. `Scale` asks for the four operations, an order
that can be decided, decimal constants and the image of a 64-bit word, and says nothing about
rounding: binary64 numbers are one scale, exact fractions another.
-/

namespace Superpose

/-- Numbers in which likeness and merit can be measured. -/
class Scale (K : Type) extends Add K, Sub K, Mul K, Div K, LT K, LE K, OfScientific K where
  /-- The number that stands for a word, or the one nearest to it. -/
  ofWord : UInt64 → K
  decideLT : DecidableLT K
  decideLE : DecidableLE K

attribute [reducible, instance] Scale.decideLT Scale.decideLE

instance : Scale Float where
  ofWord := UInt64.toFloat
  decideLT := inferInstance
  decideLE := inferInstance

instance : Scale Rat where
  ofWord n := n.toNat
  decideLT := inferInstance
  decideLE := inferInstance

end Superpose
