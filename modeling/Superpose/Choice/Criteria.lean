import Superpose.Checked
import Superpose.Choice.Greatest

/-!
# Several criteria at once

`Criteria` scores a result in up to three dimensions and weighs the scores against each other. The
weighted mean is taken on 64-bit words and truncated toward zero: `aggregate` wraps them around, and
`aggregate?` breaks off where one overflows. A dimension that nothing scores counts as 0, yet its
weight still counts.
-/

namespace Superpose.Choice

/-- Three optional scores of a result and their weights. -/
structure Criteria (α : Type) where
  quality : Option (α → Int32)
  speed : Option (α → Int32)
  resource : Option (α → Int32)
  qualityWeight : Int32
  speedWeight : Int32
  resourceWeight : Int32

namespace Criteria

variable {α : Type}

/-- The score in one dimension, 0 if nothing scores it. -/
def dimension (score? : Option (α → Int32)) (result : α) : Int64 :=
  match score? with
  | none => 0
  | some score => (score result).toInt64

def weightSum (c : Criteria α) : Int64 :=
  c.qualityWeight.toInt64 + c.speedWeight.toInt64 + c.resourceWeight.toInt64

/-- What the weighted sum is divided by: the sum of the weights, or 1 where that is 0. -/
def divisor (c : Criteria α) : Int64 :=
  if c.weightSum = 0 then 1 else c.weightSum

/-- The weighted mean of the scores of a result. -/
def aggregate (c : Criteria α) (result : α) : Int64 :=
  (dimension c.quality result * c.qualityWeight.toInt64
    + dimension c.speed result * c.speedWeight.toInt64
    + dimension c.resource result * c.resourceWeight.toInt64) / c.divisor

/-- The sum of the weights in a build with overflow checks. -/
def weightSum? (c : Criteria α) : Option Int64 := do
  let leading ← Checked.signed (c.qualityWeight.toInt + c.speedWeight.toInt)
  Checked.signed (leading.toInt + c.resourceWeight.toInt)

/-- The weighted score in one dimension in a build with overflow checks. -/
def product? (score? : Option (α → Int32)) (weight : Int32) (result : α) : Option Int64 :=
  Checked.signed ((dimension score? result).toInt * weight.toInt)

/-- The weighted mean in a build with overflow checks. -/
def aggregate? (c : Criteria α) (result : α) : Option Int64 := do
  let weights ← c.weightSum?
  let divisor := if weights = 0 then 1 else weights
  let quality ← product? c.quality c.qualityWeight result
  let speed ← product? c.speed c.speedWeight result
  let leading ← Checked.signed (quality.toInt + speed.toInt)
  let resource ← product? c.resource c.resourceWeight result
  let sum ← Checked.signed (leading.toInt + resource.toInt)
  Checked.signed (sum.toInt.tdiv divisor.toInt)

end Criteria

def weighted {α : Type} (criteria : Criteria α) (results : List α) : Nat :=
  firstGreatest (results.map fun r => (criteria.aggregate r).toInt)

end Superpose.Choice
