import Superpose.Workbench.Decimal.Shortest
import Superpose.Workbench.Json.Reading

/-!
# Numbers

A number is written as a decimal literal. One without a fraction and an exponent is a whole number
as long as it fits into 64 bits. Any other is a real number: as many digits as fit into 64 bits are
taken for a whole number, which is then scaled by a power of ten. Both steps round, so that the
result may be a neighbour of the number that is nearest to the literal.
-/

namespace Superpose.Workbench.Json

/-- A number as a text gives it. -/
inductive Number where
  | whole (n : UInt64)
  | negative (n : UInt64)
  | real (x : Float)

/-! ## Scaling -/

def tenTo (k : Nat) : Float := Float.ofScientific 1 false k

/-- The greatest power of ten in range. -/
def topPower : Nat := 308

/-- A number divided by a power of ten. Where that is out of range, it is divided in two steps, and
where it is further out than that, nothing is left of any number below `2 ^ 64`. -/
def scaleDown (x : Float) (k : Nat) : Float :=
  if k ≤ topPower then x / tenTo k
  else if k ≤ 2 * topPower then x / tenTo topPower / tenTo (k - topPower)
  else 0.0

/-- A number multiplied by a power of ten, if the result is in range. -/
def scaleUp? (x : Float) (k : Nat) : Option Float :=
  if k ≤ topPower then
    let y := x * tenTo k
    if y.isInf then none else some y
  else if x == 0 then some x
  else none

/-- A number scaled by a power of ten, if the result is in range. -/
def scale? (x : Float) (k : Int) : Option Float :=
  if 0 ≤ k then scaleUp? x k.toNat else some (scaleDown x (-k).toNat)

/-! ## Literals -/

/-- A decimal literal. -/
structure Literal where
  /-- Whether it begins with a minus sign. -/
  negative : Bool
  /-- The digits before the point. -/
  whole : List Nat
  /-- The digits behind the point. -/
  fraction : List Nat
  exponent : Option (Bool × List Nat)
  /-- Whether there is neither a point nor an exponent. -/
  isPlain : Bool

namespace Literal

def digitValue (c : Char) : Nat := c.toNat - '0'.toNat

/-- Takes all digits from the front of a text, of which there has to be one. -/
def readDigits : List Char → Reading (List Nat)
  | [] => .error .truncated
  | c :: cs =>
    if c.isDigit then
      .ok (((c :: cs).takeWhile Char.isDigit).map digitValue, (c :: cs).dropWhile Char.isDigit)
    else .error .malformed

/-- Takes the digits of a whole number, which does not begin with a zero unless it is zero. -/
def readWhole (cs : List Char) : Reading (List Nat) :=
  match readDigits cs with
  | .error e => .error e
  | .ok (0 :: _ :: _, _) => .error .malformed
  | .ok found => .ok found

/-- Takes a sign from the front of a text, and whether it was a minus sign. -/
def readSign : List Char → Bool × List Char
  | '-' :: cs => (true, cs)
  | '+' :: cs => (false, cs)
  | cs => (false, cs)

/-- Takes a point and the digits behind it from the front of a text, if there is a point. -/
def readFraction : List Char → Reading (Option (List Nat))
  | '.' :: cs => (readDigits cs).map fun (ds, cs) => (some ds, cs)
  | cs => .ok (none, cs)

/-- Takes an exponent from the front of a text, if there is one. -/
def readExponent : List Char → Reading (Option (Bool × List Nat))
  | [] => .ok (none, [])
  | c :: cs =>
    if c = 'e' ∨ c = 'E' then
      let (negative, cs) := readSign cs
      (readDigits cs).map fun (ds, cs) => (some (negative, ds), cs)
    else .ok (none, c :: cs)

/-- Takes the parts of a literal behind its sign from the front of a text. -/
def readUnsigned (negative : Bool) (cs : List Char) : Except Failure (Literal × List Char) := do
  let (whole, cs) ← readWhole cs
  let (fraction, cs) ← readFraction cs
  let (exponent, cs) ← readExponent cs
  let isPlain := fraction.isNone && exponent.isNone
  return ({ negative, whole, fraction := fraction.getD [], exponent, isPlain }, cs)

/-- Takes a literal from the front of a text. -/
def read : List Char → Reading Literal
  | '-' :: cs => readUnsigned true cs
  | cs => readUnsigned false cs

/-- Appends digits to a whole number as long as it fits into 64 bits. What is left begins with the
first digit that does not. -/
def gather : (n : Nat) → List Nat → Nat × List Nat
  | n, [] => (n, [])
  | n, d :: ds => if 10 * n + d < UInt64.size then gather (10 * n + d) ds else (n, d :: ds)

def ofDigits (ds : List Nat) : Nat := ds.foldl (fun n d => 10 * n + d) 0

/-- The greatest exponent that is taken for a number. -/
def exponentLimit : Nat := (1 <<< 31) - 1

/-- A whole number, or the real number nearest to it if it is negative and out of range. A negative
zero is a real number. -/
def integer (negative : Bool) (n : Nat) : Number :=
  if negative then
    if 0 < n ∧ n ≤ 1 <<< 63 then .negative (.ofNat n) else .real (-(UInt64.ofNat n).toFloat)
  else .whole (.ofNat n)

/-- The magnitude of a real number in scientific form, if it is in range. -/
def magnitude? (n : Nat) (point : Int) : Option (Bool × List Nat) → Option Float
  | none => scale? (UInt64.ofNat n).toFloat point
  | some (negative, ds) =>
    let e := ofDigits ds
    if exponentLimit < e then if n = 0 ∨ negative then some 0.0 else none
    else scale? (UInt64.ofNat n).toFloat (if negative then point - e else point + e)

/-- The number that a literal stands for, if it is in range. -/
def value? (l : Literal) : Option Number :=
  let (n, surplus) := gather 0 l.whole
  if l.isPlain ∧ surplus.isEmpty then some (integer l.negative n)
  else
    let (n, lost) := gather n l.fraction
    let point : Int := surplus.length - (l.fraction.length - lost.length : Nat)
    (magnitude? n point l.exponent).map fun x => .real (if l.negative then -x else x)

end Literal

namespace Number

def read (cs : List Char) : Except Failure (Number × List Char) := do
  let (l, cs) ← Literal.read cs
  match l.value? with
  | some n => return (n, cs)
  | none => throw .malformed

/-- Passes over a literal, whatever it stands for. A literal that breaks off is malformed even where
the text ends. -/
def skip (cs : List Char) : Except Failure (List Char) :=
  match Literal.read cs with
  | .ok (_, cs) => .ok cs
  | .error _ => .error .malformed

/-- The real number that a number stands for, or the one nearest to it. -/
def toFloat : Number → Float
  | whole n => n.toFloat
  | negative n => -n.toFloat
  | real x => x

/-! ## Writing -/

/-- A real number in the fewest digits that stand for it. What is no finite number is left void. -/
def writeFloat (x : Float) : List Char :=
  if !x.isFinite then "null".toList
  else
    let digits := if x == 0 then ['0', '.', '0'] else (Magnitude.ofFloat x).shortest.text
    if x.toBits.toNat < 1 <<< 63 then digits else '-' :: digits

end Number

end Superpose.Workbench.Json
