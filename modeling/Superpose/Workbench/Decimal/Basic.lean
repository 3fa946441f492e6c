/-!
# Decimal numerals

A positive decimal number as a whole number and a power of ten, and how it is written: with a point
as long as that takes few digits, and otherwise with an exponent. A point always has a digit on
either side of it.
-/

namespace Superpose.Workbench

/-- The number `digits · 10 ^ exponent`. -/
structure Decimal where
  digits : Nat
  /-- The power of ten that they count. -/
  exponent : Int
  deriving DecidableEq

namespace Decimal

/-- The digits from the first to the last, as they are written. -/
def figures (d : Decimal) : List Char := Nat.toDigits 10 d.digits

/-- The number of digits in front of the point, which is negative where zeros follow the point. -/
def point (d : Decimal) : Int := d.figures.length + d.exponent

def zeros (n : Nat) : List Char := List.replicate n '0'

/-- A whole number in decimal digits, with its sign in any case. -/
def signed (n : Int) : List Char := (if n < 0 then '-' else '+') :: Nat.toDigits 10 n.natAbs

/-- The first digit, a point and the other digits if there are any, and the power of ten. -/
def scientific (d : Decimal) : List Char :=
  match d.figures with
  | [] => []
  | [c] => c :: 'e' :: signed (d.point - 1)
  | c :: cs => c :: '.' :: cs ++ 'e' :: signed (d.point - 1)

/-- A decimal number in writing: with a point if there are at most sixteen digits in front of it, or
at most four zeros right behind it, and with an exponent otherwise. -/
def text (d : Decimal) : List Char :=
  if 0 ≤ d.exponent ∧ d.point ≤ 16 then d.figures ++ zeros d.exponent.toNat ++ ['.', '0']
  else if 0 < d.point ∧ d.point ≤ 16 then
    d.figures.take d.point.toNat ++ '.' :: d.figures.drop d.point.toNat
  else if -5 < d.point ∧ d.point ≤ 0 then '0' :: '.' :: zeros (-d.point).toNat ++ d.figures
  else d.scientific

end Decimal

end Superpose.Workbench
