import Superpose.Workbench.Json.Text
import Superpose.Workbench.Value

/-!
# Values in writing

The compact text in which reports show a value of the workbench. A real number is shown by its bits,
so that no two of them look the same, but for undefined ones, which all do.
-/

namespace Superpose.Workbench

/-- A number in hexadecimal digits, filled up with zeros to some width. -/
def hexadecimal (width n : Nat) : String :=
  let digits := Nat.toDigits 16 n
  String.ofList (List.replicate (width - digits.length) '0' ++ digits)

/-- The bits of a real number in hexadecimal digits. -/
def bitsText (x : Float) : String := if x.isNaN then "nan" else hexadecimal 16 x.toBits.toNat

namespace Val

mutual

def write : Val → String
  | nil => "null"
  | int n => toString n.toInt
  | text s => String.ofList (Json.Text.write s)
  | real x => "\x7b\"f\":\"" ++ bitsText x ++ "\"\x7d"
  | list items => "[" ++ ",".intercalate (writeAll items) ++ "]"

/-- Values in writing. -/
def writeAll : List Val → List String
  | [] => []
  | v :: vs => write v :: writeAll vs

end

end Val

end Superpose.Workbench
