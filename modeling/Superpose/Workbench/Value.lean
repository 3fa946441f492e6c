/-!
# Values of the workbench

The workbench tries out registers on values of a few plain kinds. Equality is structural within a
kind and compares real numbers as such, so that a value that holds an undefined number differs from
itself; values of two kinds are never equal. `Val.magnitude` reads a number off every value.
-/

namespace Superpose.Workbench

/-- A value that qubits of the workbench work on. -/
inductive Val where
  /-- No value yet. -/
  | nil
  /-- A whole number. -/
  | int (n : Int64)
  | text (s : String)
  /-- A binary64 number. -/
  | real (x : Float)
  | list (items : List Val)
  deriving Inhabited

namespace Val

mutual

/-- Equality of values. -/
def beq : Val → Val → Bool
  | nil, nil => true
  | int m, int n => m == n
  | text s, text t => s == t
  | real x, real y => x == y
  | list xs, list ys => beqList xs ys
  | _, _ => false

/-- Equality of lists of values, item by item. -/
def beqList : List Val → List Val → Bool
  | [], [] => true
  | x :: xs, y :: ys => beq x y && beqList xs ys
  | _, _ => false

end

instance : BEq Val := ⟨beq⟩

/-- The whole number of 64 bits that lies nearest to a whole number. -/
def clamped (n : Int) : Int64 :=
  if n < Int64.minValue.toInt then Int64.minValue
  else if Int64.maxValue.toInt < n then Int64.maxValue
  else Int64.ofInt n

/-- The value of a whole number, clamped to 64 bits. -/
def ofInt (n : Int) : Val := int (clamped n)

/-- The number that a value amounts to: a whole number itself, the length of a text or of a list,
and otherwise 0. -/
def magnitude : Val → Int
  | nil => 0
  | int n => n.toInt
  | text s => s.length
  | real _ => 0
  | list items => items.length

/-- The number that an item of a list amounts to, 0 where there is no such item; any other value
amounts to what it always does. -/
def magnitudeAt (item : Nat) : Val → Int
  | list items =>
    match items[item]? with
    | none => 0
    | some v => v.magnitude
  | v => v.magnitude

end Val

/-- A way of scoring values: a number is read off the value, looked up in a table if there is one,
and put through a linear function. -/
structure Scoring where
  factor : Int := 1
  constant : Int := 0
  /-- The item of a list that the number is read off. -/
  item : Option Nat := none
  /-- Where the number is looked up. -/
  table : Option (List Int) := none

namespace Scoring

/-- The 32-bit score that lies nearest to a whole number. -/
def clamped (n : Int) : Int32 :=
  if n < Int32.minValue.toInt then Int32.minValue
  else if Int32.maxValue.toInt < n then Int32.maxValue
  else Int32.ofInt n

/-- The entry of a table at a number, 0 where there is none. -/
def lookUp (table : List Int) (n : Int) : Int :=
  if n < 0 then 0 else (table[n.toNat]?).getD 0

def score (s : Scoring) (v : Val) : Int32 :=
  let read :=
    match s.item with
    | none => v.magnitude
    | some item => v.magnitudeAt item
  let n :=
    match s.table with
    | none => read
    | some table => lookUp table read
  clamped (s.factor * n + s.constant)

end Scoring

/-- A way of reducing values to one. -/
inductive Combining where
  | sum
  /-- That sum added to what the output amounted to. -/
  | accumulate
  /-- The list of the results. -/
  | concat
  /-- The number of results. -/
  | count
  /-- The first result that amounts to most. -/
  | max
  /-- The output as it was. -/
  | noop
  /-- The list that the output was, with the number of results at its end. -/
  | push
  deriving DecidableEq, Inhabited

namespace Combining

def all : List Combining := [sum, accumulate, concat, count, max, noop, push]

def name : Combining → String
  | sum => "sum"
  | accumulate => "accumulate"
  | concat => "concat"
  | count => "count"
  | max => "max"
  | noop => "noop"
  | push => "push"

def ofName? (s : String) : Option Combining := all.find? fun c => c.name == s

/-- The sum of the numbers that values amount to. -/
def total (results : List Val) : Int := (results.map Val.magnitude).foldl (· + ·) 0

/-- The value that amounts to most so far, after further values. -/
def largest : Val → List Val → Val
  | top, [] => top
  | top, r :: rs => largest (if top.magnitude < r.magnitude then r else top) rs

/-- The output that a way of reducing makes of the results and of the output before. -/
def reduce : Combining → List Val → Val → Val
  | sum, results, _ => .ofInt (total results)
  | accumulate, results, output => .ofInt (output.magnitude + total results)
  | concat, results, _ => .list results
  | count, results, _ => .ofInt results.length
  | max, results, output =>
    match results with
    | [] => output
    | r :: rs => largest r rs
  | noop, _, output => output
  | push, results, output =>
    let items :=
      match output with
      | .list items => items
      | _ => []
    .list (items ++ [.ofInt results.length])

end Combining

end Superpose.Workbench
