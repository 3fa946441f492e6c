/-!
# Overflow

Numbers are kept in words of 32 or 64 bits. The definitions of the library are those of the build
that is shipped, in which a number that leaves the range of its word is wrapped around. A build with
overflow checks breaks off there instead: what it comes to is said by the functions whose names end
in a question mark, and these are put together from the ones below, which give the word for a
number if there is one.
-/

namespace Superpose.Checked

def word (n : Nat) : Option UInt64 := if n < UInt64.size then some (.ofNat n) else none

/-- The word of 32 bits for a number. -/
def shortWord (n : Nat) : Option UInt32 := if n < UInt32.size then some (.ofNat n) else none

def signed (n : Int) : Option Int64 :=
  if Int64.minValue.toInt ≤ n ∧ n ≤ Int64.maxValue.toInt then some (.ofInt n) else none

/-- The sum of words, which are added one after the other. -/
def sum (ws : List UInt64) : Option UInt64 :=
  ws.foldlM (fun sum w => word (sum.toNat + w.toNat)) 0

end Superpose.Checked
