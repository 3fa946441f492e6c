import Superpose.Workbench.Json.Reading

/-!
# Quoted texts

A text stands between quotation marks. Inside, a backslash introduces an escape: a mark, a control
character under a letter, or a 16-bit unit in four hexadecimal digits. A character outside the basic
plane takes two such units, a high half and a low one, which must follow each other. Control
characters must not stand there as they are. When a text is written, everything is left as it is but
quotation marks, backslashes and control characters.
-/

namespace Superpose.Workbench.Json.Text

/-! ## Writing -/

/-- A character as it is written between quotation marks. -/
def escape (c : Char) : List Char :=
  if c = '"' then ['\\', '"']
  else if c = '\\' then ['\\', '\\']
  else if c = '\n' then ['\\', 'n']
  else if c = '\r' then ['\\', 'r']
  else if c = '\t' then ['\\', 't']
  else if c = '\x08' then ['\\', 'b']
  else if c = '\x0c' then ['\\', 'f']
  else if c < ' ' then
    ['\\', 'u', '0', '0', Nat.digitChar (c.toNat / 16), Nat.digitChar (c.toNat % 16)]
  else [c]

/-- A text between quotation marks. -/
def write (s : String) : List Char := '"' :: s.toList.flatMap escape ++ ['"']

/-! ## Reading -/

/-- Where a reader is in a text. -/
inductive Place where
  /-- Between characters. -/
  | plain
  /-- Behind a backslash. -/
  | escaped
  /-- In a unit of which so many digits are still to come, behind a high half or not. -/
  | unit (high : Option Nat) (toCome value : Nat)
  /-- Behind a high half. -/
  | half (high : Nat)
  /-- Behind a high half and a backslash. -/
  | halfEscaped (high : Nat)

/-- What a letter behind a backslash stands for. -/
def unescape? : Char → Option Char
  | '"' => some '"'
  | '\\' => some '\\'
  | '/' => some '/'
  | 'b' => some '\x08'
  | 'f' => some '\x0c'
  | 'n' => some '\n'
  | 'r' => some '\r'
  | 't' => some '\t'
  | _ => none

/-- The value of a hexadecimal digit. -/
def hexValue? (c : Char) : Option Nat :=
  if c.isDigit then some (c.toNat - '0'.toNat)
  else if 'a' ≤ c ∧ c ≤ 'f' then some (c.toNat - 'a'.toNat + 10)
  else if 'A' ≤ c ∧ c ≤ 'F' then some (c.toNat - 'A'.toNat + 10)
  else none

/-- Whether a unit is the first half of a character. -/
def isHigh (n : Nat) : Bool := 0xD800 ≤ n ∧ n < 0xDC00

/-- Whether a unit is the second half of a character. -/
def isLow (n : Nat) : Bool := 0xDC00 ≤ n ∧ n < 0xE000

/-- What a complete unit amounts to. -/
inductive Meaning where
  | char (c : Char)
  /-- The first half of one. -/
  | half (high : Nat)
  /-- Nothing. -/
  | none

/-- What a complete unit amounts to behind a high half or not. Where halves need not be paired, each
of them counts as a character of its own. -/
def meaning (paired : Bool) (high : Option Nat) (n : Nat) : Meaning :=
  match paired, high with
  | false, _ => .char (Char.ofNat n)
  | true, .none => if isHigh n then .half n else if isLow n then .none else .char (Char.ofNat n)
  | true, some high =>
    if isLow n then .char (Char.ofNat (0x10000 + (high - 0xD800) * 0x400 + (n - 0xDC00)))
    else .none

/-- Puts a character in front of what a reader found. -/
def push (c : Char) : Reading (List Char) → Reading (List Char) :=
  Except.map fun (found, rest) => (c :: found, rest)

/-- What is wrong with a unit that is still short of so many digits where something else stands: if
less than that many bytes are left, the text has ended too early. -/
def unitFailure (toCome : Nat) (cs : List Char) : Failure :=
  if cs.foldl (fun bytes c => bytes + c.utf8Size) 0 < toCome then .truncated else .malformed

/-- Reads a text from a place in it up to its closing mark. -/
def readFrom (paired : Bool) : Place → List Char → Reading (List Char)
  | _, [] => .error .truncated
  | .plain, c :: cs =>
    if c = '"' then .ok ([], cs)
    else if c = '\\' then readFrom paired .escaped cs
    else if c < ' ' then .error .malformed
    else push c (readFrom paired .plain cs)
  | .escaped, c :: cs =>
    if c = 'u' then readFrom paired (.unit none 4 0) cs
    else match unescape? c with
      | some c => push c (readFrom paired .plain cs)
      | none => .error .malformed
  | .unit high toCome value, c :: cs =>
    match hexValue? c with
    | none => .error (unitFailure toCome (c :: cs))
    | some d =>
      if 1 < toCome then readFrom paired (.unit high (toCome - 1) (16 * value + d)) cs
      else match meaning paired high (16 * value + d) with
        | .char c => push c (readFrom paired .plain cs)
        | .half high => readFrom paired (.half high) cs
        | .none => .error .malformed
  | .half high, c :: cs =>
    if c = '\\' then readFrom paired (.halfEscaped high) cs else .error .malformed
  | .halfEscaped high, c :: cs =>
    if c = 'u' then readFrom paired (.unit (some high) 4 0) cs else .error .malformed

def read (cs : List Char) : Reading String :=
  (readFrom true .plain cs).map fun (found, rest) => (String.ofList found, rest)

/-- Passes over a text whose opening mark has been taken, whatever its halves. -/
def skip (cs : List Char) : Except Failure (List Char) := (readFrom false .plain cs).map Prod.snd

end Superpose.Workbench.Json.Text
