import Superpose.Workbench.Json.Codec

/-!
# Records

A record is an object with known keys in any order, or a list of the values alone in the order in
which they are declared. Unknown keys are passed over; a known key must not come twice. A required
key must come. A list may end before its last value only in a record that requires nothing.
-/

namespace Superpose.Workbench.Json

/-- A part of a record. -/
structure Field (σ : Type) where
  key : String
  /-- Whether a record has to have it. -/
  required : Bool
  /-- Takes the part from the front of a text, and says how a record is changed by it. -/
  read : List Char → Reading (σ → σ)
  /-- The part of a record in writing, at some depth of nesting. -/
  write : Nat → σ → List Char

/-- A part of a record that can be taken from a record and put into one. -/
def Codec.field {β σ : Type} (c : Codec β) (key : String) (required : Bool) (get : σ → β)
    (set : σ → β → σ) : Field σ where
  key := key
  required := required
  read cs := (c.read cs).map fun (x, cs) => (fun s => set s x, cs)
  write depth s := c.write depth (get s)

namespace Record

variable {σ : Type}

/-! ## Objects -/

/-- An object that has been read up to somewhere: the record so far, and the known keys that came.
-/
structure Partial (σ : Type) where
  record : σ
  /-- The known keys among those that have been read. -/
  seen : List String := []
  /-- Whether nothing has been read. -/
  isFresh : Bool := true

/-- Takes a key whose opening mark has been taken, and its value. -/
def readMember (fields : List (Field σ)) (p : Partial σ) (cs : List Char) :
    Reading (Step (Partial σ) σ) :=
  (Text.read cs).bind fun (key, cs) =>
    match fields.find? fun f => f.key == key with
    | none =>
      (dropMark ':' cs).bind fun cs => (skip cs).map fun cs =>
        (.more { p with isFresh := false }, cs)
    | some f =>
      if key ∈ p.seen then .error .mismatch
      else (dropMark ':' cs).bind fun cs => (f.read cs).map fun (change, cs) =>
        (.more { record := change p.record, seen := key :: p.seen, isFresh := false }, cs)

/-- The record behind an object, if nothing is missing. -/
def finish (fields : List (Field σ)) (p : Partial σ) (cs : List Char) :
    Reading (Step (Partial σ) σ) :=
  if fields.all fun f => !f.required || p.seen.contains f.key then .ok (.done p.record, cs)
  else .error .mismatch

/-- Takes a key with its value, or the closing mark of an object. -/
def objectStep (fields : List (Field σ)) (p : Partial σ) (cs : List Char) :
    Reading (Step (Partial σ) σ) :=
  match p.isFresh, dropBlanks cs with
  | _, [] => .error .truncated
  | _, '}' :: cs => finish fields p cs
  | true, '"' :: cs => readMember fields p cs
  | false, ',' :: cs => (dropMark '"' cs).bind (readMember fields p)
  | _, _ => .error .malformed

/-! ## Lists -/

/-- Takes what is left of a list, of which some values may have been taken. -/
def readList (mayEnd : Bool) : List (Field σ) → (isFresh : Bool) → σ → List Char → Reading σ
  | [], _, s, cs => (dropMark ']' cs).map fun cs => (s, cs)
  | f :: fields, isFresh, s, cs =>
    match isFresh, dropBlanks cs with
    | _, [] => .error .truncated
    | _, ']' :: cs => if mayEnd then .ok (s, cs) else .error .mismatch
    | true, cs => (f.read cs).bind fun (change, cs) => readList mayEnd fields false (change s) cs
    | false, ',' :: cs =>
      (f.read cs).bind fun (change, cs) => readList mayEnd fields false (change s) cs
    | false, _ => .error .malformed

/-- Takes a record from the front of a text. What it lacks is as in a given record. -/
def read (fields : List (Field σ)) (default : σ) (cs : List Char) : Reading σ :=
  match dropBlanks cs with
  | '{' :: cs => repeatSteps (objectStep fields) { record := default } cs
  | '[' :: cs => readList (fields.all fun f => !f.required) fields true default cs
  | cs => .error (unexpected cs)

/-! ## Writing -/

/-- The beginning of a line at some depth of nesting. -/
def newLine (depth : Nat) : List Char := '\n' :: List.replicate (2 * depth) ' '

/-- A part of a record on a line of its own. -/
def writeField (depth : Nat) (s : σ) (f : Field σ) : List Char :=
  newLine (depth + 1) ++ Text.write f.key ++ [':', ' '] ++ f.write (depth + 1) s

/-- A record in writing, with one line for each of its parts. -/
def write (fields : List (Field σ)) (depth : Nat) (s : σ) : List Char :=
  '{' :: [','].intercalate (fields.map (writeField depth s)) ++ newLine depth ++ ['}']

/-- Records of given parts. What a record lacks is as in a given one. -/
def codec (fields : List (Field σ)) (default : σ) : Codec σ where
  read := read fields default
  write := write fields

end Record

/-- Reads a text that holds a value and nothing else. -/
def Codec.readAll {β : Type} (c : Codec β) (cs : List Char) : Except Failure β :=
  match c.read cs with
  | .error e => .error e
  | .ok (x, cs) => if (dropBlanks cs).isEmpty then .ok x else .error .malformed

end Superpose.Workbench.Json
