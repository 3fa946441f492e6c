import Superpose.Workbench.Json.Skip

/-!
# Codecs

A `Codec` says how one kind of value is read and how it is written. Where a text holds a value of
another kind, that is a mismatch, provided that the value is in the format at all.
-/

namespace Superpose.Workbench.Json

/-- How values of a type are read and written. -/
structure Codec (β : Type) where
  /-- Takes a value and the blanks before it from the front of a text. -/
  read : List Char → Reading β
  write : Nat → β → List Char

/-- What is wrong with a text that holds a value of another kind than was asked for. -/
def unexpected (cs : List Char) : Failure :=
  let read : Except Failure Unit :=
    match dropBlanks cs with
    | [] => .error .truncated
    | c :: cs =>
      if c = 'n' then (dropWord "ull".toList cs).map fun _ => ()
      else if c = 't' then (dropWord "rue".toList cs).map fun _ => ()
      else if c = 'f' then (dropWord "alse".toList cs).map fun _ => ()
      else if c = '"' then (Text.read cs).map fun _ => ()
      else if c = '-' ∨ c.isDigit then (Number.read (c :: cs)).map fun _ => ()
      else if c = '[' ∨ c = '{' then .ok ()
      else .error .malformed
  match read with
  | .error e => e
  | .ok () => .mismatch

namespace Codec

/-- Takes a number and the blanks before it from the front of a text. -/
def readNumber (cs : List Char) : Reading Number :=
  match dropBlanks cs with
  | [] => .error .truncated
  | c :: cs => if c = '-' ∨ c.isDigit then Number.read (c :: cs) else .error (unexpected (c :: cs))

/-- Takes a text and the blanks before it from the front of a text. -/
def readText (cs : List Char) : Reading String :=
  match dropBlanks cs with
  | '"' :: cs => Text.read cs
  | cs => .error (unexpected cs)

/-- Truth values. -/
def flag : Codec Bool where
  read cs :=
    match dropBlanks cs with
    | 't' :: cs => (dropWord "rue".toList cs).map fun cs => (true, cs)
    | 'f' :: cs => (dropWord "alse".toList cs).map fun cs => (false, cs)
    | cs => .error (unexpected cs)
  write _ b := if b then "true".toList else "false".toList

/-- Whole numbers below a bound, which is at most `2 ^ 64`. -/
def wholeBelow (bound : Nat) : Codec Nat where
  read cs :=
    match readNumber cs with
    | .error e => .error e
    | .ok (.whole n, cs) => if n.toNat < bound then .ok (n.toNat, cs) else .error .mismatch
    | .ok _ => .error .mismatch
  write _ n := Nat.toDigits 10 n

/-- Values that have a reading and a writing as values of another type. -/
def via {β γ : Type} (c : Codec β) (read : β → γ) (write : γ → β) : Codec γ where
  read cs := (c.read cs).map fun (x, cs) => (read x, cs)
  write depth x := c.write depth (write x)

def word : Codec UInt64 := (wholeBelow UInt64.size).via UInt64.ofNat UInt64.toNat

/-- Words of 32 bits. -/
def shortWord : Codec UInt32 := (wholeBelow UInt32.size).via UInt32.ofNat UInt32.toNat

/-- Real numbers, which may be written as whole ones. -/
def real : Codec Float where
  read cs := (readNumber cs).map fun (n, cs) => (n.toFloat, cs)
  write _ x := Number.writeFloat x

def text : Codec String where
  read := readText
  write _ := Text.write

/-- Takes the name of one of the given values, whose opening mark has been taken, from the front of
a text. -/
def readName {β : Type} (all : List β) (name : β → String) (cs : List Char) : Reading β :=
  match Text.read cs with
  | .error e => .error e
  | .ok (s, cs) =>
    match all.find? fun x => name x == s with
    | some x => .ok (x, cs)
    | none => .error .mismatch

/-- Takes a void value and the blanks before it from the front of a text. -/
def readVoid (cs : List Char) : Except Failure (List Char) :=
  match dropBlanks cs with
  | 'n' :: cs => dropWord "ull".toList cs
  | cs => .error (unexpected cs)

/-- One of the given values, by its name. The name may also be the only key of an object with a void
value. -/
def choice {β : Type} (all : List β) (name : β → String) : Codec β where
  read cs :=
    match dropBlanks cs with
    | [] => .error .truncated
    | '"' :: cs => readName all name cs
    | '{' :: cs =>
      (dropMark '"' cs).bind fun cs => (readName all name cs).bind fun (x, cs) =>
        (dropMark ':' cs).bind fun cs => (readVoid cs).bind fun cs =>
          (dropMark '}' cs).map fun cs => (x, cs)
    | _ => .error .malformed
  write _ x := Text.write (name x)

/-- A value or a void one. -/
def optional {β : Type} (c : Codec β) : Codec (Option β) where
  read cs :=
    match dropBlanks cs with
    | 'n' :: cs => (dropWord "ull".toList cs).map fun cs => (none, cs)
    | cs => (c.read cs).map fun (x, cs) => (some x, cs)
  write
    | _, none => "null".toList
    | depth, some x => c.write depth x

end Codec

end Superpose.Workbench.Json
