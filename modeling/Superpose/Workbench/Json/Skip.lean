import Superpose.Workbench.Json.Number
import Superpose.Workbench.Json.Text

/-!
# Values that nobody asked for

What stands under an unknown key is passed over, to whatever depth it goes. It has to be in the
format all the same, but for numbers that are out of range and for halves of characters.
-/

namespace Superpose.Workbench.Json.Skip

/-- What encloses a value. -/
inductive Frame where
  /-- Brackets, with values in them. -/
  | list
  /-- Braces, with keys and values in them. -/
  | object
  deriving DecidableEq

/-- The mark that ends a frame. -/
def Frame.closing : Frame → Char
  | .list => ']'
  | .object => '}'

/-- Where a reader is among nested values. -/
inductive Place where
  /-- In front of a value. -/
  | value
  /-- Behind the opening mark of a frame. -/
  | opened
  /-- Behind a value. -/
  | behind
  deriving DecidableEq

/-- A place, and the frames about it from the innermost to the outermost. -/
abbrev State := Place × List Frame

/-- Goes on from here. -/
def goOn (place : Place) (frames : List Frame) (cs : List Char) : Reading (Step State Unit) :=
  .ok (.more (place, frames), cs)

/-- Takes what stands in front of a value of a frame: nothing in a list, and a key in an object. -/
def enter (frame : Frame) (frames : List Frame) (cs : List Char) : Reading (Step State Unit) :=
  match frame with
  | .list => goOn .value (.list :: frames) cs
  | .object =>
    (dropMark '"' cs).bind fun cs => (Text.skip cs).bind fun cs => (dropMark ':' cs).bind fun cs =>
      goOn .value (.object :: frames) cs

/-- Takes a value that begins with a given character, or the opening mark of one. -/
def valueStep (frames : List Frame) (c : Char) (cs : List Char) : Reading (Step State Unit) :=
  if c = '[' then goOn .opened (.list :: frames) cs
  else if c = '{' then goOn .opened (.object :: frames) cs
  else
    let rest :=
      if c = 'n' then dropWord "ull".toList cs
      else if c = 't' then dropWord "rue".toList cs
      else if c = 'f' then dropWord "alse".toList cs
      else if c = '"' then Text.skip cs
      else if c = '-' ∨ c.isDigit then Number.skip (c :: cs)
      else .error .malformed
    rest.bind fun cs => goOn .behind frames cs

/-- Takes one value, key or mark. -/
def step : State → List Char → Reading (Step State Unit)
  | (.behind, []), cs => .ok (.done (), cs)
  | (place, frames), cs =>
    match place, frames, dropBlanks cs with
    | _, _, [] => .error .truncated
    | .value, frames, c :: cs => valueStep frames c cs
    | .opened, frame :: frames, c :: cs =>
      if c = frame.closing then goOn .behind frames cs else enter frame frames (c :: cs)
    | .behind, frame :: frames, c :: cs =>
      if c = frame.closing then goOn .behind frames cs
      else if c = ',' then enter frame frames cs
      else .error .malformed
    | _, [], _ :: _ => .error .malformed

end Superpose.Workbench.Json.Skip

namespace Superpose.Workbench.Json

/-- Passes over a value. -/
def skip (cs : List Char) : Except Failure (List Char) :=
  (repeatSteps Skip.step (.value, []) cs).map Prod.snd

end Superpose.Workbench.Json
