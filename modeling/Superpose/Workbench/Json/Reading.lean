/-!
# Reading

A reader takes what it wants from the front of a text and hands on what is left. Where it cannot,
the reading is over, and the `Failure` says which of three things is wrong. The first failure from
left to right is the one that counts, so every reader looks at a text in one direction only.
-/

namespace Superpose.Workbench.Json

/-- What is wrong with a text. -/
inductive Failure where
  /-- The text is not in the format. -/
  | malformed
  /-- The text is in the format so far, but holds something else than was asked for. -/
  | mismatch
  /-- The text ends before its time. -/
  | truncated
  deriving DecidableEq, Inhabited

/-- What a reader found and what is left of the text, or what is wrong. -/
abbrev Reading (β : Type) := Except Failure (β × List Char)

/-- Whether a character may stand anywhere between two others without a meaning. -/
def isBlank (c : Char) : Bool := c = ' ' ∨ c = '\n' ∨ c = '\t' ∨ c = '\r'

/-- A text without the blanks at its front. -/
def dropBlanks (cs : List Char) : List Char := cs.dropWhile isBlank

/-- Takes a given word from the front of a text. -/
def dropWord : (word : List Char) → List Char → Except Failure (List Char)
  | [], cs => .ok cs
  | _ :: _, [] => .error .truncated
  | w :: word, c :: cs => if c = w then dropWord word cs else .error .malformed

/-- Takes a given mark, and the blanks before it, from the front of a text. -/
def dropMark (mark : Char) (cs : List Char) : Except Failure (List Char) :=
  match dropBlanks cs with
  | [] => .error .truncated
  | c :: cs => if c = mark then .ok cs else .error .malformed

/-! ## Repeated steps -/

/-- What a step of a repetition leads to. -/
inductive Step (σ β : Type) where
  /-- The repetition goes on from here. -/
  | more (state : σ)
  /-- The repetition is over, with this result. -/
  | done (result : β)

/-- Repeats a step until it says that it is done, at most so many times. -/
def repeatAtMost {σ β : Type} (step : σ → List Char → Reading (Step σ β)) :
    Nat → σ → List Char → Reading β
  | 0, _, _ => .error .truncated
  | n + 1, s, cs =>
    match step s cs with
    | .error e => .error e
    | .ok (.done x, rest) => .ok (x, rest)
    | .ok (.more s, rest) => repeatAtMost step n s rest

/-- Repeats a step until it says that it is done. Of any two steps in a row one has to take a
character from the text, and then there are enough of them. -/
def repeatSteps {σ β : Type} (step : σ → List Char → Reading (Step σ β)) (s : σ)
    (cs : List Char) : Reading β :=
  repeatAtMost step (2 * cs.length + 2) s cs

end Superpose.Workbench.Json
