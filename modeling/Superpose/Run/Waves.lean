/-!
# Waves

`chunks size xs` cuts a list into pieces of `size` elements each, the last of which may be shorter.
-/

namespace Superpose.Run

variable {β : Type}

/-- Cuts a list into a first piece of at most `room` elements and further pieces of `size`
elements. -/
def cut (size : Nat) : (room : Nat) → List β → List β × List (List β)
  | _, [] => ([], [])
  | 0, x :: xs =>
    let (piece, pieces) := cut size (size - 1) xs
    ([], (x :: piece) :: pieces)
  | room + 1, x :: xs =>
    let (piece, pieces) := cut size room xs
    (x :: piece, pieces)

/-- Cuts a list into pieces of a given positive size; only the last piece may be shorter. -/
def chunks (size : Nat) (xs : List β) : List (List β) := (cut size 0 xs).2

end Superpose.Run
