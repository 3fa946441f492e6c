import Superpose.Settings.Format
import Superpose.Workbench.Json.Record

/-!
# The format of the workbench

The workbench keeps settings as JSON, with every part of a record on a line of its own.
-/

namespace Superpose.Workbench.Json

/-- A part of a record, as it is read and written. -/
def Field.ofPart {σ : Type} (p : Part Codec σ) : Field σ :=
  p.codec.field p.key p.required p.get p.set

def format : Format where
  Codec := Codec
  Failure := Failure
  flag := .flag
  word := .word
  shortWord := .shortWord
  real := .real
  text := .text
  optional := .optional
  choice := .choice
  record parts default := Record.codec (parts.map .ofPart) default
  write c x := String.ofList (c.write 0 x)
  read c text := c.readAll text.toList

end Superpose.Workbench.Json
