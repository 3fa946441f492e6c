import Superpose.Settings.Codec

/-!
# Settings in a file

Settings are kept in a file, as text in UTF-8. A file that cannot be read as such a text is told
apart from one whose text holds no settings.
-/

namespace Superpose.Settings

/-- Why there are no settings in a file. -/
inductive FileFault (ε : Type) where
  | unreadable (path : String)
  | invalid (path : String) (failure : ε)
  deriving DecidableEq

/-- A fault in words. -/
def FileFault.message {ε : Type} : FileFault ε → String
  | unreadable path => s!"Failed to read config file {path}"
  | invalid path _ => s!"Invalid config file {path}"

variable (F : Format)

def ofText (text : String) : Except F.Failure Settings := F.read (codec F) text

def toText (s : Settings) : String := F.write (codec F) s

/-- The settings in the file at a path, of which the content is given if there is one. -/
def ofFile (path : String) (content : Option ByteArray) :
    Except (FileFault F.Failure) Settings :=
  match content.bind String.fromUTF8? with
  | none => .error (.unreadable path)
  | some text => (ofText F text).mapError (.invalid path)

end Superpose.Settings
