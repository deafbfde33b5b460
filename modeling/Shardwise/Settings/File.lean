import Shardwise.Datum.Shape
import Shardwise.Toml.Document

/-!
# Settings files

`Settings.ofToml` reads the text of a settings file, and `Settings.ofBytes` reads
what a file holds, if it holds anything.  The settings must be able to work.
-/

namespace Shardwise.Settings

/-- The settings that a text states. -/
def ofToml (text : String) : Except Error Settings :=
  match Toml.ofText? text >>= ofDatum? false with
  | some settings => settings.validated
  | none => .error (.invalidConfiguration s!"Failed to parse {fileName}")

/-- The settings that the bytes of a file state; there are none where the file
cannot be read. -/
def ofBytes (bytes : Option ByteArray) : Except Error Settings :=
  match bytes.bind String.fromUTF8? with
  | some text => ofToml text
  | none => .error (.invalidConfiguration "Failed to read config file")

end Shardwise.Settings
