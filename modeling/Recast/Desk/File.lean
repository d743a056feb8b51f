import Recast.Catalogue.Converter
import Recast.Text.Blank
import Recast.Text.Lowercase
import Recast.Text.Utf8

/-! # Files at the desk

The input can be loaded from a stream or a file, and the output can be exported
into the directory for temporary files, under a name with the ending of its format.
-/

namespace Recast.Desk

/-- Where an input is loaded from. -/
inductive Source where
  /-- No file was chosen. -/
  | nothing
  /-- A stream of characters. -/
  | characters (t : Text)
  /-- A stream of octets. -/
  | octets (bytes : Bytes)
  /-- A file with these octets, read line by line. -/
  | file (bytes : Bytes)
  /-- A path where there is no file. -/
  | missing (path : Text)
  deriving DecidableEq, Repr

/-- Why an input cannot be loaded. -/
inductive LoadError where
  | nothingChosen
  | octets (e : Utf8.Error)
  | noSuchFile (path : Text)
  | nulInPath
  deriving DecidableEq, Repr

/-- A path as messages show it. -/
def quotedPath (path : Text) : Text := Json.displayQuoted path

def LoadError.message : LoadError → Text
  | .nothingChosen => "No file uploaded."
  | .octets e => e.message
  | .noSuchFile path => "[Errno 2] No such file or directory: " ++ quotedPath path
  | .nulInPath => "embedded null byte"

def Source.read : Source → Except LoadError Text
  | .nothing => .error .nothingChosen
  | .characters t => .ok t
  | .octets bytes => (Utf8.decode bytes).mapError .octets
  | .file bytes => (Text.universalNewlines <$> Utf8.decode bytes).mapError .octets
  | .missing path =>
    if path.any (· = '\x00') then .error .nulInPath else .error (.noSuchFile path)

/-- The loaded text, if any, and the status. -/
def load (source : Source) : Option Text × Text :=
  match source.read with
  | .ok t => (some t, "File loaded.")
  | .error e => (none, "Error reading file: " ++ e.message)

def temporaryDirectory : Text := "$TMP"

/-- What an export leads to. -/
inductive Export where
  /-- There is no output. -/
  | nothing
  /-- A file of this name holds the text. -/
  | written (name : Text) (content : Text)
  | nameTooLong (name : Text)
  /-- The name holds a NUL character, which no file name can. -/
  | nulInName
  deriving DecidableEq, Repr

/-- The part of a path after its last slash. -/
def baseName (path : Text) : Text := (path.reverse.takeWhile (· ≠ '/')).reverse

/-- The ending of exported files of the converter with a slug. -/
def extensionOf (slug : Text) : Text :=
  match Converter.ofSlug? slug with
  | some converter => converter.target.extension
  | none => ".txt"

/-- The name for an export: trimmed, `output` when blank, and with the ending added unless it
    is there in some case. -/
def exportName (slug : Text) (entered : Option Text) : Text :=
  let trimmed := Text.trim (entered.getD [])
  let name : Text := if trimmed.isEmpty then "output" else trimmed
  let ending := extensionOf slug
  let name := if Text.endsWith ending (Text.lower name) then name else name ++ ending
  baseName name

/-- The greatest number of octets in a file name. -/
def maxNameOctets : Nat := 255

def exportOutput (output slug : Text) (entered : Option Text) : Export :=
  if output.isEmpty then .nothing
  else
    let name := exportName slug entered
    if name.any (· = '\x00') then .nulInName
    else if maxNameOctets < (Utf8.encode name).length then .nameTooLong name
    else .written name output

def exportPath (name : Text) : Text := temporaryDirectory ++ '/' :: name

/-- The status of an export; a NUL in the name is a fault of the call and has none. -/
def Export.status : Export → Text
  | .nothing => "Nothing to export."
  | .written name _ => "Export successful! Saved to " ++ exportPath name
  | .nameTooLong name =>
    "Error during export: [Errno 36] File name too long: " ++ quotedPath (exportPath name)
  | .nulInName => "embedded null byte"

end Recast.Desk
