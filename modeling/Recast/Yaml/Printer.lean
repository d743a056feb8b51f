import Recast.Json.Basic
import Recast.Text.Blank
import Recast.Yaml.Scalar

/-! # Writing documents

A value becomes a document in block style: one item or entry a line, indented by
two spaces a level, the items of a sequence under a key at the key's own column.
-/

namespace Recast.Yaml

/-- Numbers in documents. The mantissa always has a point, as the spelling of such a number
    needs one. -/
def numberLayout : Binary64.Layout :=
  { infinity := ".inf", nan := ".nan", bareMantissa := ".0" }

/-- The text of a value that is no string and holds nothing. -/
def word : Json → Text
  | .null => "null"
  | .bool true => "true"
  | .bool false => "false"
  | .int n => Text.ofInt n
  | .float x => numberLayout.write x
  | .array _ => "[]"
  | .object _ => ['{', '}']
  | .string _ => []

/-- Where a value stands. -/
inductive Place where
  | root
  /-- After the colon of a key on the same line. -/
  | afterKey
  /-- After an indicator at the start of a line. -/
  | afterIndicator
  deriving DecidableEq, Repr

/-- What stands before a scalar. -/
def Place.gap : Place → Text
  | .root => []
  | _ => " "

/-- What stands before the first item or entry, which is at column `indent`. -/
def Place.opening (indent : Nat) : Place → Text
  | .root => []
  | .afterKey => newLine indent
  | .afterIndicator => " "

/-- The greatest length of a key on the line of its value. -/
def maxKeyLength : Nat := 122

/-- Does the key stand on the line of its value? -/
def isShortKey (key : Text) : Bool :=
  !key.isEmpty && key.length ≤ maxKeyLength && !isMultiline key

mutual
/-- A value at a place. `indent` is the column of the items or entries around it, and `column`
    the one that the line has reached. -/
def writeValue (place : Place) (indent column : Nat) : Json → Text
  | .string s =>
    let gap := place.gap
    gap ++ (Style.ofText s).write (some (indent + 2)) (column + gap.length) s
  | .array (item :: items) =>
    let inner := if place = .afterIndicator then indent + 2 else indent
    place.opening inner ++ '-' :: writeValue .afterIndicator inner (inner + 1) item
      ++ writeItems inner items
  | .object (member :: members) =>
    let inner := if place = .root then indent else indent + 2
    place.opening inner ++ writeMember inner member ++ writeMembers inner members
  | v => place.gap ++ word v

/-- The items after the first. -/
def writeItems (indent : Nat) : List Json → Text
  | [] => []
  | item :: items =>
    newLine indent ++ '-' :: writeValue .afterIndicator indent (indent + 1) item
      ++ writeItems indent items

/-- One entry of a mapping. A key that is empty, long or of several lines is marked as a key
    and has its value on a line of its own. -/
def writeMember (indent : Nat) : Text × Json → Text
  | (key, value) =>
    if isShortKey key then
      let written := (Style.ofText key).write none indent key
      written ++ ':' :: writeValue .afterKey indent (indent + written.length + 1) value
    else
      '?' :: ' ' :: (Style.ofText key).write (some (indent + 2)) (indent + 2) key
        ++ newLine indent ++ ':' :: writeValue .afterIndicator indent (indent + 1) value

/-- The entries after the first. -/
def writeMembers (indent : Nat) : List (Text × Json) → Text
  | [] => []
  | member :: members => newLine indent ++ writeMember indent member ++ writeMembers indent members
end

/-- Is the value written as a plain scalar? -/
def isPlain : Json → Bool
  | .string s => Style.ofText s == .plain
  | .array _ | .object _ => false
  | _ => true

def documentEnd : Text := "\n...\n"

/-- A value as a document. One that is a plain scalar is followed by the mark for its end. -/
def dump (v : Json) : Text :=
  writeValue .root 0 0 v ++ if isPlain v then documentEnd else ['\n']

/-- A document without the mark for its end and the white space there. -/
def trimDocument (t : Text) : Text :=
  Text.trimRight (if Text.endsWith documentEnd t then t.take (t.length - documentEnd.length) else t)

def ofJson (v : Json) : Text := trimDocument (dump v)

end Recast.Yaml
