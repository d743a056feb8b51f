import Recast.Yaml.Value

/-! # Documents as JSON values

Dates and times become strings, sets become sorted arrays, and keys become
strings. Two keys that differ only in type stay two members of one name.
-/

namespace Recast.Yaml

/-- An integer that is not too large to be written. -/
def checkedInt (n : Int) : Except Error Int :=
  if n.natAbs < Nat.pow 10 Json.maxDigits then .ok n else .error .tooManyDigitsToWrite

namespace Value

/-- A value that holds no others as plain text, by which sets are sorted. -/
def display : Value → Text
  | .null => Json.display .null
  | .bool b => Json.display (.bool b)
  | .int n => Text.ofInt n
  | .float x => Json.displayLayout.write x
  | .ownNan _ => Json.displayLayout.nan
  | .string s => s
  | .date d => d.write
  | .instant i => i.write ' '
  | _ => []

def keyText : Value → Except Error Text
  | .string s => .ok s
  | .null => .ok (Json.compact .null)
  | .bool b => .ok (Json.compact (.bool b))
  | .int n => (checkedInt n).map Text.ofInt
  | .float x => .ok (Json.compact (.float x))
  | .ownNan _ => .ok (Json.compact (.float .nan))
  | .octets => .error (.key "bytes")
  | .date _ => .error (.key "date")
  | .instant _ => .error (.key "datetime")
  | .sequence _ | .mapping _ | .set _ | .cycle => .error .malformed

/-- A value that holds no others, in JSON. -/
def scalarJson : Value → Except Error Json
  | .null => .ok .null
  | .bool b => .ok (.bool b)
  | .int n => (checkedInt n).map .int
  | .float x => .ok (.float x)
  | .ownNan _ => .ok (.float .nan)
  | .string s => .ok (.string s)
  | .octets => .error .octets
  | .date d => .ok (.string d.write)
  | .instant i => .ok (.string (i.write 'T'))
  | .sequence _ | .mapping _ | .set _ | .cycle => .error .circular

mutual
def toJson : Value → Except Error Json
  | .sequence items => (itemsJson items).map .array
  | .mapping entries => (membersJson entries).map .object
  | .set items =>
    ((items.mergeSort fun v w => Text.le v.display w.display).mapM scalarJson).map .array
  | v => scalarJson v

def itemsJson : List Value → Except Error (List Json)
  | [] => .ok []
  | item :: items => do
    let v ← item.toJson
    return v :: (← itemsJson items)

/-- Entries in JSON, the name of each before its value. -/
def membersJson : List (Value × Value) → Except Error (List (Text × Json))
  | [] => .ok []
  | (key, value) :: entries => do
    let name ← key.keyText
    let v ← value.toJson
    return (name, v) :: (← membersJson entries)
end

end Value

/-- The JSON value of a document. -/
def toJson (t : Text) : Except Error Json := do
  (← load t).toJson

end Recast.Yaml
