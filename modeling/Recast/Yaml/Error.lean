import Recast.Json.Display
import Recast.Json.Error
import Recast.Yaml.Date

/-! # Why a document has no JSON form

A document is malformed, or it holds a scalar that is no value of its type, or its
value has no counterpart among JSON values.
-/

namespace Recast.Yaml

/-- Why reading a document fails. -/
inductive Error where
  /-- The text is no single document, or a node does not have the form that its type asks
      for. -/
  | malformed
  /-- An escape for a number that is no character. -/
  | noCharacter (code : Nat)
  /-- The text is no integer in the base. -/
  | notInteger (base : Nat) (t : Text)
  | tooManyDigits (count : Nat)
  | notFloat (t : Text)
  | notBoolean (t : Text)
  /-- A number without any digits. -/
  | emptyNumber
  | notTimestamp
  | date (fault : DateFault)
  /-- Octets where JSON needs a value. -/
  | octets
  /-- A key of a type that JSON has no keys of. -/
  | key (type : Text)
  /-- An integer that is too large to be written. -/
  | tooManyDigitsToWrite
  /-- A collection that holds itself. -/
  | circular
  | tooDeep
  deriving DecidableEq, Repr

def Error.message : Error → Text
  | .malformed => "Invalid YAML input"
  | .noCharacter code =>
    if code < 0x80000000 then "chr() arg not in range(0x110000)"
    else "Python int too large to convert to C int"
  | .notInteger base t =>
    "invalid literal for int() with base " ++ Text.ofNat base ++ ": "
      ++ (Json.displayQuoted t).take 200
  | .tooManyDigits count => Json.tooManyDigitsMessage count
  | .notFloat t => "could not convert string to float: " ++ Json.displayQuoted t
  | .notBoolean t => Json.displayQuoted t
  | .emptyNumber => "string index out of range"
  | .notTimestamp => "'NoneType' object has no attribute 'groupdict'"
  | .date fault => fault.message
  | .octets => "Object of type bytes is not JSON serializable"
  | .key type => "keys must be str, int, float, bool or None, not " ++ type
  | .tooManyDigitsToWrite =>
    "Exceeds the limit (" ++ Text.ofNat Json.maxDigits
      ++ " digits) for integer string conversion; "
      ++ "use sys.set_int_max_str_digits() to increase the limit"
  | .circular => "Circular reference detected"
  | .tooDeep => "maximum recursion depth exceeded"

end Recast.Yaml
