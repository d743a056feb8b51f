import Recast.Text.Basic

/-! # Why a text is no JSON value

A fault in the grammar is reported with its place; four other refusals have no
place: a number that is not finite, too many digits, too deep nesting.
-/

namespace Recast.Json

/-- A place in a text. The offset starts at zero, line and column at one. -/
structure Place where
  line : Nat
  column : Nat
  offset : Nat
  deriving DecidableEq, Repr

/-- The place of an offset: lines end at line feeds. -/
def Place.ofOffset (t : Text) (offset : Nat) : Place :=
  let before := t.take offset
  { line := before.count '\n' + 1
    column := (before.reverse.takeWhile (· ≠ '\n')).length + 1
    offset := offset }

/-- What the grammar misses at the place of a fault. -/
inductive Fault where
  | expectingValue
  | expectingName
  | expectingColon
  | expectingComma
  | extraData
  | unterminatedString
  | controlCharacter
  | unknownEscape
  | malformedUnicodeEscape
  | byteOrderMark
  deriving DecidableEq, Repr

/-- The two kinds of value that nest. -/
inductive Container where
  | array
  | object
  deriving DecidableEq, Repr

/-- Why a text is refused. -/
inductive Error where
  | syntaxError (fault : Fault) (place : Place)
  /-- `NaN`, `Infinity` or `-Infinity` where only finite numbers are allowed. -/
  | constant (name : Text)
  /-- An integer with more digits than are converted. -/
  | tooManyDigits (count : Nat)
  | tooDeep (container : Container)
  deriving DecidableEq, Repr

/-- The greatest number of digits of an integer. -/
def maxDigits : Nat := 4300

def Fault.message : Fault → Text
  | .expectingValue => "Expecting value"
  | .expectingName => "Expecting property name enclosed in double quotes"
  | .expectingColon => "Expecting ':' delimiter"
  | .expectingComma => "Expecting ',' delimiter"
  | .extraData => "Extra data"
  | .unterminatedString => "Unterminated string starting at"
  | .controlCharacter => "Invalid control character at"
  | .unknownEscape => "Invalid \\escape"
  | .malformedUnicodeEscape => "Invalid \\uXXXX escape"
  | .byteOrderMark => "Unexpected UTF-8 BOM (decode using utf-8-sig)"

def Place.message (place : Place) : Text :=
  "line " ++ Text.ofNat place.line ++ " column " ++ Text.ofNat place.column
    ++ " (char " ++ Text.ofNat place.offset ++ ")"

def Container.message : Container → Text
  | .array => "a JSON array"
  | .object => "a JSON object"

/-- The refusal of an integer with `count` digits. -/
def tooManyDigitsMessage (count : Nat) : Text :=
  "Exceeds the limit (" ++ Text.ofNat maxDigits
    ++ " digits) for integer string conversion: value has " ++ Text.ofNat count
    ++ " digits; use sys.set_int_max_str_digits() to increase the limit"

def Error.message : Error → Text
  | .syntaxError fault place => fault.message ++ ": " ++ place.message
  | .constant name => "Unexpected token " ++ name ++ " in JSON"
  | .tooManyDigits count => tooManyDigitsMessage count
  | .tooDeep container =>
    "maximum recursion depth exceeded while decoding " ++ container.message
      ++ " from a unicode string"

end Recast.Json
