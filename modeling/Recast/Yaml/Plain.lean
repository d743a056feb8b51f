import Recast.Yaml.Tag
import Recast.Yaml.Timestamp

/-! # Plain scalars

A scalar without quotes is what its spelling says: a boolean, a number, a
timestamp, null, one of two special keys, or else a string.
-/

namespace Recast.Yaml.Plain

/-- The text without a sign in front. -/
def unsigned : Text → Text
  | c :: rest => if c = '-' || c = '+' then rest else c :: rest
  | [] => []

/-- A decimal digit or the underscore that may part digits. -/
def isDigitOrBar (c : Char) : Bool := c.isDigit || c == '_'

/-- A number of minutes or seconds: below sixty, in one or two digits. -/
def isSixtieth : Text → Bool
  | [c] => c.isDigit
  | [c, d] => '0' ≤ c && c ≤ '5' && d.isDigit
  | _ => false

def isDigits : Text → Bool
  | c :: rest => c.isDigit && rest.all isDigitOrBar
  | [] => false

/-- Digits with colons between them, the parts after the first below sixty. -/
def isSexagesimal (t : Text) : Bool :=
  match Text.splitOn ':' t with
  | first :: second :: rest => isDigits first && (second :: rest).all isSixtieth
  | _ => false

/-- An exponent, whose sign is required, or nothing. -/
def isExponent : Text → Bool
  | [] => true
  | mark :: sign :: digits =>
    (mark == 'e' || mark == 'E') && (sign == '-' || sign == '+') && !digits.isEmpty
      && digits.all Char.isDigit
  | [_] => false

/-- An integer: binary, octal, hexadecimal, decimal or sexagesimal. -/
def isInt (t : Text) : Bool :=
  match unsigned t with
  | '0' :: 'b' :: digits => !digits.isEmpty && digits.all fun c => c == '0' || c == '1' || c == '_'
  | '0' :: 'x' :: digits =>
    !digits.isEmpty && digits.all fun c =>
      c.isDigit || ('a' ≤ c && c ≤ 'f') || ('A' ≤ c && c ≤ 'F') || c == '_'
  | '0' :: digits => digits.all fun c => ('0' ≤ c && c ≤ '7') || c == '_'
  | body => isDigits body || isSexagesimal body

/-- A binary64 number: with a point, or the word for infinity or NaN after one. -/
def isFloat (t : Text) : Bool :=
  let body := unsigned t
  match body with
  | '.' :: rest =>
    (rest ∈ [("inf" : Text), "Inf", "INF"])
      || (body = t && (rest ∈ [("nan" : Text), "NaN", "NAN"]))
      || (body = t && rest.head?.any Char.isDigit && isExponent (rest.dropWhile isDigitOrBar))
  | _ =>
    match Text.cutAt? '.' body with
    | none => false
    | some (whole, rest) =>
      (isDigits whole && isExponent (rest.dropWhile isDigitOrBar))
        || (isSexagesimal whole && rest.all isDigitOrBar)

def booleanWords : List Text :=
  ["yes", "Yes", "YES", "no", "No", "NO", "true", "True", "TRUE", "false", "False", "FALSE",
    "on", "On", "ON", "off", "Off", "OFF"]

def nullWords : List Text := ["", "~", "null", "Null", "NULL"]

/-- The type of a plain scalar. -/
def tag (t : Text) : Tag :=
  if t ∈ nullWords then .null
  else if t ∈ booleanWords then .bool
  else if isFloat t then .float
  else if isInt t then .int
  else if t = "<<" then .merge
  else if (Timestamp.ofText? t).any Timestamp.isPlain then .timestamp
  else if t = "=" then .value
  else if t ∈ [("!" : Text), "&", "*"] then .unknown
  else .string

end Recast.Yaml.Plain
