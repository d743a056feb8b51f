import Recast.Json.Reader
import Recast.Text.Blank
import Recast.Text.Digit
import Recast.Yaml.Error

/-! # Numbers in documents

Integers in four bases and in sixties, and binary64 numbers. Underscores between
digits do not count, and decimal digits may be of any script.
-/

namespace Recast.Yaml.Number

/-- A sign in front of the rest: is it a minus? -/
def cutSign : Text → Bool × Text
  | '-' :: rest => (true, rest)
  | '+' :: rest => (false, rest)
  | t => (false, t)

def digitValue? (base : Nat) (c : Char) : Option Nat :=
  ((Text.digitValue? c).or (Json.hexValue? c)).filter (· < base)

/-- The letter that may stand after a zero to name the base. -/
def baseLetters : Nat → List Char
  | 2 => ['b', 'B']
  | 8 => ['o', 'O']
  | 16 => ['x', 'X']
  | _ => []

/-- Digits without the name of their base. -/
def cutBase (base : Nat) : Text → Text
  | '0' :: c :: rest => if (baseLetters base).elem c then rest else '0' :: c :: rest
  | t => t

/-- The integer in a base that is the whole of a text, but for white space around it. -/
def integerIn (base : Nat) (t : Text) : Except Error Int :=
  let (negative, body) := cutSign (Text.trim t)
  let digits := cutBase base body
  match digits.isEmpty, digits.mapM (digitValue? base) with
  | false, some values =>
    if base = 10 && Json.maxDigits < values.length then .error (.tooManyDigits values.length)
    else
      let magnitude := values.foldl (fun n d => n * base + d) 0
      .ok (if negative then -(magnitude : Int) else magnitude)
  | _, _ => .error (.notInteger base t)

/-- The value of a scalar that is said to be an integer. -/
def integer (t : Text) : Except Error Int :=
  let (negative, body) := cutSign (t.filter (· ≠ '_'))
  let magnitude : Except Error Int :=
    match body with
    | [] => .error .emptyNumber
    | ['0'] => .ok 0
    | '0' :: 'b' :: digits => integerIn 2 digits
    | '0' :: 'x' :: digits => integerIn 16 digits
    | '0' :: _ => integerIn 8 body
    | _ => do
      let parts ← (Text.splitOn ':' body).mapM (integerIn 10)
      return parts.foldl (fun n part => n * 60 + part) 0
  magnitude.map fun n => if negative then -n else n

/-- The decimal without a sign that is the whole of a text. -/
def decimal? (negative : Bool) (t : Text) : Option Binary64 :=
  let t := t.map Text.toAsciiDigit
  let (whole, rest) := Text.spanWhile Char.isDigit t
  let (fraction, rest) : Text × Text := match rest with
    | '.' :: rest => Text.spanWhile Char.isDigit rest
    | rest => ([], rest)
  let value (power : Int) : Option Binary64 :=
    if whole.isEmpty && fraction.isEmpty then none
    else
      let digits := Nat.ofDigitChars 10 (whole ++ fraction) 0
      some (.ofDecimal negative digits (power - fraction.length))
  match rest with
  | [] => value 0
  | 'e' :: exponent =>
    let (below, digits) := cutSign exponent
    if !digits.isEmpty && digits.all Char.isDigit then
      let power : Int := Nat.ofDigitChars 10 digits 0
      value (if below then -power else power)
    else none
  | _ => none

/-- The binary64 number that is the whole of a text in lower case, but for white space
    around it. -/
def binary64 (t : Text) : Except Error Binary64 :=
  let (negative, body) := cutSign (Text.trim t)
  if body = "inf" || body = "infinity" then .ok (.infinite negative)
  else if body = "nan" then .ok .nan
  else match decimal? negative body with
    | some x => .ok x
    | none => .error (.notFloat t)

/-- The value of digits in sixties, the last part first: `unit` is the worth of a one there. -/
def sixties (sum : Binary64) (unit : Int) : List Binary64 → Binary64
  | [] => sum
  | part :: parts => sixties (sum.add (part.mul (.ofInt unit))) (unit * 60) parts

/-- The sign and the rest of a scalar that is said to be a binary64 number. -/
def floatParts (t : Text) : Bool × Text :=
  cutSign (Text.lowerAscii (t.filter (· ≠ '_')))

/-- Does a scalar give NaN by its name? -/
def isNanName (t : Text) : Bool := (floatParts t).2 == ".nan"

/-- The value of a scalar that is said to be a binary64 number. -/
def float (t : Text) : Except Error Binary64 :=
  let (negative, body) := floatParts t
  if (t.filter (· ≠ '_')).isEmpty then .error .emptyNumber
  else if body = ".inf" then .ok (.infinite negative)
  else if body = ".nan" then .ok .nan
  else do
    let parts ← (Text.splitOn ':' body).mapM binary64
    let magnitude := match parts with
      | [part] => part
      | parts => sixties (.zero false) 1 parts.reverse
    return if negative then magnitude.neg else magnitude

end Recast.Yaml.Number
