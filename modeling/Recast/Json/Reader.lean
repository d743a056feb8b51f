import Recast.Json.Basic
import Recast.Json.Error

/-! # Reading JSON

A recursive descent over the characters that remain. A fault is found at a place
that is known by how many characters remain there, and only the outermost
function turns that count into a place in the whole text.
-/

namespace Recast.Json

/-- Where reading stops. -/
inductive Stop where
  /-- A fault with `remaining` characters left. -/
  | fault (cause : Fault) (remaining : Nat)
  | constant (name : Text)
  | tooManyDigits (count : Nat)
  | tooDeep (container : Container)
  deriving DecidableEq, Repr

/-- The four characters that may stand between tokens. -/
def isSpace (c : Char) : Bool := c == ' ' || c == '\t' || c == '\n' || c == '\r'

def skipSpace (t : Text) : Text := t.dropWhile isSpace

/-- The value of a hexadecimal digit. -/
def hexValue? (c : Char) : Option Nat :=
  if '0' ≤ c && c ≤ '9' then some (c.toNat - '0'.toNat)
  else if 'a' ≤ c && c ≤ 'f' then some (c.toNat - 'a'.toNat + 10)
  else if 'A' ≤ c && c ≤ 'F' then some (c.toNat - 'A'.toNat + 10)
  else none

/-- The value of four hexadecimal digits. -/
def hexValue4? (a b c d : Char) : Option Nat := do
  return ((← hexValue? a) * 16 + (← hexValue? b)) * 256 + (← hexValue? c) * 16 + (← hexValue? d)

/-- The first half of a surrogate pair. -/
def isHighSurrogate (n : Nat) : Bool := 0xD800 ≤ n && n < 0xDC00

/-- The second half of a surrogate pair. -/
def isLowSurrogate (n : Nat) : Bool := 0xDC00 ≤ n && n < 0xE000

/-- The character of a code point; half a surrogate pair becomes U+FFFD. -/
def charOfCode (n : Nat) : Char :=
  if isHighSurrogate n || isLowSurrogate n then '\uFFFD' else Char.ofNat n

def simpleEscape? : Char → Option Char
  | '"' => some '"'
  | '\\' => some '\\'
  | '/' => some '/'
  | 'b' => some '\x08'
  | 'f' => some '\x0c'
  | 'n' => some '\n'
  | 'r' => some '\r'
  | 't' => some '\t'
  | _ => none

/-- What one character or escape between quotes contributes. -/
inductive Piece where
  | plain (c : Char)
  /-- A `\u` escape, which may be half a surrogate pair. -/
  | code (n : Nat)
  deriving DecidableEq, Repr

/-- The pieces up to the closing quote, and what follows it. `start` is the number of
    characters from the opening quote on. -/
def readPieces (start : Nat) : Text → Except Stop (List Piece × Text)
  | [] => .error (.fault .unterminatedString start)
  | '"' :: rest => .ok ([], rest)
  | ['\\'] => .error (.fault .unterminatedString start)
  | '\\' :: 'u' :: a :: b :: c :: d :: rest =>
    match hexValue4? a b c d, rest.isEmpty with
    | some n, false => do
      let (pieces, after) ← readPieces start rest
      return (.code n :: pieces, after)
    | _, _ => .error (.fault .malformedUnicodeEscape (rest.length + 5))
  | '\\' :: 'u' :: rest => .error (.fault .malformedUnicodeEscape (rest.length + 1))
  | '\\' :: e :: rest =>
    match simpleEscape? e with
    | some c => do
      let (pieces, after) ← readPieces start rest
      return (.plain c :: pieces, after)
    | none => .error (.fault .unknownEscape (rest.length + 2))
  | c :: rest =>
    if c.toNat < 0x20 then .error (.fault .controlCharacter (rest.length + 1))
    else do
      let (pieces, after) ← readPieces start rest
      return (.plain c :: pieces, after)

def pairedChar (high low : Nat) : Char :=
  Char.ofNat (0x10000 + (high - 0xD800) * 0x400 + (low - 0xDC00))

/-- The characters of the pieces: the two halves of a surrogate pair become one. `first?` is
    a first half that still waits for the second. -/
def joinPieces (first? : Option Nat) : List Piece → Text
  | [] => (first?.map charOfCode).toList
  | .plain c :: rest => (first?.map charOfCode).toList ++ c :: joinPieces none rest
  | .code n :: rest =>
    match first? with
    | some high =>
      if isLowSurrogate n then pairedChar high n :: joinPieces none rest
      else if isHighSurrogate n then charOfCode high :: joinPieces (some n) rest
      else charOfCode high :: charOfCode n :: joinPieces none rest
    | none =>
      if isHighSurrogate n then joinPieces (some n) rest
      else charOfCode n :: joinPieces none rest

/-- The string up to the closing quote, and what follows it. -/
def readString (start : Nat) (t : Text) : Except Stop (Text × Text) := do
  let (pieces, after) ← readPieces start t
  return (joinPieces none pieces, after)

/-- The digits of a fraction, when a point with at least one digit follows. -/
def readFraction : Text → Option (Text × Text)
  | '.' :: rest =>
    let (digits, after) := Text.spanWhile Char.isDigit rest
    if digits.isEmpty then none else some (digits, after)
  | _ => none

/-- The exponent, when a mark with at least one digit follows. -/
def readExponent : Text → Option (Int × Text)
  | [] => none
  | mark :: rest =>
    if mark = 'e' || mark = 'E' then
      let (negative, body) : Bool × Text := match rest with
        | '-' :: body => (true, body)
        | '+' :: body => (false, body)
        | body => (false, body)
      let (digits, after) := Text.spanWhile Char.isDigit body
      if digits.isEmpty then none
      else
        let magnitude : Int := Nat.ofDigitChars 10 digits 0
        some (if negative then -magnitude else magnitude, after)
    else none

/-- The digits before the point: a lone zero, or digits that start with another one. -/
def readWhole : Text → Option (Text × Text)
  | '0' :: rest => some (['0'], rest)
  | c :: rest => if c.isDigit then some (Text.spanWhile Char.isDigit (c :: rest)) else none
  | [] => none

def readNumber (t : Text) : Except Stop (Json × Text) :=
  let (negative, body) : Bool × Text := match t with
    | '-' :: body => (true, body)
    | body => (false, body)
  match readWhole body with
  | none => .error (.fault .expectingValue t.length)
  | some (whole, rest) =>
    let fraction? := readFraction rest
    let rest := (fraction?.map (·.2)).getD rest
    let exponent? := readExponent rest
    let rest := (exponent?.map (·.2)).getD rest
    match fraction?, exponent? with
    | none, none =>
      if maxDigits < whole.length then .error (.tooManyDigits whole.length)
      else
        let magnitude : Int := Nat.ofDigitChars 10 whole 0
        .ok (.int (if negative then -magnitude else magnitude), rest)
    | _, _ =>
      let fraction := (fraction?.map (·.1)).getD []
      let exponent := (exponent?.map (·.1)).getD 0
      let digits := Nat.ofDigitChars 10 (whole ++ fraction) 0
      .ok (.float (.ofDecimal negative digits (exponent - fraction.length)), rest)

/-- The words that stand for a value, and the three constants that are no JSON. -/
def readWord? (constants : Bool) (t : Text) : Option (Except Stop (Json × Text)) :=
  let word (name : Text) (value : Json) : Option (Except Stop (Json × Text)) :=
    (Text.after? name t).map fun rest => .ok (value, rest)
  let constant (name : Text) (value : Binary64) : Option (Except Stop (Json × Text)) :=
    (Text.after? name t).map fun rest =>
      if constants then .ok (.float value, rest) else .error (.constant name)
  word "null" .null <|> word "true" (.bool true) <|> word "false" (.bool false)
    <|> constant "NaN" .nan <|> constant "Infinity" (.infinite false)
    <|> constant "-Infinity" (.infinite true)

mutual
/-- The value at the start of a text. `fuel` bounds the number of steps and `depth` the
    number of containers that may still be opened. -/
def readValue (constants : Bool) (fuel depth : Nat) (t : Text) : Except Stop (Json × Text) :=
  match fuel with
  | 0 => .error (.fault .expectingValue t.length)
  | fuel + 1 =>
    match t with
    | '"' :: rest => do
      let (s, after) ← readString (rest.length + 1) rest
      return (.string s, after)
    | '[' :: rest =>
      match depth with
      | 0 => .error (.tooDeep .array)
      | depth + 1 =>
        match skipSpace rest with
        | ']' :: after => .ok (.array [], after)
        | body => do
          let (items, after) ← readItems constants fuel depth body
          return (.array items, after)
    | '{' :: rest =>
      match depth with
      | 0 => .error (.tooDeep .object)
      | depth + 1 =>
        match skipSpace rest with
        | '}' :: after => .ok (.object [], after)
        | body => do
          let (pairs, after) ← readMembers constants fuel depth body
          return (.object (ofPairs pairs), after)
    | _ => (readWord? constants t).getD (readNumber t)

/-- The items from the next one to the closing bracket. -/
def readItems (constants : Bool) (fuel depth : Nat) (t : Text) :
    Except Stop (List Json × Text) :=
  match fuel with
  | 0 => .error (.fault .expectingValue t.length)
  | fuel + 1 => do
    let (item, rest) ← readValue constants fuel depth t
    match skipSpace rest with
    | ']' :: after => return ([item], after)
    | ',' :: rest =>
      let (items, after) ← readItems constants fuel depth (skipSpace rest)
      return (item :: items, after)
    | rest => .error (.fault .expectingComma rest.length)

/-- The members from the next one to the closing brace. -/
def readMembers (constants : Bool) (fuel depth : Nat) (t : Text) :
    Except Stop (List (Text × Json) × Text) :=
  match fuel with
  | 0 => .error (.fault .expectingValue t.length)
  | fuel + 1 =>
    match t with
    | '"' :: rest => do
      let (key, rest) ← readString (rest.length + 1) rest
      match skipSpace rest with
      | ':' :: rest =>
        let (value, rest) ← readValue constants fuel depth (skipSpace rest)
        match skipSpace rest with
        | '}' :: after => return ([(key, value)], after)
        | ',' :: rest =>
          let (pairs, after) ← readMembers constants fuel depth (skipSpace rest)
          return ((key, value) :: pairs, after)
        | rest => .error (.fault .expectingComma rest.length)
      | rest => .error (.fault .expectingColon rest.length)
    | _ => .error (.fault .expectingName t.length)
end

/-- The greatest number of containers inside each other. -/
def maxDepth : Nat := 960

/-- The whole of a text as one value. -/
def readAll (constants : Bool) (t : Text) : Except Stop Json := do
  let (value, rest) ← readValue constants (2 * t.length + 2) maxDepth (skipSpace t)
  match skipSpace rest with
  | [] => return value
  | rest => .error (.fault .extraData rest.length)

def Stop.toError (t : Text) : Stop → Error
  | .fault cause remaining => .syntaxError cause (.ofOffset t (t.length - remaining))
  | .constant name => .constant name
  | .tooManyDigits count => .tooManyDigits count
  | .tooDeep container => .tooDeep container

/-- Read a text as one value, `constants` deciding on `NaN`, `Infinity` and `-Infinity`. -/
def parseWith (constants : Bool) (t : Text) : Except Error Json :=
  match t with
  | '\uFEFF' :: _ => .error (.syntaxError .byteOrderMark (.ofOffset t 0))
  | _ => (readAll constants t).mapError (Stop.toError t)

def parse (t : Text) : Except Error Json := parseWith false t

end Recast.Json
