import Recast.Json.Printer
import Recast.Text.Printable

/-! # Values in running text

How a value shows where a plain text is wanted, as in a setting or a message:
a text as it is, the words `True`, `False` and `None`, and containers in brackets
with their texts between single quotes.
-/

namespace Recast.Json

/-- `width` hexadecimal digits. -/
def hexDigits (width n : Nat) : Text :=
  let digits := Nat.toDigits 16 n
  Text.copies (width - digits.length) '0' ++ digits

/-- A character between `mark`s. -/
def displayChar (mark c : Char) : Text :=
  match c with
  | '\\' => ['\\', '\\']
  | '\n' => ['\\', 'n']
  | '\r' => ['\\', 'r']
  | '\t' => ['\\', 't']
  | c =>
    if c = mark then ['\\', c]
    else if Text.isPrintable c then [c]
    else if c.toNat < 0x100 then '\\' :: 'x' :: hexDigits 2 c.toNat
    else if c.toNat < 0x10000 then '\\' :: 'u' :: hexDigits 4 c.toNat
    else '\\' :: 'U' :: hexDigits 8 c.toNat

/-- A text between quotes: single ones, unless it holds a single and no double quote. -/
def displayQuoted (s : Text) : Text :=
  let mark := if s.any (· = '\'') && !s.any (· = '"') then '"' else '\''
  mark :: s.flatMap (displayChar mark) ++ [mark]

/-- Numbers in running text. -/
def displayLayout : Binary64.Layout :=
  { infinity := "inf", nan := "nan", bareMantissa := [] }

mutual
/-- A value inside a container. -/
def displayInner : Json → Text
  | .null => "None"
  | .bool true => "True"
  | .bool false => "False"
  | .int n => Text.ofInt n
  | .float x => displayLayout.write x
  | .string s => displayQuoted s
  | .array [] => "[]"
  | .array (item :: items) => '[' :: displayInner item ++ displayItems items ++ [']']
  | .object [] => ['{', '}']
  | .object ((key, value) :: members) =>
    '{' :: displayQuoted key ++ ':' :: ' ' :: displayInner value ++ displayMembers members ++ ['}']

def displayItems : List Json → Text
  | [] => []
  | item :: items => ',' :: ' ' :: displayInner item ++ displayItems items

def displayMembers : List (Text × Json) → Text
  | [] => []
  | (key, value) :: members =>
    ',' :: ' ' :: displayQuoted key ++ ':' :: ' ' :: displayInner value ++ displayMembers members
end

/-- A value as plain text. -/
def display : Json → Text
  | .string s => s
  | v => displayInner v

end Recast.Json
