import Recast.Json.Basic
import Recast.Number.Shortest

/-! # Writing JSON

Three styles: without any space, on one line with a space after commas and colons,
and with one item a line. Characters outside ASCII are written as they are.
-/

namespace Recast.Json

/-- Numbers in JSON: an infinite one is a word, and `1e+16` has no point. -/
def numberLayout : Binary64.Layout :=
  { infinity := "Infinity", nan := "NaN", bareMantissa := [] }

/-- A hexadecimal digit in lower case. -/
def hexDigit (n : Nat) : Char := Nat.digitChar n

/-- A character between quotes: quote, backslash and control characters are escaped. -/
def escapeChar (c : Char) : Text :=
  match c with
  | '"' => ['\\', '"']
  | '\\' => ['\\', '\\']
  | '\n' => ['\\', 'n']
  | '\r' => ['\\', 'r']
  | '\t' => ['\\', 't']
  | '\x08' => ['\\', 'b']
  | '\x0c' => ['\\', 'f']
  | c =>
    if c.toNat < 0x20 then
      ['\\', 'u', '0', '0', hexDigit (c.toNat / 16), hexDigit (c.toNat % 16)]
    else [c]

/-- A string between double quotes. -/
def quote (s : Text) : Text :=
  '"' :: s.flatMap escapeChar ++ ['"']

/-- How a value is spread over the line. -/
inductive Style where
  /-- No space at all. -/
  | compact
  /-- One line, with a space after each comma and colon. -/
  | spaced
  /-- Each item on a line of its own, indented by two spaces a level. -/
  | pretty
  deriving DecidableEq, Repr

/-- What stands between a name and its value. -/
def Style.colon : Style → Text
  | .compact => ":"
  | _ => ": "

/-- The start of a line at a depth; only the pretty style has lines. -/
def Style.lineAt (depth : Nat) : Style → Text
  | .pretty => '\n' :: Text.copies (2 * depth) ' '
  | _ => []

/-- What stands between two items at a depth. -/
def Style.comma (depth : Nat) : Style → Text
  | .compact => ","
  | .spaced => ", "
  | .pretty => ',' :: Style.pretty.lineAt depth

mutual
/-- A value in a style, at a depth of enclosing containers. -/
def write (style : Style) (depth : Nat) : Json → Text
  | .null => "null"
  | .bool true => "true"
  | .bool false => "false"
  | .int n => Text.ofInt n
  | .float x => numberLayout.write x
  | .string s => quote s
  | .array [] => "[]"
  | .array (item :: items) =>
    '[' :: style.lineAt (depth + 1) ++ write style (depth + 1) item
      ++ writeItems style (depth + 1) items ++ style.lineAt depth ++ [']']
  | .object [] => ['{', '}']
  | .object (member :: members) =>
    '{' :: style.lineAt (depth + 1) ++ writeMember style (depth + 1) member
      ++ writeMembers style (depth + 1) members ++ style.lineAt depth ++ ['}']

/-- The items after the first. -/
def writeItems (style : Style) (depth : Nat) : List Json → Text
  | [] => []
  | item :: items => style.comma depth ++ write style depth item ++ writeItems style depth items

def writeMember (style : Style) (depth : Nat) : Text × Json → Text
  | (key, value) => quote key ++ style.colon ++ write style depth value

/-- The members after the first. -/
def writeMembers (style : Style) (depth : Nat) : List (Text × Json) → Text
  | [] => []
  | member :: members =>
    style.comma depth ++ writeMember style depth member ++ writeMembers style depth members
end

/-- A value without any space. -/
def compact (v : Json) : Text := write .compact 0 v

/-- A value on one line. -/
def spaced (v : Json) : Text := write .spaced 0 v

/-- A value with one item a line. -/
def pretty (v : Json) : Text := write .pretty 0 v

end Recast.Json
