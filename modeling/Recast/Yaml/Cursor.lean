import Recast.Yaml.Scalar

/-! # Places in a document

Structure follows from columns, so reading keeps track of line and column. A place
is the text that remains there, with the counts of what was passed.
-/

namespace Recast.Yaml

/-- A place in a document. -/
structure Cursor where
  rest : Text
  index : Nat := 0
  line : Nat := 0
  column : Nat := 0
  deriving Repr

/-- A line break: unlike in writing, a carriage return is one too. -/
def endsLine (c : Char) : Bool := c == '\r' || isBreak c

/-- A space or a tab. -/
def isGap (c : Char) : Bool := c == ' ' || c == '\t'

/-- A character that a document may hold. -/
def isPrintable (c : Char) : Bool :=
  c == '\t' || c == '\r' || c == '\uFEFF' || c.toNat == 0x10FFFF || !isSpecial c

namespace Cursor

def isAt (ch : Char) (c : Cursor) : Bool := c.rest.head? == some ch

/-- Is the end of the text reached, or a character that satisfies `p`? -/
def endsOr (p : Char → Bool) (c : Cursor) : Bool :=
  match c.rest with
  | [] => true
  | ch :: _ => p ch

def columnsOf (ch : Char) : Nat := if ch = '\uFEFF' then 0 else 1

/-- Pass over some characters, none of them a line break. -/
def advance (count : Nat) (c : Cursor) : Cursor :=
  { c with
    rest := c.rest.drop count
    index := c.index + count
    column := (c.rest.take count).foldl (fun column ch => column + columnsOf ch) c.column }

/-- Pass over the longest run of characters that satisfy `p`, none of them a line break. -/
def span (p : Char → Bool) (c : Cursor) : Text × Cursor :=
  let taken := c.rest.takeWhile p
  (taken, c.advance taken.length)

/-- Pass over a run of characters that satisfy `p`. -/
def skip (p : Char → Bool) (c : Cursor) : Cursor := (c.span p).2

/-- Pass over spaces, but not beyond a column. -/
def skipSpacesTo (column : Nat) (c : Cursor) : Cursor :=
  c.advance ((c.rest.takeWhile (· = ' ')).take (column - c.column)).length

/-- The line break that comes next, and the start of the next line. All breaks but the two
    separators are line feeds. -/
def readBreak? (c : Cursor) : Option (Char × Cursor) :=
  let newLine (width : Nat) (rest : Text) : Cursor :=
    { rest, index := c.index + width, line := c.line + 1, column := 0 }
  match c.rest with
  | '\r' :: '\n' :: rest => some ('\n', newLine 2 rest)
  | ch :: rest =>
    if ch = '\u2028' || ch = '\u2029' then some (ch, newLine 1 rest)
    else if endsLine ch then some ('\n', newLine 1 rest)
    else none
  | [] => none

/-- Pass over a comment, if there is one, up to the end of the line. -/
def skipComment (c : Cursor) : Cursor :=
  if c.isAt '#' then c.skip (!endsLine ·) else c

/-- Pass over the rest of a line that holds nothing but a comment. -/
def finishLine? (c : Cursor) : Option Cursor :=
  let c := (c.skip (· = ' ')).skipComment
  if c.rest.isEmpty then some c else (c.readBreak?).map (·.2)

/-- Is a mark for the start or end of a document next, parted from what follows? -/
def isAtMark (mark : Text) (c : Cursor) : Bool :=
  match Text.after? mark c.rest with
  | some rest => isParted rest
  | none => false

/-- Is one of the two marks next? -/
def isAtSeparator (c : Cursor) : Bool := c.isAtMark "---" || c.isAtMark "..."

end Cursor
end Recast.Yaml
