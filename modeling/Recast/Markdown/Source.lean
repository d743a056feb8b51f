import Recast.Text.Basic

/-! # Markdown sources

A source is brought into a regular form before anything is looked for in it. Parts that
are already HTML are set aside, and a mark stands for each of them.
-/

namespace Recast.Markdown

/-- The characters around the number of a part that is set aside. Sources do not have them. -/
def openMark : Char := '\u0002'

def closeMark : Char := '\u0003'

/-- Write spaces for tabs, up to the next column that is a multiple of four. -/
def expandTabs : Nat → Text → Text
  | _, [] => []
  | column, c :: rest =>
    if c = '\t' then
      let width := 4 - column % 4
      Text.copies width ' ' ++ expandTabs (column + width) rest
    else c :: expandTabs (if c = '\n' then 0 else column + 1) rest

/-- Empty the lines that consist of spaces, the first one excepted. -/
def emptyBlankLines (t : Text) : Text :=
  match Text.splitOn '\n' t with
  | [] => []
  | first :: others =>
    Text.join "\n" (first :: others.map fun line => if line.all (· == ' ') then [] else line)

/-- A source without marks and tabs, whose lines end in line feeds and which ends in a blank
    line. -/
def normalize (t : Text) : Text :=
  let unmarked := t.filter fun c => c != openMark && c != closeMark
  emptyBlankLines (expandTabs 0 (Text.universalNewlines unmarked ++ "\n\n"))

/-- The HTML parts set aside so far, in the order of their numbers. -/
abbrev Asides := List Text

namespace Asides

/-- What stands for the part with a number. -/
def mark (n : Nat) : Text := openMark :: Text.ofNat n ++ [closeMark]

/-- A character of a source, or a part that was set aside. -/
inductive Piece where
  | char (c : Char)
  | html (t : Text)
  deriving DecidableEq, Repr

/-- Put the parts in the place of their marks. `number?` is the number of the mark that is
    being read. -/
def piecesAux (asides : Asides) : Option Nat → Text → List Piece
  | _, [] => []
  | none, c :: rest =>
    if c = openMark then piecesAux asides (some 0) rest else .char c :: piecesAux asides none rest
  | some n, c :: rest =>
    if c = closeMark then .html (asides.getD n []) :: piecesAux asides none rest
    else piecesAux asides (some (10 * n + (c.toNat - '0'.toNat))) rest

def pieces (asides : Asides) (t : Text) : List Piece := piecesAux asides none t

/-- A text with the parts in the place of their marks. -/
def restore (asides : Asides) (t : Text) : Text :=
  (asides.pieces t).flatMap fun
    | .char c => [c]
    | .html part => part

/-- Set one more part aside. Its own marks are replaced, so that no part has any. -/
def add (asides : Asides) (part : Text) : Asides := asides ++ [asides.restore part]

end Asides
end Recast.Markdown
