import Recast.Markdown.Block

/-! # Tables

A row of headers and a row of dashes start a table. Bars separate the cells, except
those in code and those after a backslash.
-/

namespace Recast.Markdown.Table

/-! ## Bars -/

/-- A sign in a row that decides where its cells end. -/
inductive Sign where
  | bar (place : Nat)
  /-- A run of backticks from one position to another, both counted; `escaped` ones have a
      backslash in front, which the run includes. -/
  | ticks (first last : Nat) (escaped : Bool)
  deriving DecidableEq, Repr

/-- The signs of a row from position `i` on. -/
def signs (fuel i : Nat) (t : Text) : List Sign :=
  match fuel with
  | 0 => []
  | fuel + 1 =>
    let ticks (escaped : Bool) (rest : Text) : List Sign :=
      let n := (rest.takeWhile (· == '`')).length
      let width := n + escaped.toNat
      .ticks i (i + width - 1) escaped :: signs fuel (i + width) (rest.drop n)
    match t with
    | [] => []
    | '\\' :: '\\' :: rest | '\\' :: '|' :: rest => signs fuel (i + 2) rest
    | '\\' :: '`' :: rest => ticks true ('`' :: rest)
    | '`' :: rest => ticks false ('`' :: rest)
    | '|' :: rest => .bar i :: signs fuel (i + 1) rest
    | _ :: rest => signs fuel (i + 1) rest

/-- The bars that separate cells. A run of backticks and the next run of its length enclose
    code; `pending` are the signs after a run. -/
def bars (fuel : Nat) (pending : List Sign) : List Nat :=
  match fuel with
  | 0 => []
  | fuel + 1 =>
    match pending with
    | [] => []
    | .bar i :: rest => i :: bars fuel rest
    | .ticks first last escaped :: rest =>
      let width := last + 1 - first - escaped.toNat - escaped.toNat
      let isEnd : Sign → Bool
        | .bar _ => false
        | .ticks first last escaped => last + 1 - first - escaped.toNat == width
      match rest.dropWhile (!isEnd ·) with
      | _ :: after => if width = 0 then bars fuel rest else bars fuel after
      | [] => bars fuel rest

/-- Split a text at some positions, which increase; `start` is the position of its start. -/
def splitAt (start : Nat) : List Nat → Text → List Text
  | [], t => [t]
  | i :: positions, t =>
    t.take (i - start) :: splitAt (i + 1) positions (t.drop (i + 1 - start))

def splitBars (row : Text) : List Text :=
  splitAt 0 (bars (row.length + 1) (signs (row.length + 1) 0 row)) row

/-! ## Rows -/

def trimSpaces (t : Text) : Text :=
  ((t.dropWhile (· == ' ')).reverse.dropWhile (· == ' ')).reverse

def endsInBar (row : Text) : Bool :=
  match row.reverse with
  | '|' :: rest => (rest.takeWhile (· == '\\')).length % 2 == 0
  | _ => false

/-- A row without its last bar; backslashes in front of it go as well. -/
def dropLastBar (row : Text) : Text :=
  if endsInBar row then (row.dropLast.reverse.dropWhile (· == '\\')).reverse else row

/-- The cells of a row. In a `bordered` table the outer bars separate nothing. -/
def cells (bordered : Bool) (row : Text) : List Text :=
  if bordered then
    splitBars (dropLastBar (if row.head? = some '|' then row.drop 1 else row))
  else splitBars row

/-- The shape of a table: has it outer bars, and to which side does each column keep? -/
structure Shape where
  bordered : Bool
  sides : List (Option Text)
  deriving DecidableEq, Repr

/-- The side that a cell of the second row stands for. -/
def sideOf (cell : Text) : Option Text :=
  let cell := trimSpaces cell
  match cell.head? == some ':', cell.getLast? == some ':' with
  | true, true => some "center"
  | true, false => some "left"
  | false, true => some "right"
  | false, false => none

/-- The shape of the table that some lines are, when they are one. -/
def shape? (lines : List Text) : Option Shape :=
  match lines.map trimSpaces with
  | head :: second :: others =>
    let hasBar (row : Text) : Bool := row.head? == some '|' || endsInBar row
    let bordered := hasBar head
    let columns := (cells bordered head).length
    let isTable := 1 < columns || (bordered && (second :: others).all hasBar)
    let dashes := cells bordered second
    let isDash (c : Char) : Bool := c == '|' || c == ':' || c == '-' || c == ' '
    if isTable && dashes.length == columns && dashes.all (·.all isDash) then
      some { bordered, sides := dashes.map sideOf }
    else none
  | _ => none

/-- A row with a cell for each column. Missing cells are empty. -/
def row (shape : Shape) (isHead : Bool) (line : Text) : Block :=
  let texts := cells shape.bordered (trimSpaces line)
  .mk .row [] (shape.sides.mapIdx fun i side =>
    (.leaf (.cell isHead side) (trimSpaces (texts.getD i [])), []))

def emptyRow (shape : Shape) : Block :=
  .mk .row [] (shape.sides.map fun _ => (.leaf (.cell false none) [], []))

def ofLines (shape : Shape) (lines : List Text) : Block :=
  let body := (lines.drop 2).map (row shape false)
  let body := if body.isEmpty then [emptyRow shape] else body
  .mk .table []
    [(.mk .tableHead [] [(row shape true (lines.headD []), [])], []),
      (.mk .tableBody [] (body.map fun r => (r, [])), [])]

end Recast.Markdown.Table
