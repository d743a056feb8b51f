import Recast.Json.Display
import Recast.Yaml.Plain

/-! # Writing scalars

A string is written plainly where its spelling allows it, else between single
quotes, and between double quotes when it holds characters that must be escaped.
Long lines are folded at single spaces.
-/

namespace Recast.Yaml

/-- How a scalar is written. -/
inductive Style where
  | plain
  | single
  | double
  deriving DecidableEq, Repr

/-! ## Characters -/

/-- A line break; a carriage return is not written as one. -/
def isBreak (c : Char) : Bool :=
  c == '\n' || c == '\x85' || c == '\u2028' || c == '\u2029'

def isParting (c : Char) : Bool :=
  c == '\x00' || c == ' ' || c == '\t' || c == '\r' || isBreak c

/-- Does nothing follow, or a parting character? -/
def isParted : Text → Bool
  | [] => true
  | c :: _ => isParting c

/-- A character that is only written as an escape. -/
def isSpecial (c : Char) : Bool :=
  let n := c.toNat
  !(c == '\n' || (0x20 ≤ n && n ≤ 0x7E) || n == 0x85 || (0xA0 ≤ n && n ≤ 0xFFFD && n != 0xFEFF)
    || (0x10000 ≤ n && n < 0x10FFFF))

/-! ## The choice of a style -/

/-- Does a text hold two neighbours, the first satisfying `p` and the second `q`? -/
def hasPair (p q : Char → Bool) : Text → Bool
  | a :: b :: rest => (p a && q b) || hasPair p q (b :: rest)
  | _ => false

/-- Does the text after its first character hold a colon at the end of a word, or a number
    sign at the start of one? `before` is the character in front. -/
def hasInnerIndicator (before : Char) : Text → Bool
  | [] => false
  | c :: rest =>
    (c == ':' && isParted rest) || (c == '#' && isParting before) || hasInnerIndicator c rest

/-- Would a reader take some part of the text for an indicator? -/
def hasIndicator (t : Text) : Bool :=
  "---".toList.isPrefixOf t || "...".toList.isPrefixOf t || match t with
    | [] => false
    | c :: rest =>
      "#,[]\x7b\x7d&*!|>'\"%@`".toList.elem c || ("?:-".toList.elem c && isParted rest)
        || hasInnerIndicator c rest

/-- Does the text extend over several lines? -/
def isMultiline (t : Text) : Bool := t.any isBreak

/-- A space or a line break. -/
def isLoose (c : Char) : Bool := c == ' ' || isBreak c

/-- May the text stand without quotes? -/
def allowsPlain (t : Text) : Bool :=
  !(t.head?.any isLoose || t.getLast?.any isLoose || isMultiline t || t.any isSpecial
    || hasIndicator t)

/-- May the text stand between single quotes? -/
def allowsSingle (t : Text) : Bool :=
  !(t.any isSpecial || hasPair (· == ' ') isBreak t || hasPair isBreak (· == ' ') t)

def Style.ofText (t : Text) : Style :=
  if Plain.tag t = .string && allowsPlain t then .plain
  else if allowsSingle t then .single
  else .double

/-! ## Folding -/

/-- Lines are folded beyond this column. -/
def width : Nat := 80

def newLine (indent : Nat) : Text := '\n' :: Text.copies indent ' '

/-- The runs of spaces, of line breaks and of other characters. -/
def runs (t : Text) : List Text :=
  t.splitBy fun a b => (a == ' ') == (b == ' ') && isBreak a == isBreak b

/-- Plain runs from a column on, folded at single spaces to lines at `fold?`. -/
def plainRuns (fold? : Option Nat) (column : Nat) : List Text → Text
  | [] => []
  | run :: rest =>
    match fold? with
    | some indent =>
      if run = [' '] && width < column then newLine indent ++ plainRuns fold? indent rest
      else run ++ plainRuns fold? (column + run.length) rest
    | none => run ++ plainRuns fold? (column + run.length) rest

/-- The line breaks of a run: the first line feed is doubled, since a single one would be
    read as a space. -/
def breakRun (run : Text) : Text :=
  match run with
  | '\n' :: _ => '\n' :: run
  | run => run

/-- Runs between single quotes. `atStart` holds for the first run, and `broken` once a line
    has ended. -/
def singleRuns (fold? : Option Nat) (column : Nat) (atStart broken : Bool) : List Text → Text
  | [] => []
  | run :: rest =>
    let indent := fold?.getD 0
    if run.any isBreak then
      breakRun run ++ Text.copies indent ' ' ++ singleRuns fold? indent false true rest
    else if fold?.isSome && run = [' '] && width < column && !atStart && !rest.isEmpty then
      if broken && column ≤ indent then
        Text.copies (indent - column) ' ' ++ singleRuns fold? indent false true rest
      else newLine indent ++ singleRuns fold? indent false true rest
    else
      let doubled := Text.replace "'" "''" run
      doubled ++ singleRuns fold? (column + doubled.length) false broken rest

/-! ## Escapes -/

/-- The character after the backslash in the escapes of one letter. -/
def letterOf? (c : Char) : Option Char :=
  [('\x00', '0'), ('\x07', 'a'), ('\x08', 'b'), ('\t', 't'), ('\n', 'n'), ('\x0b', 'v'),
    ('\x0c', 'f'), ('\r', 'r'), ('\x1b', 'e'), ('"', '"'), ('\\', '\\'), ('\x85', 'N'),
    ('\u2028', 'L'), ('\u2029', 'P')].lookup c

def upperHex (width n : Nat) : Text := (Json.hexDigits width n).map Char.toUpper

def escape (c : Char) : Text :=
  match letterOf? c with
  | some letter => ['\\', letter]
  | none =>
    if c.toNat ≤ 0xFF then '\\' :: 'x' :: upperHex 2 c.toNat
    else if c.toNat ≤ 0xFFFF then '\\' :: 'u' :: upperHex 4 c.toNat
    else '\\' :: 'U' :: upperHex 8 c.toNat

/-- Is the character escaped between double quotes? Those beyond U+FFFF always are. -/
def isEscaped (c : Char) : Bool :=
  isSpecial c || isBreak c || c == '"' || c == '\\' || 0x10000 ≤ c.toNat

/-- A folded line between double quotes: the backslash keeps the line break out of the text,
    and another one saves a space that comes next. -/
def foldedLine (indent : Nat) (spaceNext : Bool) : Text :=
  '\\' :: newLine indent ++ if spaceNext then ['\\'] else []

/-- A text between double quotes. `word`, last character first, waits to be written at
    `column`; `atStart` holds for the first character. -/
def doubleText (fold? : Option Nat) (atStart : Bool) (word : Text) (column : Nat) : Text → Text
  | [] => word.reverse
  | c :: rest =>
    if isEscaped c then
      let escaped := escape c
      let column := column + word.length + escaped.length
      match fold? with
      | some indent =>
        if !atStart && !rest.isEmpty && width + 1 < column then
          let spaceNext := rest.head? == some ' '
          word.reverse ++ escaped ++ foldedLine indent spaceNext
            ++ doubleText fold? false [] (indent + spaceNext.toNat) rest
        else word.reverse ++ escaped ++ doubleText fold? false [] column rest
      | none => word.reverse ++ escaped ++ doubleText fold? false [] column rest
    else match fold? with
      | some indent =>
        if !atStart && !rest.isEmpty && (c == ' ' || word.isEmpty)
            && width < column + word.length then
          let isSpace := c == ' '
          word.reverse ++ foldedLine indent isSpace
            ++ doubleText fold? false [c] (indent + isSpace.toNat) rest
        else doubleText fold? false (c :: word) column rest
      | none => doubleText fold? false (c :: word) column rest

/-- A string in a style, from a column on, with further lines at `fold?`. -/
def Style.write (style : Style) (fold? : Option Nat) (column : Nat) (t : Text) : Text :=
  match style with
  | .plain => plainRuns fold? column (runs t)
  | .single => '\'' :: singleRuns fold? (column + 1) true false (runs t) ++ ['\'']
  | .double => '"' :: doubleText fold? true [] (column + 1) t ++ ['"']

end Recast.Yaml
