import Recast.Yaml.Cursor
import Recast.Yaml.Number

/-! # Reading scalars

The text of a scalar in each of its forms: plain, between quotes, or as a block of
indented lines. Line breaks within are folded as the form asks for.
-/

namespace Recast.Yaml

/-- A line break with the empty lines after it: a single line feed becomes a space, and one
    before empty lines is dropped. -/
def foldBreak (br : Char) (emptyLines : Text) : Text :=
  (if br ≠ '\n' then [br] else if emptyLines.isEmpty then [' '] else []) ++ emptyLines

/-! ## Quoted scalars -/

/-- The empty lines that come next between quotes, and the place after the blanks behind
    them. No mark may stand at the start of a line. -/
def readEmptyLines : Nat → Cursor → Except Error (Text × Cursor)
  | 0, _ => .error .malformed
  | fuel + 1, c =>
    if c.isAtSeparator then .error .malformed
    else
      let c := c.skip isGap
      match c.readBreak? with
      | none => .ok ([], c)
      | some (br, c) => do
        let (more, c) ← readEmptyLines fuel c
        return (br :: more, c)

def letterEscape? (ch : Char) : Option Char :=
  [('0', '\x00'), ('a', '\x07'), ('b', '\x08'), ('t', '\t'), ('\t', '\t'), ('n', '\n'),
    ('v', '\x0b'), ('f', '\x0c'), ('r', '\r'), ('e', '\x1b'), (' ', ' '), ('"', '"'),
    ('\\', '\\'), ('/', '/'), ('N', '\x85'), ('_', '\xa0'), ('L', '\u2028'),
    ('P', '\u2029')].lookup ch

/-- The number of hexadecimal digits after the letter of an escape. -/
def escapeWidth? (ch : Char) : Option Nat :=
  [('x', 2), ('u', 4), ('U', 8)].lookup ch

/-- The character with a number; half a surrogate pair becomes U+FFFD. -/
def characterOf (code : Nat) : Except Error Char :=
  if 0x110000 ≤ code then .error (.noCharacter code) else .ok (Json.charOfCode code)

/-- What an escape stands for, from after the backslash on. One before a line break joins the
    lines. -/
def readEscape (fuel : Nat) (c : Cursor) : Except Error (Text × Cursor) :=
  match c.rest with
  | [] => .error .malformed
  | ch :: rest =>
    match letterEscape? ch, escapeWidth? ch with
    | some letter, _ => .ok ([letter], c.advance 1)
    | none, some width =>
      let digits := rest.take width
      match digits.mapM Json.hexValue? with
      | some values => do
        if values.length = width then
          let letter ← characterOf (values.foldl (fun n d => n * 16 + d) 0)
          return ([letter], c.advance (width + 1))
        else .error .malformed
      | none => .error .malformed
    | none, none =>
      match c.readBreak? with
      | some (_, c) => readEmptyLines fuel c
      | none => .error .malformed

/-- Blanks between quotes: they are dropped around a line break, which is folded. -/
def readBlanks (fuel : Nat) (c : Cursor) : Except Error (Text × Cursor) :=
  let (blanks, c) := c.span isGap
  match c.readBreak? with
  | none => .ok (blanks, c)
  | some (br, c) => do
    let (emptyLines, c) ← readEmptyLines fuel c
    return (foldBreak br emptyLines, c)

/-- The text up to the closing quote, which a single quote inside doubles and a double quote
    escapes. `fuel` bounds the number of steps. -/
def readQuoted (double : Bool) (fuel : Nat) (c : Cursor) : Except Error (Text × Cursor) :=
  match fuel with
  | 0 => .error .malformed
  | fuel + 1 =>
    let andMore (piece : Text) (c : Cursor) : Except Error (Text × Cursor) := do
      let (more, c) ← readQuoted double fuel c
      return (piece ++ more, c)
    match c.rest with
    | [] => .error .malformed
    | ch :: rest =>
      if isGap ch || endsLine ch then do
        let (piece, c) ← readBlanks fuel c
        andMore piece c
      else if double then
        if ch = '"' then .ok ([], c.advance 1)
        else if ch = '\\' then do
          let (piece, c) ← readEscape fuel (c.advance 1)
          andMore piece c
        else andMore [ch] (c.advance 1)
      else if ch = '\'' then
        if rest.head? = some '\'' then andMore [ch] (c.advance 2) else .ok ([], c.advance 1)
      else andMore [ch] (c.advance 1)

/-! ## Plain scalars -/

/-- The longest beginning that a plain scalar can have on one line without a space. In flow
    collections more characters end it. -/
def plainWord (inFlow : Bool) : Text → Text
  | [] => []
  | ch :: rest =>
    let colonEnds := isParted rest || (inFlow && rest.head?.any ",[]\x7b\x7d".toList.elem)
    if isGap ch || endsLine ch || (ch == ':' && colonEnds)
        || (inFlow && ",?[]\x7b\x7d".toList.elem ch) then []
    else ch :: plainWord inFlow rest

/-- The empty lines that come next in a plain scalar, unless a mark follows one. -/
def readPlainLines : Nat → Cursor → Option Text × Cursor
  | 0, c => (none, c)
  | fuel + 1, c =>
    let c := c.skip (· = ' ')
    match c.readBreak? with
    | none => (some [], c)
    | some (br, c) =>
      if c.isAtSeparator then (none, c)
      else
        let (more?, c) := readPlainLines fuel c
        (more?.map (br :: ·), c)

/-- What stands between two words of a plain scalar, and whether a line ended there. It is
    empty where the scalar has to end. -/
def readPlainGap (fuel : Nat) (c : Cursor) : Text × Bool × Cursor :=
  let (blanks, c) := c.span (· = ' ')
  match c.readBreak? with
  | none => (blanks, false, c)
  | some (br, c) =>
    if c.isAtSeparator then ([], true, c)
    else
      let (emptyLines?, c) := readPlainLines fuel c
      ((emptyLines?.map (foldBreak br)).getD [], true, c)

/-- A plain scalar, from a word on: its text with `gap` in front, and whether the last gap
    ended a line. Further lines start at `least` or to the right of it. -/
def readPlain (inFlow : Bool) (least : Int) (fuel : Nat) (gap : Text) (lineEnded : Bool)
    (c : Cursor) : Text × Bool × Cursor :=
  match fuel with
  | 0 => ([], lineEnded, c)
  | fuel + 1 =>
    let word := plainWord inFlow c.rest
    if c.isAt '#' || word.isEmpty then ([], lineEnded, c)
    else
      let (next, lineEnded, c) := readPlainGap fuel (c.advance word.length)
      if next.isEmpty || c.isAt '#' || (!inFlow && c.column < least) then
        (gap ++ word, lineEnded, c)
      else
        let (more, lineEnded, c) := readPlain inFlow least fuel next lineEnded c
        (gap ++ word ++ more, lineEnded, c)

/-! ## Block scalars -/

/-- What is done with the line breaks at the end of a block. -/
inductive Chomping where
  | strip
  /-- The last line keeps its break. -/
  | clip
  | keep
  deriving DecidableEq, Repr

/-- The chomping that a sign asks for. -/
def chomping? : Char → Option Chomping
  | '+' => some .keep
  | '-' => some .strip
  | _ => none

/-- The indentation that a digit asks for. -/
def increment? (ch : Char) : Option Nat :=
  if '1' ≤ ch && ch ≤ '9' then some (ch.toNat - '0'.toNat) else none

/-- Chomping and indentation, in either order, and the place on the line after them. -/
def readBlockHeader (c : Cursor) : Except Error (Chomping × Option Nat × Cursor) := do
  let (chomping, increment?, c) : Chomping × Option Nat × Cursor :=
    match c.rest with
    | a :: b :: _ =>
      match chomping? a, increment? a with
      | some chomping, _ =>
        match increment? b with
        | some n => (chomping, some n, c.advance 2)
        | none => (chomping, none, c.advance 1)
      | none, some n =>
        match chomping? b with
        | some chomping => (chomping, some n, c.advance 2)
        | none => (.clip, some n, c.advance 1)
      | none, none => (.clip, none, c)
    | [a] =>
      match chomping? a, increment? a with
      | some chomping, _ => (chomping, none, c.advance 1)
      | none, some n => (.clip, some n, c.advance 1)
      | none, none => (.clip, none, c)
    | [] => (.clip, none, c)
  if c.endsOr fun ch => ch == ' ' || endsLine ch then
    match c.finishLine? with
    | some c => return (chomping, increment?, c)
    | none => .error .malformed
  else .error .malformed

/-- The empty lines at the start of a block, and the greatest column that their spaces and
    those of the first other line reach. -/
def readBlockStart : Nat → Cursor → Text × Nat × Cursor
  | 0, c => ([], 0, c)
  | fuel + 1, c =>
    let c := c.skip (· = ' ')
    match c.readBreak? with
    | none => ([], c.column, c)
    | some (br, after) =>
      let (more, column, after) := readBlockStart fuel after
      (br :: more, max c.column column, after)

/-- The empty lines that come next in a block, whose lines start at a column. -/
def readBlockBreaks (indent : Nat) : Nat → Cursor → Text × Cursor
  | 0, c => ([], c)
  | fuel + 1, c =>
    let c := c.skipSpacesTo indent
    match c.readBreak? with
    | none => ([], c)
    | some (br, c) =>
      let (more, c) := readBlockBreaks indent fuel c
      (br :: more, c)

def isBlockLine (indent : Nat) (c : Cursor) : Bool :=
  c.column == indent && !c.rest.isEmpty

/-- The lines of a block after some empty lines, then the last line break, the empty lines
    behind it, and the place there. Folding joins two lines unless one is indented further. -/
def readBlockLines (folded : Bool) (indent : Nat) (fuel : Nat) (emptyLines : Text)
    (c : Cursor) : Text × Text × Text × Cursor :=
  match fuel with
  | 0 => ([], [], emptyLines, c)
  | fuel + 1 =>
    if isBlockLine indent c then
      let isFlush := !c.endsOr isGap
      let (line, c) := c.span (!endsLine ·)
      let (br, c) : Text × Cursor := match c.readBreak? with
        | some (br, c) => ([br], c)
        | none => ([], c)
      let (after, c) := readBlockBreaks indent fuel c
      if isBlockLine indent c then
        let joins := folded && br == ['\n'] && isFlush && !c.endsOr isGap
        let glue : Text := if joins then if after.isEmpty then [' '] else [] else br
        let (more, lastBreak, last, c) := readBlockLines folded indent fuel after c
        (emptyLines ++ line ++ glue ++ more, lastBreak, last, c)
      else (emptyLines ++ line, br, after, c)
    else ([], [], emptyLines, c)

/-- A block scalar, from after its indicator on, inside a collection at column `parent`. -/
def readBlock (folded : Bool) (parent : Int) (c : Cursor) : Except Error (Text × Cursor) := do
  let (chomping, increment?, c) ← readBlockHeader c
  let least := (max (parent + 1) 1).toNat
  let fuel := c.rest.length + 1
  let (indent, emptyLines, c) : Nat × Text × Cursor := match increment? with
    | some n =>
      let indent := least + n - 1
      (indent, readBlockBreaks indent fuel c)
    | none =>
      let (emptyLines, column, c) := readBlockStart fuel c
      (max least column, emptyLines, c)
  let (lines, lastBreak, last, c) := readBlockLines folded indent fuel emptyLines c
  let ending : Text := match chomping with
    | .strip => []
    | .clip => lastBreak
    | .keep => lastBreak ++ last
  return (lines ++ ending, c)

end Recast.Yaml
