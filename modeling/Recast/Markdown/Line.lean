import Recast.Text.Blank
import Recast.Text.Digit
import Recast.Text.Lowercase

/-! # Shapes of lines

What a line, or the start of a block of lines, looks like: an item, a heading, a rule, a
quotation or the definition of a reference. Four columns make one level of indentation.
-/

namespace Recast.Markdown.Line

def lines (t : Text) : List Text := Text.splitOn '\n' t

def unlines (lines : List Text) : Text := Text.join "\n" lines

/-- The number of spaces at the start. -/
def indent (line : Text) : Nat := (line.takeWhile (· == ' ')).length

def dropSpaces (t : Text) : Text := t.dropWhile (· == ' ')

/-! ## Indentation -/

/-- Does a text start at least one level in? -/
def isIndented (t : Text) : Bool := 4 ≤ indent t

/-- Drop some levels from every line that has as many. -/
def outdent (level : Nat) (t : Text) : Text :=
  unlines ((lines t).map fun line =>
    if 4 * level ≤ indent line then line.drop (4 * level) else line)

/-- The indented lines at the start, one level out, and the lines after them. Blank lines
    count as indented. -/
def takeIndented : List Text → List Text × List Text
  | [] => ([], [])
  | line :: rest =>
    if isIndented line then
      let (inside, others) := takeIndented rest
      (line.drop 4 :: inside, others)
    else if Text.blank line then
      let (inside, others) := takeIndented rest
      ([] :: inside, others)
    else ([], line :: rest)

/-! ## Items -/

/-- What follows the sign of a bullet. -/
def afterBullet? : Text → Option Text
  | c :: rest => if c = '*' || c = '+' || c = '-' then some rest else none
  | [] => none

/-- What follows the number of an item. -/
def afterNumber? (t : Text) : Option Text :=
  let (digits, rest) := Text.spanWhile Text.isDigit t
  if digits.isEmpty then none else Text.after? "." rest

/-- The text of an item, from its sign on. A space follows the sign. -/
def itemText? (sign? : Text → Option Text) (t : Text) : Option Text := do
  let rest ← sign? t
  if rest.head? = some ' ' then some (dropSpaces rest) else none

/-- A sign of either kind. -/
def afterSign? (t : Text) : Option Text := afterBullet? t <|> afterNumber? t

/-- The text of an item that starts less than one level in. -/
def readItem? (sign? : Text → Option Text) (line : Text) : Option Text :=
  if isIndented line then none else itemText? sign? (dropSpaces line)

def isBullet (line : Text) : Bool := (readItem? afterBullet? line).isSome

def isNumbered (line : Text) : Bool := (readItem? afterNumber? line).isSome

/-- Is the line an item that starts between one and two levels in? -/
def isInnerItem (line : Text) : Bool :=
  isIndented line && indent line < 8 && (itemText? afterSign? (dropSpaces line)).isSome

/-- The items in the lines of a block, last item first; `items` are those read so far. Other
    lines belong to the item before them, and so do inner items if that one is indented. -/
def itemsAux (items : List Text) : List Text → List Text
  | [] => items
  | line :: rest =>
    match readItem? afterSign? line with
    | some text => itemsAux (text :: items) rest
    | none =>
      match items with
      | [] => itemsAux [line] rest
      | item :: before =>
        if isInnerItem line && !isIndented item then itemsAux (line :: items) rest
        else itemsAux ((item ++ '\n' :: line) :: before) rest

def items (block : Text) : List Text := (itemsAux [] (lines block)).reverse

/-! ## Headings -/

/-- The title at the start of a text, up to the number signs that end the line. There is none
    if the line ends in a backslash that escapes nothing. -/
def title? : Text → Option Text
  | [] => some []
  | c :: rest =>
    if (c :: rest).all (· == '#') then some []
    else if c = '\\' then
      match rest with
      | d :: rest => (title? rest).map fun title => c :: d :: title
      | [] => none
    else (title? rest).map (c :: ·)

/-- The level and the title of a heading with number signs in front. -/
def heading? (line : Text) : Option (Nat × Text) :=
  let level := min 6 (line.takeWhile (· == '#')).length
  if level = 0 then none else (title? (line.drop level)).map fun title => (level, Text.trim title)

/-- The level of the heading that a line below it makes. -/
def underline? (line : Text) : Option Nat :=
  let (signs, rest) := Text.spanWhile (fun c => c == '=' || c == '-') line
  if signs.isEmpty || !rest.all (· == ' ') then none
  else some (if signs.head? = some '=' then 1 else 2)

/-! ## Rules -/

/-- How many signs there are, when at most two spaces stand between neighbours and only
    spaces after them; `gap` counts the spaces since the last sign. -/
def signCount? (sign : Char) (gap : Nat) : Text → Option Nat
  | [] => some 0
  | c :: rest =>
    if c = ' ' then signCount? sign (gap + 1) rest
    else if c = sign && gap ≤ 2 then (signCount? sign 0 rest).map (· + 1)
    else none

/-- Is the line a rule: three signs or more, all of one kind? -/
def isRule (line : Text) : Bool :=
  match dropSpaces line with
  | c :: rest =>
    !isIndented line && (c == '-' || c == '_' || c == '*')
      && (signCount? c 0 (c :: rest)).any (3 ≤ ·)
  | [] => false

/-! ## Quotations -/

def quoted? (line : Text) : Option Text := do
  let rest ← if isIndented line then none else Text.after? ">" (dropSpaces line)
  return (Text.after? " " rest).getD rest

/-- A line of a quotation without its sign, which lines after the first may lack. -/
def unquote (line : Text) : Text :=
  if Text.trim line = ">" then [] else (quoted? line).getD line

/-! ## References -/

/-- What a reference stands for. -/
structure Target where
  address : Text
  title : Option Text
  deriving DecidableEq, Repr

/-- The end of a line: what follows, from the line feed on. -/
def lineEnd? (t : Text) : Option Text :=
  match t with
  | [] => some []
  | '\n' :: _ => some t
  | _ => none

/-- The title that fills a line, and what follows the line. -/
def readTitle? (t : Text) : Option (Text × Text) :=
  let (line, rest) := Text.spanWhile (· != '\n') t
  let close? := match line.head? with
    | some '"' => some '"'
    | some '\'' => some '\''
    | some '(' => some ')'
    | _ => none
  match close?, (line.drop 1).reverse.dropWhile (· == ' ') with
  | some close, c :: inside => if c = close then some (inside.reverse, rest) else none
  | _, _ => none

/-- The title of a definition, which is optional, and what follows the definition. -/
def readEnding? (t : Text) : Option (Option Text × Text) :=
  let here (t : Text) : Option (Option Text × Text) :=
    match readTitle? t with
    | some (title, rest) => some (some title, rest)
    | none => (lineEnd? t).map fun rest => (none, rest)
  let t := dropSpaces t
  match t with
  | '\n' :: below => here (dropSpaces below) <|> here t
  | _ => here t

/-- The address and the title of a definition, where the address is one of the first `n`
    characters of a run, as many as possible. -/
def readTarget? (run rest : Text) : Nat → Option (Target × Text)
  | 0 => none
  | n + 1 =>
    match readEnding? (run.drop (n + 1) ++ rest) with
    | some (title, after) =>
      let address := (run.take (n + 1)).dropWhile (· == '<')
      let address := (address.reverse.dropWhile (· == '>')).reverse
      some ({ address, title }, after)
    | none => readTarget? run rest n

def referenceName (t : Text) : Text := Text.lower t

/-- The definition at the start of a text, and what follows it. -/
def readDefinition? (t : Text) : Option ((Text × Target) × Text) := do
  let rest ← if isIndented t then none else Text.after? "[" (dropSpaces t)
  let (name, rest) := Text.spanWhile (fun c => c != '[' && c != ']') rest
  let rest := dropSpaces (← Text.after? "]:" rest)
  let (run, rest) := Text.spanWhile (fun c => !Text.isBlank c)
    (dropSpaces ((Text.after? "\n" rest).getD rest))
  let (target, rest) ← readTarget? run rest run.length
  return ((referenceName (Text.trim name), target), rest)

/-- The lines before the first definition in a block, the definition, and the text after it. -/
def cutDefinition? : List Text → Option (List Text × (Text × Target) × Text)
  | [] => none
  | line :: rest =>
    match readDefinition? (unlines (line :: rest)) with
    | some (definition, after) => some ([], definition, after)
    | none => (cutDefinition? rest).map fun (before, found) => (line :: before, found)

/-- The lines before the first one with a property, that one, and the lines after it. -/
def cutAtLine? (p : Text → Bool) : List Text → Option (List Text × Text × List Text)
  | [] => none
  | line :: rest =>
    if p line then some ([], line, rest)
    else (cutAtLine? p rest).map fun (before, found) => (line :: before, found)

end Recast.Markdown.Line
