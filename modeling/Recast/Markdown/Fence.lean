import Recast.Markdown.Escape
import Recast.Markdown.Source
import Recast.Text.Word

/-! # Fenced code

A fence is a run of at least three tildes or backticks at the start of a line, with an
optional language or a list of attributes after it. The code lasts until a line that
has the same run and nothing else.
-/

namespace Recast.Markdown.Fence

/-! ## Attributes -/

/-- A character of a bare word between braces. -/
def isWordPart (c : Char) : Bool := c != ' ' && c != '=' && c != '}'

/-- A value in quotation marks, and what follows it. -/
def readQuoted? : Text → Option (Text × Text)
  | mark :: rest => if mark = '"' || mark = '\'' then Text.cutAt? mark rest else none
  | [] => none

/-- A word without a value: a class, an identifier or a flag. -/
def wordAttribute : Text → Text × Text
  | '.' :: name => (".", name)
  | '#' :: name => ("id", name)
  | word => (word, word)

/-- The attribute at the start of a text, and what follows it. -/
def readAttribute? (t : Text) : Option ((Text × Text) × Text) :=
  let (word, rest) := Text.spanWhile isWordPart t
  if word.isEmpty then none
  else match rest with
    | '=' :: afterSign =>
      match readQuoted? afterSign with
      | some (value, rest) => some ((word, value), rest)
      | none =>
        let (value, after) := Text.spanWhile isWordPart afterSign
        some (if value.isEmpty then (wordAttribute word, rest) else ((word, value), after))
    | _ => some (wordAttribute word, rest)

/-- The attributes in order, and the text that is none. -/
def readAttributes (fuel : Nat) (t : Text) : List (Text × Text) × Text :=
  match fuel with
  | 0 => ([], t)
  | fuel + 1 =>
    match t with
    | ' ' :: rest => readAttributes fuel rest
    | _ =>
      match readAttribute? t with
      | none => ([], t)
      | some (attribute', rest) =>
        let (others, rest) := readAttributes fuel rest
        (attribute' :: others, rest)

/-! ## Opening lines -/

/-- What an opening line says about its code. -/
structure Head where
  language : Option Text
  identifier : Text
  classes : List Text
  deriving DecidableEq, Repr

/-- The head that a list of attributes makes: the first class is the language. -/
def Head.ofAttributes (attributes : List (Text × Text)) : Head :=
  let classes := (attributes.filter (·.1 == ".".toList)).map (·.2)
  let identifier := ((attributes.filter (·.1 == "id".toList)).map (·.2)).getLast?.getD []
  { language := classes.head?, identifier, classes := classes.drop 1 }

/-- The head with braces. A brace inside of them that no attribute takes makes it invalid. -/
def readBraces? (t : Text) : Option Head :=
  let (attributes, others) := readAttributes (t.length + 1) t
  if others.contains '}' then none else some (Head.ofAttributes attributes)

def isLanguagePart (c : Char) : Bool :=
  Text.isWord c || c == '#' || c == '.' || c == '+' || c == '-'

/-- Does the text say which lines are to be highlighted, and nothing else? -/
def isHighlight (t : Text) : Bool :=
  match Text.after? "hl_lines=" t with
  | none => false
  | some value =>
    match value with
    | mark :: rest =>
      (mark == '"' || mark == '\'') && (rest.reverse.dropWhile (· == ' ')).head? == some mark
    | [] => false

/-- The head without braces: a language, then the lines to be highlighted. -/
def readLanguage? (t : Text) : Option Head :=
  let (run, rest) := Text.spanWhile isLanguagePart t
  let rest := rest.dropWhile (· == ' ')
  let head (name : Text) : Head :=
    let name := if name.head? = some '.' then name.drop 1 else name
    { language := if name.isEmpty then none else some name, identifier := [], classes := [] }
  if rest.isEmpty || isHighlight rest then some (head run)
  else
    let name := run.take (run.length - "hl_lines".length)
    if isHighlight (t.drop name.length) then some (head name) else none

/-- The fence at the start of a line, and the head after it. -/
def readOpening? (line : Text) : Option (Text × Head) := do
  let sign ← line.head?
  let (fence, rest) := Text.spanWhile (· == sign) line
  if (sign = '~' || sign = '`') && 3 ≤ fence.length then
    let rest := rest.dropWhile (· == ' ')
    let head ← match rest with
      | '{' :: inside =>
        if inside.getLast? = some '}' then readBraces? inside.dropLast else none
      | _ => readLanguage? rest
    return (fence, head)
  else none

/-! ## Fences in a source -/

def closes (fence line : Text) : Bool :=
  (Text.after? fence line).any (·.all (· == ' '))

/-- The lines up to the one that closes the fence, and the lines after it. -/
def readCode? (fence : Text) : List Text → Option (List Text × List Text)
  | [] => none
  | line :: lines =>
    if closes fence line then some ([], lines)
    else (readCode? fence lines).map fun (code, rest) => (line :: code, rest)

def writeAttribute (name value : Text) : Text :=
  " " ++ name ++ "=\"" ++ Escape.quoted value ++ "\""

def html (head : Head) (code : List Text) : Text :=
  let identifier := if head.identifier.isEmpty then [] else writeAttribute "id" head.identifier
  let classes :=
    if head.classes.isEmpty then [] else writeAttribute "class" (Text.join " " head.classes)
  let language := match head.language with
    | some name => if name.isEmpty then [] else writeAttribute "class" ("language-" ++ name)
    | none => []
  let code := code.flatMap (· ++ ['\n'])
  "<pre" ++ identifier ++ classes ++ "><code" ++ language ++ ">" ++ Escape.fenced code
    ++ "</code></pre>"

/-- Set the fenced code among some lines aside. A mark on a line of its own, between empty
    lines, stands for it. -/
def setAsideLines (fuel : Nat) (asides : Asides) (lines : List Text) : Asides × List Text :=
  match fuel with
  | 0 => (asides, lines)
  | fuel + 1 =>
    match lines with
    | [] => (asides, [])
    | line :: rest =>
      let fenced? := do
        let (fence, head) ← readOpening? line
        let (code, after) ← readCode? fence rest
        return (html head code, after)
      match fenced? with
      | some (code, after) =>
        let (all, others) := setAsideLines fuel (asides.add code) after
        (all, [] :: Asides.mark asides.length :: [] :: others)
      | none =>
        let (all, others) := setAsideLines fuel asides rest
        (all, line :: others)

/-- Set the fenced code of a source aside. -/
def setAside (t : Text) : Asides × Text :=
  let lines := Text.splitOn '\n' t
  let (asides, lines) := setAsideLines (lines.length + 1) [] lines
  (asides, Text.join "\n" lines)

end Recast.Markdown.Fence
