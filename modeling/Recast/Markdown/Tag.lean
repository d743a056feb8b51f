import Recast.Markdown.Escape
import Recast.Text.Blank

/-! # Tags

How far a tag reaches in a source, and what it is called. Backticks end tags early, so
that code is not taken for HTML.
-/

namespace Recast.Markdown

/-- The elements that stand between paragraphs, never inside of one. -/
def blockNames : List String := [
  "address", "article", "aside", "blockquote", "details", "div", "dl", "fieldset", "figcaption",
  "figure", "footer", "form", "h1", "h2", "h3", "h4", "h5", "h6", "header", "hgroup", "hr",
  "main", "menu", "nav", "ol", "p", "pre", "search", "section", "table", "ul", "canvas",
  "colgroup", "dd", "body", "dt", "group", "html", "iframe", "li", "legend", "math", "map",
  "noscript", "output", "object", "option", "progress", "script", "style", "summary", "tbody",
  "td", "textarea", "tfoot", "th", "thead", "tr", "video", "center"]

/-- Does an element with this name stand between paragraphs? Slashes at the end do not
    belong to the name. -/
def isBlockName (name : Text) : Bool :=
  let name := ((Text.lowerAscii name).reverse.dropWhile (· == '/')).reverse
  blockNames.any (·.toList == name)

namespace Tag

/-- A start tag, or what only looks like one. -/
inductive Start where
  /-- A complete tag; `closed` ones close their elements as well. -/
  | complete (name source : Text) (closed : Bool)
  /-- The text up to a sign that no tag has there. -/
  | broken (source : Text)
  deriving DecidableEq, Repr

def isSpaceOrSlash (c : Char) : Bool := Text.isBlank c || c == '/'

def endsName (c : Char) : Bool :=
  c == '\t' || c == '\n' || c == '\r' || c == '\u000C' || c == ' ' || c == '/' || c == '>'
    || c == '\u0000'

/-- Drop white space and slashes, but no slash that a closing sign follows. -/
def skipFiller : Text → Text
  | [] => []
  | '/' :: rest => if rest.head? = some '>' then '/' :: rest else skipFiller rest
  | c :: rest => if Text.isBlank c then skipFiller rest else c :: rest

/-- Drop commas and the white space before them. `start` is the text after the last comma. -/
def skipCommas (start : Text) : Text → Text
  | [] => start
  | c :: rest =>
    if c = ',' then skipCommas rest rest
    else if Text.isBlank c then skipCommas start rest else start

/-- What follows the value of an attribute, from after its name on. -/
def afterValue? (t : Text) : Option Text :=
  let (signs, rest) := Text.spanWhile (· == '=') (t.dropWhile Text.isBlank)
  let isBare (c : Char) : Bool := !(c == '`' || c == '>' || Text.isBlank c)
  if signs.isEmpty then none
  else match rest.dropWhile Text.isBlank with
    | c :: inside =>
      if c = '"' || c = '\'' then
        match Text.cutAt? c inside with
        | some (_, after) => some after
        | none =>
          if rest.head?.any Text.isBlank then some (c :: inside)
          else if 2 ≤ signs.length then some ((c :: inside).dropWhile isBare)
          else none
      else some ((c :: inside).dropWhile isBare)
    | [] => some []

/-- What follows the attributes of a tag. `before?` is the character in front, and an
    attribute starts only after white space, a slash or a quotation mark. -/
def skipAttributes (fuel : Nat) (before? : Option Char) (t : Text) : Text :=
  match fuel with
  | 0 => t
  | fuel + 1 =>
    match t with
    | [] => []
    | c :: rest =>
      if before?.any (fun b => b == '"' || b == '\'' || isSpaceOrSlash b)
          && !(c == '`' || c == '>' || isSpaceOrSlash c) then
        let name := Text.spanWhile (fun c => !(isSpaceOrSlash c || c == '=' || c == '>')) rest
        let after := match afterValue? name.2 with
          | some after => skipCommas after after
          | none => name.2
        let next := skipFiller after
        skipAttributes fuel (t[t.length - next.length - 1]?) next
      else t

/-- The start tag at the start of a text, which begins with its sign and a letter, and what
    follows it. -/
def readStart? (t : Text) : Option (Start × Text) :=
  let upTo (rest : Text) : Text := t.take (t.length - rest.length)
  let (name, afterName) := Text.spanWhile (fun c => !(endsName c || c == '`')) (t.drop 1)
  let (filler, afterFiller) := Text.spanWhile isSpaceOrSlash afterName
  let before? := if filler.isEmpty then name.getLast? else filler.getLast?
  let afterAttributes := skipAttributes (t.length + 1) before? afterFiller
  let hasNone := afterAttributes.length == afterFiller.length
  let rest := afterAttributes.dropWhile Text.isBlank
  let complete (closed : Bool) (rest : Text) : Option (Start × Text) :=
    some (.complete (Text.lowerAscii name) (upTo rest) closed, rest)
  match rest with
  | [] => none
  | '>' :: after => complete (hasNone && filler.getLast? = some '/') after
  | '/' :: '>' :: after => complete true after
  | c :: _ =>
    if c = '/' || c = '=' || isAsciiLetter c then none else some (.broken (upTo rest), rest)

/-! ## End tags -/

/-- An end tag, or what only looks like one. -/
inductive End where
  | complete (name source : Text)
  /-- Signs around nothing that could be a name. -/
  | nameless (source : Text)
  deriving DecidableEq, Repr

def isNamePart (c : Char) : Bool :=
  isAsciiLetter c || isAsciiDigit c || c == '-' || c == '.' || c == ':' || c == '_'

/-- The name between the signs of an end tag that has nothing else but white space. -/
def plainName? (inside : Text) : Option Text :=
  let (name, rest) := Text.spanWhile isNamePart (inside.dropWhile Text.isBlank)
  if name.head?.any isAsciiLetter && Text.blank rest then some name else none

/-- The end tag at the start of a text, which begins with its two signs, and what follows it. -/
def readEnd? (t : Text) : Option (End × Text) := do
  let (inside, rest) ← Text.cutAt? '>' (t.drop 2)
  let source := "</" ++ inside ++ ">"
  match plainName? inside with
  | some name => return (.complete (Text.lowerAscii name) source, rest)
  | none =>
    if inside.head?.any isAsciiLetter then
      let name := inside.takeWhile fun c => !endsName c
      return (.complete (Text.lowerAscii name) source, rest)
    else return (.nameless source, rest)

end Tag
end Recast.Markdown
