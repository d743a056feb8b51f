import Recast.Catalogue.Format
import Recast.Json.Reader
import Recast.Text.Caseless
import Recast.Text.Blank

/-! # Guessing the format of a text

Each check recognises one format by its outward signs. The checks overlap, so
they are tried in a fixed order and the first that answers decides.
-/

namespace Recast.Detect

/-- How sure a guess is. -/
inductive Confidence where
  | high
  | medium
  deriving DecidableEq, Repr

def Confidence.name : Confidence → Text
  | .high => "high"
  | .medium => "medium"

/-- A guess. -/
structure Guess where
  format : Format
  confidence : Confidence
  deriving DecidableEq, Repr

/-- Does `p` hold of the text from some place on? -/
def atSomePlace (p : Text → Bool) : Text → Bool
  | [] => p []
  | c :: rest => p (c :: rest) || atSomePlace p rest

/-- Does `p` hold of the text from the start of some line on? Lines end at line feeds. -/
def atSomeLine (p : Text → Bool) (t : Text) : Bool :=
  p t || go t
where
  go : Text → Bool
    | [] => false
    | c :: rest => (c == '\n' && p rest) || go rest

/-- Does the text begin with `start`, which is in lower case, in any case? -/
def beginsCaseless (start : String) (t : Text) : Bool :=
  (Text.afterCaseless? start.toList t).isSome

/-- A character of the URL-safe Base64 alphabet. -/
def isTokenChar (c : Char) : Bool := c.isAlphanum || c == '_' || c == '-'

/-- Three parts between dots, none of them empty. -/
def isToken (t : Text) : Bool :=
  let parts := Text.splitOn '.' t
  parts.length == 3 && parts.all fun part => !part.isEmpty && part.all isTokenChar

/-- Does a value count as given? Empty containers do. -/
def present : Json → Bool
  | .array _ | .object _ => true
  | v => v.truth

/-- Does an object describe other values, by a type together with properties or items? -/
def describesValues (v : Json) : Bool :=
  let has (key : Text) : Bool := (v.get? key).any present
  has "type" && (has "properties" || has "items")

/-- JSON that reads is certain, what merely has brackets is not. -/
def json? (t : Text) : Option Guess :=
  if t.head? = some '{' || t.head? = some '[' then
    match Json.parse t with
    | .ok v =>
      if describesValues v then some ⟨.jsonSchema, .medium⟩ else some ⟨.json, .high⟩
    | .error _ =>
      if t.any fun c => c == '}' || c == ']' then some ⟨.json, .medium⟩ else none
  else none

/-- An `svg` element at the very start. -/
def isSvg (t : Text) : Bool :=
  match Text.afterCaseless? "<svg" t with
  | some (c :: _) => Text.isBlank c || c == '>'
  | _ => false

def pageElements : List String :=
  ["div", "span", "p", "h1", "h2", "h3", "h4", "h5", "h6", "section", "article", "main", "header",
    "footer", "nav", "form", "input", "button", "img", "a"]

def beginsPageTag : Text → Bool
  | '<' :: rest => pageElements.any fun name =>
    (Text.afterCaseless? name.toList rest).any Text.endsWord
  | _ => false

/-- A document type of pages at the start. -/
def isPageDoctype (t : Text) : Bool :=
  match Text.afterCaseless? "<!doctype" t with
  | some (c :: rest) => Text.isBlank c && beginsCaseless "html" (Text.trimLeft rest)
  | _ => false

def isHtml (t : Text) : Bool :=
  isPageDoctype t || (t.head? == some '<' && atSomePlace beginsPageTag t)

/-- Does the text begin with `start` and a letter? -/
def beginsWithLetterAfter (start : Text) (t : Text) : Bool :=
  (Text.after? start t).any fun rest => rest.head?.any Char.isAlpha

def isXml (t : Text) : Bool :=
  beginsCaseless "<?xml" t
    || (beginsWithLetterAfter "<" t && atSomePlace (beginsWithLetterAfter "</") t)

def someLineBegins (words : List String) (t : Text) : Bool :=
  atSomeLine (fun line => words.any fun word => word.toList.isPrefixOf line) t

def isPython (t : Text) : Bool :=
  someLineBegins ["def ", "import ", "from ", "class ", "print(", "if __name__"] t

def isJavaScript (t : Text) : Bool :=
  someLineBegins ["function ", "const ", "let ", "var ", "export ", "import "] t
    || Text.hasPart "=>" t || Text.hasPart "console." t

/-- One to six hashes and white space. -/
def beginsHeading (line : Text) : Bool :=
  let hashes := (line.takeWhile (· = '#')).length
  1 ≤ hashes && hashes ≤ 6 && (line.drop hashes).head?.any Text.isBlank

/-- Two stars, some text without stars, and two stars. -/
def beginsStrong (t : Text) : Bool :=
  match Text.after? "**" t with
  | none => false
  | some rest =>
    rest.head?.any (· ≠ '*') && "**".toList.isPrefixOf (rest.dropWhile (· ≠ '*'))

/-- Something in brackets directly followed by something in parentheses. -/
def beginsLink (t : Text) : Bool :=
  match t with
  | '[' :: rest =>
    match Text.cutAt? ']' rest with
    | some (_ :: _, '(' :: target) =>
      (Text.cutAt? ')' target).any fun (inside, _) => !inside.isEmpty
    | _ => false
  | _ => false

def isMarkdown (t : Text) : Bool :=
  atSomeLine beginsHeading t || atSomePlace beginsStrong t || atSomePlace beginsLink t

/-- A name, a colon and white space. -/
def beginsEntry : Text → Bool
  | [] => false
  | c :: rest =>
    (c.isAlpha || c == '_') &&
      match rest.dropWhile Text.isWord with
      | ':' :: d :: _ => Text.isBlank d
      | _ => false

def isYaml (t : Text) : Bool := atSomeLine beginsEntry t && t.head? != some '{'

def isBase64Char (c : Char) : Bool := c.isAlphanum || c == '+' || c == '/'

/-- At least twenty letters and at most two marks of padding, white space left out. -/
def isBase64 (t : Text) : Bool :=
  let letters := Text.squeeze t
  20 ≤ (letters.takeWhile isBase64Char).length
    && ["", "=", "=="].any fun padding => letters.dropWhile isBase64Char = padding.toList

/-- Answer `format` where `p` holds. -/
def when (p : Text → Bool) (format : Format) (confidence : Confidence) (t : Text) : Option Guess :=
  if p t then some ⟨format, confidence⟩ else none

def checks : List (Text → Option Guess) :=
  [when isToken .jwt .high, json?, when isSvg .svg .high, when isHtml .html .high,
    when isXml .xml .medium, when isPython .python .medium, when isJavaScript .javaScript .medium,
    when isMarkdown .markdown .medium, when isYaml .yaml .medium, when isBase64 .base64 .medium]

/-- The shortest text that is guessed at. -/
def minLength : Nat := 3

def guess? (t : Text) : Option Guess :=
  let trimmed := Text.trim t
  if trimmed.length < minLength then none else checks.findSome? fun check => check trimmed

end Recast.Detect
