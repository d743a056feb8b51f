import Recast.Text.Caseless

/-! # Characters of HTML

Signs that mean something in HTML are written as entities. An ampersand that already
starts an entity stays.
-/

namespace Recast.Markdown

def isAsciiDigit (c : Char) : Bool := '0' ≤ c && c ≤ '9'

def isAsciiLetter (c : Char) : Bool := ('a' ≤ c && c ≤ 'z') || ('A' ≤ c && c ≤ 'Z')

def isHexDigit (c : Char) : Bool :=
  isAsciiDigit c || ('a' ≤ c && c ≤ 'f') || ('A' ≤ c && c ≤ 'F')

/-- Is there at least one character with the property, and then a semicolon? -/
def runsToSemicolon (p : Char → Bool) (t : Text) : Bool :=
  let (run, rest) := Text.spanWhile p t
  !run.isEmpty && rest.head? == some ';'

/-- Does an entity follow the ampersand? Its name may have letters that fold to ASCII. -/
def startsEntity : Text → Bool
  | '#' :: 'x' :: rest | '#' :: 'X' :: rest => runsToSemicolon isHexDigit rest
  | '#' :: rest => runsToSemicolon isAsciiDigit rest
  | rest => runsToSemicolon (fun c => isAsciiDigit c || isAsciiLetter (Text.fold c)) rest

namespace Escape

/-- Code: every ampersand counts. -/
def code (t : Text) : Text :=
  t.flatMap fun
    | '&' => "&amp;".toList
    | '<' => "&lt;".toList
    | '>' => "&gt;".toList
    | c => [c]

/-- Code in a fence, where quotation marks are written as entities too. -/
def fenced (t : Text) : Text :=
  (code t).flatMap fun
    | '"' => "&quot;".toList
    | c => [c]

/-- Text between tags. -/
def content : Text → Text
  | [] => []
  | '&' :: rest =>
    if startsEntity rest then '&' :: content rest else "&amp;".toList ++ content rest
  | '<' :: rest => "&lt;".toList ++ content rest
  | '>' :: rest => "&gt;".toList ++ content rest
  | c :: rest => c :: content rest

/-- The value of an attribute. -/
def quoted (t : Text) : Text :=
  (content t).flatMap fun
    | '"' => "&quot;".toList
    | c => [c]

end Escape
end Recast.Markdown
