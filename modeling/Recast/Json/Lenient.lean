import Recast.Json.Reader
import Recast.Text.Blank

/-! # Reading JSON that is nearly right

Two common slips are mended: commas before a closing bracket and missing outer
braces. The four candidates are tried in order and the first that reads wins.
-/

namespace Recast.Json

/-- Does the text begin with a closing bracket or brace? -/
def closes : Text → Bool
  | c :: _ => c == '}' || c == ']'
  | [] => false

/-- Drop each comma that only white space parts from a closing bracket or brace, and that
    white space with it. Strings are not looked for. -/
def dropTrailingCommas : Text → Text
  | [] => []
  | c :: rest =>
    let done := dropTrailingCommas rest
    if c = ',' && closes (rest.dropWhile Text.isBlank) then done.dropWhile Text.isBlank
    else c :: done

def brace (t : Text) : Text := '{' :: t ++ ['}']

/-- The texts to try, in order: as it is, without trailing commas, inside braces, both. -/
def candidates (t : Text) : List Text :=
  let trimmed := Text.trim t
  [trimmed, dropTrailingCommas trimmed, brace trimmed, dropTrailingCommas (brace trimmed)]

/-- The first candidate that reads as a value. Nesting too deeply ends the search; when no
    candidate reads, the error is the one of the first. -/
def firstReadable (first? : Option Error) : List Text → Except Error Json
  | [] => .error (first?.getD (.constant []))
  | candidate :: rest =>
    match parse candidate with
    | .ok value => .ok value
    | .error (.tooDeep container) => .error (.tooDeep container)
    | .error e => firstReadable (first?.or (some e)) rest

/-- Read a text that is JSON but for the slips above. -/
def parseLenient (t : Text) : Except Error Json :=
  firstReadable none (candidates t)

end Recast.Json
