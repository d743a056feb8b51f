import Recast.Name
import Recast.Text.Blank
import Recast.Text.Boundary
import Recast.Text.Word

/-! # Line rules

Block headers are recognised on single lines. A rule either reshapes the whole
line or leaves it. A line feed at the end of a line is kept aside first, and the
text captured by a rule never crosses a line.
-/

namespace Recast.Blocks

/-- A rule gives the new form of a line that it recognises. -/
abbrev Rule := Text → Option Text

def splitFinalNewline (line : Text) : Text × Text :=
  if line.getLast? = some '\n' then (line.dropLast, ['\n']) else (line, [])

/-- Apply a rule, keeping a final line feed. -/
def applyRule (line : Text) (rule : Rule) : Text :=
  let (body, final) := splitFinalNewline line
  match rule body with
  | some reshaped => reshaped ++ final
  | none => line

/-- The text before `ending`, when the line ends so. -/
def before? (ending line : Text) : Option Text :=
  if ending.isSuffixOf line then some (line.take (line.length - ending.length)) else none

/-- The captured text: within one line and not empty. -/
def captured? (t : Text) : Option Text :=
  if t.isEmpty || t.any (· = '\n') then none else some t

/-- Drop the white space at the start, of which there has to be some. -/
def afterBlanks? : Text → Option Text
  | [] => none
  | c :: rest => if Text.isBlank c then some (Text.trimLeft rest) else none

/-- The text captured after white space: as much white space as possible is left out, but
    when nothing else is there, the last of it is the text. At least `atLeast` characters
    of white space are left out. `inner?` takes what follows the white space. -/
def capturedAfterBlanks? (atLeast : Nat) (inner? : Text → Option Text) (t : Text) : Option Text :=
  let blanks := (t.takeWhile Text.isBlank).length
  (List.range (blanks + 1)).reverse.findSome? fun n =>
    if n < atLeast then none else (inner? (t.drop n)).bind captured?

/-- The name at the start: a letter or underscore, then word characters. -/
def name? : Text → Option (Text × Text)
  | [] => none
  | c :: rest =>
    if c.isAlpha || c == '_' then
      some (c :: rest.takeWhile Text.isWord, rest.dropWhile Text.isWord)
    else none

def word? (t : Text) : Option (Text × Text) :=
  let word := t.takeWhile Text.isWord
  if word.isEmpty then none else some (word, t.dropWhile Text.isWord)

/-- The parameters: what stands between an opening parenthesis and the next closing one. -/
def parameters? (t : Text) : Option (Text × Text) :=
  match t with
  | '(' :: rest => Text.cutAt? ')' rest
  | _ => none

/-- The text before a closing parenthesis, white space and an opening brace at the end. -/
def beforeOpening? (line : Text) : Option Text := do
  let beforeBrace ← before? ['{'] line
  before? [')'] (Text.trimRight beforeBrace)

end Recast.Blocks
