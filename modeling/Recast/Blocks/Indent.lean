import Recast.Blocks.Brace

/-! # From braces to indentation

Blocks in braces become blocks that are marked by indentation, line by line. Only
a line that is a closing brace and nothing else ends a block.
-/

namespace Recast.Blocks

/-- `function name(parameters) {` -/
def bracedFunction : Rule := fun line => do
  let rest ← afterBlanks? (← Text.after? "function" line)
  let (name, rest) ← name? rest
  let (parameters, rest) ← parameters? rest
  if Text.trimLeft rest = ['{'] then
    some ("def " ++ name ++ '(' :: parameters ++ [')', ':'])
  else none

/-- `keyword (condition) {`, where `rest` is what follows the keyword. -/
def bracedCondition? (rest : Text) : Option Text := do
  let inner ← Text.after? ['('] (Text.trimLeft rest)
  captured? (← beforeOpening? inner)

/-- `if (condition) {` -/
def bracedIf : Rule := fun line => do
  let condition ← bracedCondition? (← Text.after? "if" line)
  some ("if " ++ condition ++ [':'])

/-- What follows a closing brace and white space. -/
def afterClosing? (line : Text) : Option Text :=
  (Text.after? ['}'] line).map Text.trimLeft

/-- `} else if (condition) {` -/
def bracedElseIf : Rule := fun line => do
  let condition ← bracedCondition? (← Text.after? "else if" (← afterClosing? line))
  some ("elif " ++ condition ++ [':'])

/-- `else {` -/
def bareElse : Rule := fun line => do
  let rest ← Text.after? "else" line
  if Text.trimLeft rest = ['{'] then some ("else:".toList) else none

/-- `} else {` -/
def bracedElse : Rule := fun line => do bareElse (← afterClosing? line)

/-- `while (condition) {` -/
def bracedWhile : Rule := fun line => do
  let condition ← bracedCondition? (← Text.after? "while" line)
  some ("while " ++ condition ++ [':'])

/-- The text before the last step of a counting loop: `; name += 1) {`. -/
def beforeStep? (name line : Text) : Option Text := do
  let line := Text.trimRight (← before? ['1'] (← beforeOpening? line))
  let line := Text.trimRight (← before? ['+', '='] line)
  let line := Text.trimRight (← before? name line)
  before? [';'] line

/-- `for (let name = 0; name < bound; name += 1) {` -/
def bracedCounted : Rule := fun line => do
  let rest ← Text.after? "for" line
  let rest ← Text.after? ['('] (Text.trimLeft rest)
  let rest ← afterBlanks? (← Text.after? "let" rest)
  let (name, rest) ← word? rest
  let rest ← Text.after? ['='] (Text.trimLeft rest)
  let rest ← Text.after? ['0', ';'] (Text.trimLeft rest)
  let rest ← Text.after? name (Text.trimLeft rest)
  let rest ← Text.after? ['<'] (Text.trimLeft rest)
  let bound ← capturedAfterBlanks? 0 (beforeStep? name) rest
  some ("for " ++ name ++ " in range(" ++ bound ++ [')', ':'])

/-- `console.log(arguments)` -/
def logCall : Rule := fun line => do
  let rest ← Text.after? "console.log(" line
  let arguments ← before? [')'] rest
  if arguments.any (· = '\n') then none
  else some ("print(" ++ arguments ++ [')'])

/-- The line in the language of indentation: headers first, then the three constants. -/
def toIndentation (line : Text) : Text :=
  let headers : List Rule := [bracedFunction, bracedIf, bracedElseIf, bracedElse, bareElse,
    bracedWhile, bracedCounted, logCall]
  let line := headers.foldl applyRule line
  let line := Text.replaceWord "true" "True" line
  let line := Text.replaceWord "false" "False" line
  Text.replaceWord "null" "None" line

/-- Does the line open a block? White space at its end does not count. -/
def opensColon (line : Text) : Bool := (Text.trimRight line).getLast? == some ':'

def withoutSemicolon (line : Text) : Text := applyRule line (before? [';'])

/-- The lines for some input lines inside `level` blocks. -/
def indentLines (level : Nat) : List Text → List Text
  | [] => []
  | raw :: rest =>
    let trimmed := Text.trim raw
    if trimmed.isEmpty then [] :: indentLines level rest
    else if trimmed = ['}'] then indentLines (level - 1) rest
    else
      let reshaped := toIndentation (withoutSemicolon trimmed)
      let next := if opensColon reshaped then level + 1 else level
      (indent level ++ reshaped) :: indentLines next rest

/-- Write blocks that are in braces with indentation. -/
def indentText (t : Text) : Text := Text.join ['\n'] (indentLines 0 (lines t))

end Recast.Blocks
