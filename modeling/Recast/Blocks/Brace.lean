import Recast.Blocks.Rule

/-! # From indentation to braces

Blocks that are marked by indentation become blocks in braces, line by line. A
stack of columns tells which blocks are open.
-/

namespace Recast.Blocks

/-- `def name(parameters):` -/
def functionHeader : Rule := fun line => do
  let rest ← afterBlanks? (← Text.after? "def" line)
  let (name, rest) ← name? rest
  let (parameters, rest) ← parameters? rest
  if rest = [':'] then
    some ("function " ++ name ++ '(' :: parameters ++ [')', ' ', '{'])
  else none

/-- `keyword condition:` with the new form of the condition. -/
def conditionHeader (keyword : Text) (form : Text → Text) : Rule := fun line => do
  let rest ← Text.after? keyword line
  form <$> capturedAfterBlanks? 1 (before? [':']) rest

/-- `else:` -/
def elseHeader : Rule := fun line =>
  if line = "else:" then some ("\x7d else \x7b".toList) else none

/-- `for name in range(bound):` -/
def countedHeader : Rule := fun line => do
  let rest ← afterBlanks? (← Text.after? "for" line)
  let (name, rest) ← word? rest
  let rest ← afterBlanks? rest
  let rest ← afterBlanks? (← Text.after? "in" rest)
  let rest ← Text.after? "range(" rest
  let bound ← captured? (← before? [')', ':'] rest)
  some ("for (let " ++ name ++ " = 0; " ++ name ++ " < " ++ bound ++ "; " ++ name ++ " += 1) "
    ++ ['{'])

/-- `print(arguments)` -/
def printCall : Rule := fun line => do
  let rest ← Text.after? "print(" line
  let arguments ← before? [')'] rest
  if arguments.any (· = '\n') then none
  else some ("console.log(" ++ arguments ++ [')', ';'])

/-- `return value` -/
def returnValue : Rule := fun line => do
  let rest ← Text.after? "return" line
  let value ← capturedAfterBlanks? 1 some rest
  some ("return " ++ value ++ [';'])

/-- A condition in parentheses, ready for a block. -/
def opened (keyword condition : Text) : Text :=
  keyword ++ ' ' :: '(' :: condition ++ [')', ' ', '{']

/-- The line in the language of braces: headers first, then the three constants, then
    `return`. -/
def toBraces (line : Text) : Text :=
  let headers : List Rule := [functionHeader, conditionHeader "if" (opened "if"),
    conditionHeader "elif" (opened ('}' :: " else if")), elseHeader, countedHeader,
    conditionHeader "while" (opened "while"), printCall]
  let line := headers.foldl applyRule line
  let line := Text.replaceWord "True" "true" line
  let line := Text.replaceWord "False" "false" line
  let line := Text.replaceWord "None" "null" line
  applyRule line returnValue

/-- The space at the start of a line inside `depth` blocks. -/
def indent (depth : Nat) : Text := Text.copies (2 * depth) ' '

/-- The columns that a block's lines have to reach, the innermost block first; outside all
    blocks the column is zero. -/
abbrev Columns := List Nat

/-- Does the line open a block? White space at its end does not count. -/
def opensBrace (line : Text) : Bool := (Text.trimRight line).getLast? == some '{'

/-- Does the line need no semicolon? -/
def terminated (line : Text) : Bool :=
  match (splitFinalNewline line).1.getLast? with
  | some c => c == ';' || c == '{' || c == '}'
  | none => false

/-- The width that a block's lines are further in than its header. -/
def blockWidth : Nat := 4

/-- Close the blocks whose column a line at `column` does not reach: the closing lines and the
    blocks still open. -/
def closeTo (column : Nat) : Columns → List Text × Columns
  | [] => ([], [])
  | top :: rest =>
    if column < top then
      let (lines, remaining) := closeTo column rest
      ((indent rest.length ++ ['}']) :: lines, remaining)
    else ([], top :: rest)

/-- The lines for one input line, and the blocks open after it. -/
def braceLine (columns : Columns) (raw : Text) : List Text × Columns :=
  let trimmed := Text.trim raw
  if trimmed.isEmpty then ([[]], columns)
  else
    let column := raw.length - (Text.trimLeft raw).length
    let (closing, columns) := closeTo column columns
    let reshaped := toBraces trimmed
    let line := indent columns.length ++ reshaped
    if opensBrace reshaped then (closing ++ [line], (column + blockWidth) :: columns)
    else if terminated reshaped then (closing ++ [line], columns)
    else (closing ++ [line ++ [';']], columns)

/-- The lines for some input lines, closing at the end what is still open. -/
def braceLines (columns : Columns) : List Text → List Text
  | [] => (closeAll columns)
  | raw :: rest =>
    let (lines, columns) := braceLine columns raw
    lines ++ braceLines columns rest
where
  closeAll : Columns → List Text
    | [] => []
    | _ :: rest => (indent rest.length ++ ['}']) :: closeAll rest

def lines (t : Text) : List Text := Text.splitOn '\n' (Text.replace ['\r', '\n'] ['\n'] t)

/-- Write blocks that are marked by indentation in braces. -/
def braceText (t : Text) : Text := Text.join ['\n'] (braceLines [] (lines t))

end Recast.Blocks
