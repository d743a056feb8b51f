import Recast.Markdown.Source
import Recast.Markdown.Tag

/-! # HTML blocks

HTML between paragraphs is set aside: block elements with all their content, comments,
instructions and declarations. Any other tag stays in the text.
-/

namespace Recast.Markdown.RawBlock

/-- How far a source has been scanned. -/
structure Scan where
  /-- The pieces of the text without HTML blocks, last piece first. -/
  pieces : List Text := []
  asides : Asides
  /-- Is the position inside of an HTML block? -/
  isRaw : Bool := false
  /-- Is the position behind an HTML block, but still on its last line? -/
  isTail : Bool := false
  /-- The elements that are open in the block, innermost first. -/
  openNames : List Text := []
  /-- The HTML that is to be set aside next. -/
  block : Text := []
  /-- The script or style sheet whose content is being scanned. -/
  script : Option Text := none
  /-- Has anything been found unfinished? -/
  isLenient : Bool := false
  /-- What stands before the position on its line. -/
  line : Text := []

/-- Does a blank line follow, after the rest of this line? -/
def blankLineFollows (t : Text) : Bool :=
  match t.dropWhile (· == ' ') with
  | '\n' :: rest => (rest.dropWhile (· == ' ')).head? == some '\n'
  | _ => false

namespace Scan

def put (s : Scan) (t : Text) : Scan := { s with pieces := t :: s.pieces }

def setAside (s : Scan) (html : Text) : Scan :=
  { s.put (Asides.mark s.asides.length) with asides := s.asides.add html }

/-- Move on past some text. -/
def pass (s : Scan) (t : Text) : Scan :=
  let lastLine := (t.reverse.takeWhile (· != '\n')).reverse
  { s with line := if t.contains '\n' then lastLine else s.line ++ lastLine }

/-- May a block start here? At most three blanks stand before it. -/
def atLineStart (s : Scan) : Bool := s.line.length ≤ 3 && Text.blank s.line

def mayStart (s : Scan) : Bool := s.isTail || s.atLineStart

def plain (s : Scan) (t : Text) : Scan :=
  let s := { s with isTail := s.isTail && !t.contains '\n' }
  (if s.isRaw then { s with block := s.block ++ t } else s.put t).pass t

/-- HTML that contains nothing, written as `source`; `text` is what the page gets of it. -/
def empty (s : Scan) (source text : Text) (isBlock : Bool) (rest : Text) : Scan :=
  if s.isRaw || s.isTail then { s with block := s.block ++ text }.pass source
  else if s.atLineStart && isBlock then
    let isAlone := blankLineFollows rest
    let last := s.pieces.head?.getD []
    let s := { s with isTail := s.isTail || !isAlone }
    let s := if last.head?.isSome && last.getLast? = some '\n' && !Text.endsWith "\n\n" last
      then s.put "\n" else s
    ((s.setAside (if isAlone then text ++ ['\n'] else text)).put "\n\n").pass source
  else (s.put text).pass source

/-- The start of an element. Outside of a block, scripts are nothing special. -/
def startTag (s : Scan) (name source : Text) : Scan :=
  let s := if isBlockName name && s.mayStart then { s.put "\n" with isRaw := true } else s
  let isScript := name = ("script" : Text) || name = ("style" : Text)
  (if s.isRaw then
    { s with
      openNames := name :: s.openNames
      block := s.block ++ source
      script := if isScript then some name else none }
  else s.put source).pass source

/-- The open elements after an end tag: its element and all inside of it are closed. -/
def closeName (name : Text) (openNames : List Text) : List Text :=
  if openNames.contains name then (openNames.dropWhile (· != name)).drop 1 else openNames

/-- The end of an element, and of the block when nothing is open any more. -/
def endTag (s : Scan) (name source rest : Text) : Scan :=
  if s.isRaw then
    let s := { s with
      block := s.block ++ source
      openNames := closeName name s.openNames
      script := none }
    if s.openNames.isEmpty then
      let isAlone := blankLineFollows rest
      let html := if isAlone then s.block ++ ['\n'] else s.block
      let s := (s.setAside html).put "\n\n"
      { s with isRaw := false, isTail := s.isTail || !isAlone, block := [] }.pass source
    else s.pass source
  else (s.put source).pass source

/-- A sign that opens something unfinished is text, up to the next sign. -/
def unfinished (s : Scan) (t : Text) : Scan × Text :=
  let inside := t.drop 1
  let text := match Text.cutAt? '>' inside with
    | some (before, _) => before ++ ['>']
    | none => match Text.cutAt? '<' inside with
      | some (before, _) => before
      | none => []
  ({ s with isLenient := true }.plain (t.take 1 ++ text), inside.drop text.length)

end Scan

/-! ## Signs -/

/-- The text before the first end tag of a script, the tag, and the text after it. -/
def cutScript? (name : Text) : Text → Option (Text × Text × Text)
  | [] => none
  | c :: rest =>
    let tag? := do
      let inside ← Text.after? "</" (c :: rest)
      let (_, after) ← Text.cutAt? '>' inside
      let named ← Text.afterCaseless? name (inside.dropWhile Text.isBlank)
      if (named.dropWhile Text.isBlank).head? = some '>' then some after else none
    match tag? with
    | some after => some ([], (c :: rest).take (rest.length + 1 - after.length), after)
    | none => (cutScript? name rest).map fun (before, others) => (c :: before, others)

/-- Go on after text that is no tag. -/
def skip (s : Scan) (n : Nat) (t : Text) : Scan × Text := (s.plain (t.take n), t.drop n)

/-- Go on after empty HTML of the length that is left before `rest`. -/
def skipEmpty (s : Scan) (isBlock : Bool) (t rest : Text) : Scan × Text :=
  let source := t.take (t.length - rest.length)
  (s.empty source source isBlock rest, rest)

def stepStart (s : Scan) (t : Text) : Scan × Text :=
  match Tag.readStart? t with
  | none => skip s 1 t
  | some (.broken source, rest) => (s.plain source, rest)
  | some (.complete name source closed, rest) =>
    if closed || name = ("hr" : Text) then (s.empty source source (isBlockName name) rest, rest)
    else (s.startTag name source, rest)

def stepEnd (s : Scan) (t : Text) : Scan × Text :=
  if (Text.after? "</>" t).isSome then skip s 3 t
  else match Tag.readEnd? t with
    | none => s.unfinished t
    | some (.nameless _, rest) => skipEmpty s false t rest
    | some (.complete name source, rest) => (s.endTag name source rest, rest)

/-- Where a comment ends: before `-->` or `--!>`. -/
def cutComment? : Text → Option (Text × Text)
  | [] => none
  | c :: rest =>
    match c :: rest with
    | '-' :: '-' :: '>' :: after => some ("-->", after)
    | '-' :: '-' :: '!' :: '>' :: after => some ("--!>", after)
    | _ => cutComment? rest

def stepComment (s : Scan) (t : Text) : Scan × Text :=
  match cutComment? (t.drop 4) with
  | some (ending, rest) =>
    if ending = ("-->" : Text) then skipEmpty s true t rest else skip s 1 t
  | none =>
    let inside := t.drop 4
    if (Text.after? ">" inside).isSome || (Text.after? "->" inside).isSome then skip s 1 t
    else s.unfinished t

def stepInstruction (s : Scan) (t : Text) : Scan × Text :=
  if s.mayStart then
    match Text.cutAtText? "?>" (t.drop 2) with
    | some (_, rest) => skipEmpty s true t rest
    | none => s.unfinished t
  else skip s 2 t

/-- Where a section ends: brackets that only white space separates, then the closing sign. -/
def cutSection? : Text → Option (Text × Text)
  | [] => none
  | c :: rest =>
    let after? := do
      let second ← if c = ']' then Text.after? "]" (rest.dropWhile Text.isBlank) else none
      Text.after? ">" (second.dropWhile Text.isBlank)
    match after? with
    | some after => some ([], after)
    | none => (cutSection? rest).map fun (before, after) => (c :: before, after)

def stepDeclaration (s : Scan) (t : Text) : Scan × Text :=
  if !s.mayStart then skip s 2 t
  else if (Text.after? "<![CDATA[" t).isSome then
    match cutSection? (t.drop 3) with
    | some (inside, rest) =>
      let source := t.take (t.length - rest.length)
      (s.empty source ("<![" ++ inside ++ "]]>") true rest, rest)
    | none => s.unfinished t
  else
    let isDoctype := (Text.after? "<!doctype" (Text.lowerAscii t)).isSome
    match Text.cutAt? '>' (t.drop 2) with
    | some (_, rest) => skipEmpty s isDoctype t rest
    | none => if (Text.after? "<![" t).isSome then skip s 1 t else s.unfinished t

/-- The number of a character reference, from after its two signs on, and what follows. -/
def readReference? (t : Text) : Option (Text × Text) :=
  let (sign, (digits, rest)) := match t with
    | 'x' :: inside => ("x".toList, Text.spanWhile isHexDigit inside)
    | 'X' :: inside => ("X".toList, Text.spanWhile isHexDigit inside)
    | _ => ([], Text.spanWhile isAsciiDigit t)
  if digits.isEmpty || rest.head?.all isHexDigit then none else some (sign ++ digits, rest)

def stepReference (s : Scan) (t : Text) : Scan × Text :=
  match readReference? (t.drop 2) with
  | some (number, after) =>
    let rest := if after.head? = some ';' then after.drop 1 else after
    (s.empty (t.take (t.length - rest.length)) ("&#" ++ number ++ ";") false rest, rest)
  | none =>
    if t.contains ';' && !s.isLenient then skip { s with isLenient := true } 2 t
    else (s.plain t, [])

def stepEntity (s : Scan) (t : Text) : Scan × Text :=
  let isPart (c : Char) : Bool := isAsciiLetter c || isAsciiDigit c || c == '-' || c == '.'
  let (name, after) := Text.spanWhile isPart (t.drop 1)
  if name.head?.any isAsciiLetter && after.head? = some ';' then
    skipEmpty s false t (after.drop 1)
  else skip s 1 t

def step (s : Scan) (t : Text) : Scan × Text :=
  match s.script with
  | some name =>
    match cutScript? name t with
    | some (before, tag, rest) => ((s.plain before).endTag name tag rest, rest)
    | none => (s.plain t, [])
  | none =>
    match t with
    | '<' :: '/' :: _ => stepEnd s t
    | '<' :: '!' :: '-' :: '-' :: _ => stepComment s t
    | '<' :: '?' :: _ => stepInstruction s t
    | '<' :: '!' :: _ => stepDeclaration s t
    | '<' :: c :: _ => if isAsciiLetter c then stepStart s t else skip s 1 t
    | '&' :: '#' :: _ => stepReference s t
    | '&' :: _ => stepEntity s t
    | _ => skip s (t.takeWhile fun c => c != '<' && c != '&').length t

def scan (fuel : Nat) (s : Scan) (t : Text) : Scan :=
  match fuel with
  | 0 => s
  | fuel + 1 =>
    if t.isEmpty then s
    else
      let (s, rest) := step s t
      scan fuel s rest

/-- Set the HTML blocks of a source aside. A block that is still open reaches to the end. -/
def setAside (asides : Asides) (t : Text) : Asides × Text :=
  let s := scan (t.length + 1) { asides } t
  let s := if s.block.isEmpty then s else s.setAside s.block
  (s.asides, s.pieces.reverse.flatten)

end Recast.Markdown.RawBlock
