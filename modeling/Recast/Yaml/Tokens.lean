import Recast.Yaml.Token

/-! # The tokens of a document

Tokens are read one after the other. Whether a token was a key shows only when a
colon follows on the same line; the tokens for it are then put in front of it.
-/

namespace Recast.Yaml

/-- A token that turns out to be a key if a colon follows. -/
structure Candidate where
  /-- The number of tokens before it. -/
  position : Nat
  /-- Must a colon follow? -/
  isRequired : Bool
  index : Nat
  line : Nat
  column : Nat
  deriving Repr

/-- What is known between two tokens. -/
structure Scan where
  cursor : Cursor
  /-- The number of open flow collections. -/
  flow : Nat := 0
  /-- The column of the innermost block collection, and those of the ones around it. -/
  indent : Int := -1
  outer : List Int := []
  /-- May a key start here? -/
  keyAllowed : Bool := true
  /-- The candidates by the number of flow collections around them. -/
  candidates : List (Nat × Candidate) := []
  /-- The tokens so far, last first, and their number. -/
  tokens : List Token := []
  count : Nat := 0

namespace Scan

def add (token : Token) (cursor : Cursor) (s : Scan) : Scan :=
  { s with cursor, tokens := token :: s.tokens, count := s.count + 1 }

/-- Put a token behind the first `position` tokens. -/
def insert (position : Nat) (token : Token) (s : Scan) : Scan :=
  let later := s.count - position
  { s with
    tokens := s.tokens.take later ++ token :: s.tokens.drop later
    count := s.count + 1 }

def column (s : Scan) : Int := s.cursor.column

/-! ## Candidates -/

/-- Give up a candidate, which must not be required. -/
def giveUp (isLost : Nat × Candidate → Bool) (s : Scan) : Except Error Scan :=
  if s.candidates.any fun found => isLost found && found.2.isRequired then .error .malformed
  else .ok { s with candidates := s.candidates.filter (!isLost ·) }

/-- A key stands on one line and has at most this many characters. -/
def maxKeyLength : Nat := 1024

/-- Give up the candidates that are too far away. -/
def giveUpOld (s : Scan) : Except Error Scan :=
  s.giveUp fun (_, candidate) =>
    candidate.line != s.cursor.line || maxKeyLength < s.cursor.index - candidate.index

/-- Give up the candidate in the innermost collection. -/
def giveUpHere (s : Scan) : Except Error Scan :=
  s.giveUp fun (flow, _) => flow == s.flow

/-- Take note that the next token may be a key. -/
def noteCandidate (s : Scan) : Except Error Scan :=
  if s.keyAllowed then do
    let s ← s.giveUpHere
    let candidate : Candidate :=
      { position := s.count, isRequired := s.flow = 0 && s.indent = s.column,
        index := s.cursor.index, line := s.cursor.line, column := s.cursor.column }
    return { s with candidates := (s.flow, candidate) :: s.candidates }
  else return s

/-! ## Indentation -/

/-- The columns left when collections to the right of a column end, and how many do. -/
def unwound (column indent : Int) : List Int → Int × List Int × Nat
  | [] => if column < indent then (-1, [], 1) else (indent, [], 0)
  | next :: outer =>
    if column < indent then
      let (indent, outer, ended) := unwound column next outer
      (indent, outer, ended + 1)
    else (indent, next :: outer, 0)

/-- End the block collections to the right of a column. Flow collections pay no heed to
    columns. -/
def unwind (column : Int) (s : Scan) : Scan :=
  if s.flow ≠ 0 then s
  else
    let (indent, outer, ended) := unwound column s.indent s.outer
    { s with
      indent
      outer
      tokens := List.replicate ended .blockEnd ++ s.tokens
      count := s.count + ended }

/-- Start a block collection at a column, behind `position` tokens, unless one is open there. -/
def openBlock (position : Nat) (column : Int) (token : Token) (s : Scan) : Scan :=
  if s.flow = 0 && s.indent < column then
    insert position token { s with indent := column, outer := s.indent :: s.outer }
  else s

/-! ## One token -/

/-- Pass over spaces, comments and line breaks. After a break outside of flow collections a
    key may start. `fuel` bounds the number of lines. -/
def skipAsides : Nat → Scan → Scan
  | 0, s => s
  | fuel + 1, s =>
    let cursor := (s.cursor.skip (· = ' ')).skipComment
    match cursor.readBreak? with
    | some (_, cursor) =>
      skipAsides fuel { s with cursor, keyAllowed := s.keyAllowed || s.flow = 0 }
    | none => { s with cursor }

/-- A mark or directive at the start of a line ends all block collections. -/
def beginLine (s : Scan) : Except Error Scan := do
  let s ← (s.unwind (-1)).giveUpHere
  return { s with keyAllowed := false }

/-- The start of a flow collection. -/
def openFlow (token : Token) (s : Scan) : Except Error Scan := do
  let s ← s.noteCandidate
  return { s with flow := s.flow + 1, keyAllowed := true }.add token (s.cursor.advance 1)

/-- The end of a flow collection. -/
def closeFlow (token : Token) (s : Scan) : Except Error Scan := do
  let s ← s.giveUpHere
  if s.flow = 0 then .error .malformed
  else return { s with flow := s.flow - 1, keyAllowed := false }.add token (s.cursor.advance 1)

/-- A comma. -/
def flowEntry (s : Scan) : Except Error Scan := do
  let s ← s.giveUpHere
  return { s with keyAllowed := true }.add .flowEntry (s.cursor.advance 1)

/-- A dash in front of an item. -/
def blockEntry (s : Scan) : Except Error Scan := do
  if s.flow = 0 && !s.keyAllowed then .error .malformed
  else
    let s ← (s.openBlock s.count s.column .blockSequenceStart).giveUpHere
    return { s with keyAllowed := true }.add .blockEntry (s.cursor.advance 1)

def markedKey (s : Scan) : Except Error Scan := do
  if s.flow = 0 && !s.keyAllowed then .error .malformed
  else
    let s ← (s.openBlock s.count s.column .blockMappingStart).giveUpHere
    return { s with keyAllowed := s.flow = 0 }.add .key (s.cursor.advance 1)

/-- A colon. What stood before it on the line is a key; after a marked key, or none, it may
    begin a line. -/
def colon (s : Scan) : Except Error Scan :=
  match s.candidates.lookup s.flow with
  | some candidate => do
    let s := { s with candidates := s.candidates.filter fun (flow, _) => flow != s.flow }
    let s := s.insert candidate.position .key
    let s := s.openBlock candidate.position candidate.column .blockMappingStart
    return { s with keyAllowed := false }.add .value (s.cursor.advance 1)
  | none => do
    if s.flow = 0 && !s.keyAllowed then .error .malformed
    else
      let s := s.openBlock s.count s.column .blockMappingStart
      let s ← { s with keyAllowed := s.flow = 0 }.giveUpHere
      return s.add .value (s.cursor.advance 1)

/-- A part of a node that may be, or begin, a key. -/
def nodePart (read : Cursor → Except Error (Token × Cursor)) (s : Scan) : Except Error Scan := do
  let s ← s.noteCandidate
  let (token, cursor) ← read s.cursor
  return { s with keyAllowed := false }.add token cursor

/-- A block scalar, from its indicator on. -/
def blockScalar (folded : Bool) (s : Scan) : Except Error Scan := do
  let s ← { s with keyAllowed := true }.giveUpHere
  let (t, cursor) ← readBlock folded s.indent (s.cursor.advance 1)
  return s.add (.scalar t false) cursor

/-- A quoted scalar, from its first quote on. -/
def quotedScalar (double : Bool) (s : Scan) : Except Error Scan :=
  s.nodePart fun c => do
    let (t, c) ← readQuoted double (c.rest.length + 1) (c.advance 1)
    return (.scalar t false, c)

/-- A plain scalar. A key may follow when its last gap ended a line. -/
def plainScalar (s : Scan) : Except Error Scan := do
  let s ← s.noteCandidate
  let fuel := s.cursor.rest.length + 1
  let (t, keyAllowed, cursor) := readPlain (s.flow != 0) (s.indent + 1) fuel [] false s.cursor
  return { s with keyAllowed }.add (.scalar t true) cursor

/-- The characters that no plain scalar starts with, or only some do. -/
def isIndicator (ch : Char) : Bool := "-?:,[]\x7b\x7d#&*!|>'\"%@`".toList.elem ch

/-- Can a plain scalar start with `ch`, when `rest` follows? -/
def startsPlain (inFlow : Bool) (ch : Char) (rest : Text) : Bool :=
  (!isParting ch && !isIndicator ch)
    || (!isParted rest && (ch == '-' || (!inFlow && (ch == '?' || ch == ':'))))

/-- The token at the cursor, which is at no blank. -/
def readToken (s : Scan) : Except Error Scan :=
  let c := s.cursor
  let inFlow := s.flow != 0
  match c.rest with
  | [] => do
    let s ← (s.unwind (-1)).giveUpHere
    return s.add .streamEnd s.cursor
  | ch :: rest =>
    if c.column = 0 && ch = '%' then do
      let s ← s.beginLine
      let (directive, cursor) ← readDirective (c.advance 1)
      return s.add (.directive directive) cursor
    else if c.column = 0 && c.isAtMark "---" then do
      return (← s.beginLine).add .documentStart (c.advance 3)
    else if c.column = 0 && c.isAtMark "..." then do
      return (← s.beginLine).add .documentEnd (c.advance 3)
    else if ch = '[' then s.openFlow .flowSequenceStart
    else if ch = '{' then s.openFlow .flowMappingStart
    else if ch = ']' then s.closeFlow .flowSequenceEnd
    else if ch = '}' then s.closeFlow .flowMappingEnd
    else if ch = ',' then s.flowEntry
    else if ch = '-' && isParted rest then s.blockEntry
    else if ch = '?' && (inFlow || isParted rest) then s.markedKey
    else if ch = ':' && (inFlow || isParted rest) then s.colon
    else if ch = '*' then s.nodePart fun c => do
      let (name, c) ← readAnchor (c.advance 1)
      return (.alias name, c)
    else if ch = '&' then s.nodePart fun c => do
      let (name, c) ← readAnchor (c.advance 1)
      return (.anchor name, c)
    else if ch = '!' then s.nodePart fun c => do
      let (tag, c) ← readTag c
      return (.tag tag, c)
    else if ch = '|' && !inFlow then s.blockScalar false
    else if ch = '>' && !inFlow then s.blockScalar true
    else if ch = '\'' then s.quotedScalar false
    else if ch = '"' then s.quotedScalar true
    else if startsPlain inFlow ch rest then s.plainScalar
    else .error .malformed

/-- Go on to the next token and read it. -/
def step (s : Scan) : Except Error Scan := do
  let s ← (skipAsides (s.cursor.rest.length + 1) s).giveUpOld
  (s.unwind s.column).readToken

/-- Read tokens up to the end of the text. `fuel` bounds their number. -/
def run : Nat → Scan → Except Error (List Token)
  | 0, _ => .error .malformed
  | fuel + 1, s => do
    let s ← s.step
    if s.tokens.head? = some .streamEnd then return s.tokens.reverse else run fuel s

end Scan

/-- The tokens of a text, which holds printable characters only. A byte order mark may come
    first. -/
def tokensOf (t : Text) : Except Error (List Token) :=
  if t.all isPrintable then
    let start : Cursor := { rest := t }
    let cursor := if start.isAt '\uFEFF' then start.advance 1 else start
    Scan.run (t.length + 2) { cursor }
  else .error .malformed

end Recast.Yaml
