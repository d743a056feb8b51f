import Recast.Text.Utf8
import Recast.Yaml.ScalarText

/-! # Tokens

The parts of a document that its structure is made of. Besides what is written
there are tokens for the start and end of collections that only indentation shows.
-/

namespace Recast.Yaml

/-- A line of instructions at the head of a document. -/
inductive Directive where
  | version (major : Nat)
  /-- A handle stands for the beginning of tags. -/
  | handle (handle start : Text)
  | other
  deriving DecidableEq, Repr

/-- A tag as it is written. -/
inductive TagText where
  /-- The tag in full. -/
  | full (name : Text)
  | short (handle rest : Text)
  deriving DecidableEq, Repr

/-- A token of a document. -/
inductive Token where
  | streamEnd
  | directive (d : Directive)
  | documentStart
  | documentEnd
  | blockSequenceStart
  | blockMappingStart
  | blockEnd
  | flowSequenceStart
  | flowSequenceEnd
  | flowMappingStart
  | flowMappingEnd
  /-- A dash in front of an item. -/
  | blockEntry
  /-- A comma between items or entries. -/
  | flowEntry
  | key
  | value
  | alias (name : Text)
  | anchor (name : Text)
  | tag (t : TagText)
  | scalar (t : Text) (isPlain : Bool)
  deriving DecidableEq, Repr

/-- A character of the names of anchors, handles and directives. -/
def isWordChar (ch : Char) : Bool := ch.isAlphanum || ch == '-' || ch == '_'

/-- The name of an anchor, from after its indicator on. -/
def readAnchor (c : Cursor) : Except Error (Text × Cursor) :=
  let (name, c) := c.span isWordChar
  if !name.isEmpty && c.endsOr fun ch => isParting ch || "?:,]\x7d%@`".toList.elem ch then
    .ok (name, c)
  else .error .malformed

/-! ## Tags -/

def isTagChar (ch : Char) : Bool :=
  isWordChar ch || ";/?:@&=+$,.!~*'()[]".toList.elem ch

def readEscapedOctets : Nat → Cursor → Except Error (Bytes × Cursor)
  | 0, _ => .error .malformed
  | fuel + 1, c =>
    match c.rest with
    | '%' :: high :: low :: _ =>
      match Json.hexValue? high, Json.hexValue? low with
      | some h, some l => do
        let (more, c) ← readEscapedOctets fuel (c.advance 3)
        return (UInt8.ofNat (h * 16 + l) :: more, c)
      | _, _ => .error .malformed
    | '%' :: _ => .error .malformed
    | _ => .ok ([], c)

/-- The rest of a tag; escapes stand for the octets of characters. -/
def readTagRest : Nat → Cursor → Except Error (Text × Cursor)
  | 0, _ => .error .malformed
  | fuel + 1, c => do
    let (plain, c) := c.span isTagChar
    if c.isAt '%' then
      let (octets, c) ← readEscapedOctets (c.rest.length + 1) c
      let escaped ← (Utf8.decode octets).mapError fun _ => .malformed
      let (more, c) ← readTagRest fuel c
      return (plain ++ escaped ++ more, c)
    else return (plain, c)

/-- A tag or the beginning of one: it is not empty. -/
def readTagName (c : Cursor) : Except Error (Text × Cursor) := do
  let (name, c) ← readTagRest (c.rest.length + 1) c
  if name.isEmpty then .error .malformed else return (name, c)

/-- A handle: one exclamation mark, or a word between two. -/
def readHandle (c : Cursor) : Except Error (Text × Cursor) :=
  match c.rest with
  | '!' :: ' ' :: _ => .ok (['!'], c.advance 1)
  | '!' :: rest =>
    let word := rest.takeWhile isWordChar
    if (rest.drop word.length).head? = some '!' then
      .ok ('!' :: word ++ ['!'], c.advance (word.length + 2))
    else .error .malformed
  | _ => .error .malformed

/-- Does the rest of the line hold a second exclamation mark before any space? -/
def hasHandle (rest : Text) : Bool :=
  (rest.takeWhile fun ch => ch != ' ' && !endsLine ch).elem '!'

/-- A tag, from its exclamation mark on. -/
def readTag (c : Cursor) : Except Error (TagText × Cursor) := do
  let (tag, c) ← (match c.rest.drop 1 with
    | '<' :: _ => do
      let (name, c) ← readTagName (c.advance 2)
      if c.isAt '>' then return (TagText.full name, c.advance 1) else .error .malformed
    | rest =>
      if isParted rest then .ok (TagText.full ['!'], c.advance 1)
      else if hasHandle rest then do
        let (handle, c) ← readHandle c
        let (name, c) ← readTagName c
        return (TagText.short handle name, c)
      else do
        let (name, c) ← readTagName (c.advance 1)
        return (TagText.short ['!'] name, c) : Except Error (TagText × Cursor))
  if c.endsOr fun ch => ch == ' ' || endsLine ch then return (tag, c) else .error .malformed

/-! ## Directives -/

def readNumber (c : Cursor) : Except Error (Nat × Cursor) :=
  let (digits, c) := c.span Char.isDigit
  if digits.isEmpty then .error .malformed else .ok (Nat.ofDigitChars 10 digits 0, c)

def readVersion (c : Cursor) : Except Error (Directive × Cursor) := do
  let (major, c) ← readNumber (c.skip (· = ' '))
  if c.isAt '.' then
    let (_, c) ← readNumber (c.advance 1)
    if c.endsOr fun ch => ch == ' ' || endsLine ch then return (.version major, c)
    else .error .malformed
  else .error .malformed

/-- A handle and what it stands for, after the name of their directive. -/
def readHandleDirective (c : Cursor) : Except Error (Directive × Cursor) := do
  let (handle, c) ← readHandle (c.skip (· = ' '))
  if c.isAt ' ' then
    let (start, c) ← readTagName (c.skip (· = ' '))
    if c.endsOr fun ch => ch == ' ' || endsLine ch then return (.handle handle start, c)
    else .error .malformed
  else .error .malformed

/-- A directive, from after its percent sign to the end of the line. -/
def readDirective (c : Cursor) : Except Error (Directive × Cursor) := do
  let (name, c) := c.span isWordChar
  if name.isEmpty || !c.endsOr fun ch => ch == ' ' || endsLine ch then .error .malformed
  else
    let (directive, c) ←
      if name = "YAML" then readVersion c
      else if name = "TAG" then readHandleDirective c
      else .ok (.other, c.skip (!endsLine ·))
    match c.finishLine? with
    | some c => return (directive, c)
    | none => .error .malformed

end Recast.Yaml
