import Recast.Markdown.BlockReader
import Recast.Markdown.EntityName
import Recast.Markdown.Printer

/-! # Links and images

A text in brackets is linked by an address in parentheses behind it, or by a reference to
a definition. Addresses between angle signs are links without a text of their own.
-/

namespace Recast.Markdown.Link

/-! ## Values -/

/-- The text of glyphs without the elements around it. Code has its entities already. -/
def flatten (isCode : Bool) : List Glyph → Text
  | [] => []
  | .char c :: rest | .escaped c :: rest =>
    (if isCode then Escape.code [c] else [c]) ++ flatten isCode rest
  | .html t :: rest => t ++ flatten isCode rest
  | .element name _ _ content :: rest =>
    flatten (name == "code".toList) content ++ flatten isCode rest

def plainText (gs : List Glyph) : Text := flatten false gs

/-- Drop one kind of quotation marks that stand at both ends. -/
def dequote (t : Text) : Text :=
  if (t.head? == some '"' && t.getLast? == some '"')
      || (t.head? == some '\'' && t.getLast? == some '\'') then (t.drop 1).dropLast
  else t

/-- A title as it is written in an attribute. -/
def cleanTitle (title : List Glyph) : Text :=
  (dequote (plainText (Glyph.trim title))).map fun c => if Text.isBlank c then ' ' else c

def cleanAddress (address : List Glyph) : Text := Text.trim (plainText address)

/-! ## Addresses in parentheses -/

/-- The text in brackets, from after the opening one on, and what follows it. Brackets inside
    match; `depth` counts those that are open inside. -/
def readBracketed? (depth : Nat) : List Glyph → Option (List Glyph × List Glyph)
  | [] => none
  | g :: rest =>
    if g.is ']' then
      match depth with
      | 0 => some ([], rest)
      | depth + 1 => (readBracketed? depth rest).map fun (text, rest) => (g :: text, rest)
    else
      (readBracketed? (if g.is '[' then depth + 1 else depth) rest).map fun (text, rest) =>
        (g :: text, rest)

/-- Where a link leads. -/
structure Destination where
  address : List Glyph
  title : Option (List Glyph)

def dropSpace (gs : List Glyph) : List Glyph := gs.dropWhile Glyph.isSpace

/-- A title in quotation marks, and what follows it. -/
def readTitle? (gs : List Glyph) : Option (List Glyph × List Glyph) :=
  match gs with
  | .char '"' :: rest => Glyph.cut? (·.is '"') rest
  | .char '\'' :: rest => Glyph.cut? (·.is '\'') rest
  | _ => none

/-- An address between angle signs with its title, up to the closing parenthesis. -/
def readAngled? (gs : List Glyph) : Option (Destination × List Glyph) := do
  let inside ← Glyph.after? "<" gs
  let (address, rest) ← Glyph.cut? (fun g => g.is '<' || g.is '>') inside
  if (inside.drop address.length).head?.any (·.is '<') then none
  else
    let rest := dropSpace rest
    match readTitle? rest with
    | some (title, after) =>
      return ({ address, title := some title }, ← Glyph.after? ")" (dropSpace after))
    | none => return ({ address, title := none }, ← Glyph.after? ")" rest)

/-- A kind of quotation mark in the parentheses: where its first one ends, and its last one. -/
structure Quote where
  mark : Char
  first : Nat
  last : Option Nat := none

/-- How far the parentheses have been read. Positions count from their content on. -/
structure Progress where
  /-- The parentheses that are open. -/
  depth : Nat := 1
  /-- The parentheses that were open when the first quotation mark came. -/
  spare : Nat := 1
  /-- Where the link ends if no title does. -/
  spareEnd : Option Nat := none
  quote : Option Quote := none
  /-- Quotation marks of the other kind. -/
  other : Option Quote := none
  /-- The last glyph that is no space. -/
  before : Option Glyph := none

namespace Progress

/-- Has the title just ended that a mark started? -/
def isJustClosed (p : Progress) (quote : Option Quote) : Bool :=
  quote.any fun q => q.last.isSome && p.before.any (·.is q.mark)

/-- Does a closing parenthesis here end the link, whatever else is open? -/
def isTitled (p : Progress) : Bool := p.isJustClosed p.quote || p.isJustClosed p.other

/-- Count a quotation mark at position `i`. -/
def countMark (p : Progress) (c : Char) (i : Nat) : Progress :=
  match p.quote with
  | none => { p with spare := p.depth, depth := 1, quote := some { mark := c, first := i + 1 } }
  | some quote =>
    if c = quote.mark then { p with quote := some { quote with last := some (i + 1) } }
    else match p.other with
      | none => { p with other := some { mark := c, first := i + 1 } }
      | some other => { p with other := some { other with last := some (i + 1) } }

/-- Count the glyph at position `i`. -/
def count (p : Progress) (g : Glyph) (i : Nat) : Progress :=
  if g.is '(' then
    if p.quote.isNone then { p with depth := p.depth + 1 } else { p with spare := p.spare - 1 }
  else if g.is ')' then
    if p.isTitled then { p with depth := 0 }
    else if p.quote.isNone then { p with depth := p.depth - 1 }
    else if p.spare = 1 then { p with spare := 0, spareEnd := some (i + 1) }
    else { p with spare := p.spare - 1 }
  else if g.is '"' then p.countMark '"' i
  else if g.is '\'' then p.countMark '\'' i
  else p

/-- The destination in `content`, whose end the glyph at position `i` is. -/
def destination (p : Progress) (content : List Glyph) (i : Nat) : Destination :=
  let titled (quote : Quote) : Destination :=
    let ending := quote.last.getD 0 - 1
    { address := content.take (quote.first - 1)
      title := some ((content.take ending).drop quote.first) }
  match p.quote, p.other with
  | some quote, other? =>
    if p.isJustClosed (some quote) then titled quote
    else match other? with
      | some other =>
        if p.isJustClosed (some other) then titled other
        else { address := content.take i, title := none }
      | none => { address := content.take i, title := none }
  | none, _ => { address := content.take i, title := none }

/-- Read on from position `i` to the end of the link. A title that never ends gives way to
    the parenthesis that would have ended the link without it; if the title has even more
    opening ones, the link ends before the last glyph, which its address lacks as well as the
    one before. -/
def read? (content : List Glyph) (p : Progress) (i : Nat) :
    List Glyph → Option (Destination × List Glyph)
  | [] =>
    if p.spare ≠ 0 then none
    else match p.spareEnd with
      | some n => some ({ address := content.take (n - 1), title := none }, content.drop n)
      | none =>
        let n := content.length
        some ({ address := content.take (n - 2), title := none }, content.drop (n - 1))
  | g :: rest =>
    let next := p.count g i
    if next.depth = 0 then some (p.destination content i, rest)
    else read? content { next with before := if g.is ' ' then p.before else some g } (i + 1) rest

end Progress

/-- The destination in parentheses, and what follows it. -/
def readDestination? (gs : List Glyph) : Option (Destination × List Glyph) := do
  let content := dropSpace (← Glyph.after? "(" gs)
  match readAngled? content with
  | some found => return found
  | none => Progress.read? content {} 0 content

/-! ## References -/

/-- The glyphs of a name as they are written in the source. Only code may be among them. -/
def nameText? : List Glyph → Option Text
  | [] => some []
  | .char c :: rest => (nameText? rest).map (c :: ·)
  | .element "code" _ _ content :: rest =>
    (nameText? rest).map fun name => "`" ++ plainText content ++ "`" ++ name
  | _ :: _ => none

/-- Write one space for each run of white space. -/
def collapse : Bool → Text → Text
  | _, [] => []
  | inRun, c :: rest =>
    if Text.isBlank c then (if inRun then [] else [' ']) ++ collapse true rest
    else c :: collapse false rest

def findTarget? (definitions : Definitions) (name : List Glyph) : Option Line.Target := do
  definitions.find? (collapse false (Line.referenceName (← nameText? name)))

/-- The name in brackets behind a text, and what follows it. An empty one stands for the
    text. -/
def readName? (text rest : List Glyph) : Option (List Glyph × List Glyph) := do
  let rest := if rest.head?.any Glyph.isSpace then rest.drop 1 else rest
  let (name, rest) ← Glyph.cut? (·.is ']') (← Glyph.after? "[" rest)
  return (if name.isEmpty then text else name, rest)

/-! ## Elements -/

/-- Is it a link, or an image? -/
inductive Target where
  | link
  | image
  deriving DecidableEq, Repr

def titleAttribute : Option Text → List (Text × Text)
  | some title => [("title", title)]
  | none => []

def element (target : Target) (text : List Glyph) (address : Text) (title : Option Text) :
    Glyph :=
  match target with
  | .link => .element "a" (("href", address) :: titleAttribute title) false text
  | .image =>
    .element "img" (("alt", plainText text) :: ("src", address) :: titleAttribute title) false []

def defined (target : Target) (text : List Glyph) (found : Line.Target) : Glyph :=
  element target text found.address (found.title.bind fun t => if t.isEmpty then none else some t)

/-! ## Addresses between angle signs -/

/-- What is between angle signs at the start of a text, and what follows. -/
def readAngle? (gs : List Glyph) : Option (List Glyph × List Glyph) := do
  let inside ← Glyph.after? "<" gs
  let (text, _) ← Glyph.cut? (fun g => g.is '<' || g.is '>') inside
  let rest ← Glyph.after? ">" (inside.drop text.length)
  return (text, rest)

/-- Does the text start with the scheme of a page or a file server? -/
def hasScheme (gs : List Glyph) : Bool :=
  let start := (gs.takeWhile (!·.isElement)).flatMap fun
    | .char c => [c.toLower]
    | _ => [' ']
  ["http://", "https://", "ftp://", "ftps://"].any fun scheme => scheme.toList.isPrefixOf start

/-- A link whose text is its address. -/
def readAddress? (gs : List Glyph) : Option (Glyph × List Glyph) := do
  let (text, rest) ← readAngle? gs
  if hasScheme text then
    return (.element "a" [("href", plainText text)] true text, rest)
  else none

def numericEntity (c : Char) : Text := "&#" ++ Text.ofNat c.toNat ++ ";"

/-- A character as an entity, by name if it has one. -/
def entity (c : Char) : Text :=
  match entityName? c with
  | some name => "&" ++ name ++ ";"
  | none => numericEntity c

/-- Is it the address of a mailbox: a part without exclamation marks, an at sign, and a part
    without one? -/
def isMail (gs : List Glyph) : Bool :=
  let domain := gs.reverse.takeWhile (!·.is '@')
  let user := gs.take (gs.length - domain.length - 1)
  domain.length < gs.length && !domain.isEmpty && !user.isEmpty
    && domain.all (!·.is ' ') && user.all fun g => !(g.is ' ' || g.is '!')

/-- The text of a mail address. An escaped character is still a mark there. -/
def mailText (gs : List Glyph) : Text :=
  gs.flatMap fun
    | .escaped c => Asides.mark c.toNat
    | g => plainText [g]

/-- A link to a mailbox, in entities throughout. -/
def readMail? (gs : List Glyph) : Option (Glyph × List Glyph) := do
  let (text, rest) ← readAngle? gs
  if isMail text then
    let mail := mailText text
    let mail := (Text.after? "mailto:" mail).getD mail
    let address := ("mailto:" ++ mail).flatMap numericEntity
    return (.element "a" [("href", address)] true (Glyph.ofText (mail.flatMap entity)), rest)
  else none

end Recast.Markdown.Link
