import Recast.Markdown.Line
import Recast.Markdown.Table

/-! # Reading blocks

A source falls into pieces at its blank lines. Each piece is taken by the first rule that
recognises it; what the rule leaves over is put back in front of the other pieces.
-/

namespace Recast.Markdown

open Line

/-- Where a piece is read, as far as rules depend on it. -/
inductive Mood where
  | plain
  /-- In an item whose text needs no paragraph. -/
  | list
  /-- In an item that stands apart from the one before it. -/
  | looseList
  /-- In a piece whose indentation is already taken off. -/
  | indented
  | quote
  deriving DecidableEq, Repr

/-- The definitions found, in the order of the source. -/
abbrev Definitions := List (Text × Target)

def Definitions.find? (definitions : Definitions) (name : Text) : Option Target :=
  (definitions.filter (·.1 == name)).getLast?.map (·.2)

/-- A block with what was read into it, and the definitions among that. -/
abbrev Reading := Block × Definitions

abbrev BlockReader := Mood → Block → List Text → Reading

/-- What a rule makes of a piece: the block with the result, the definitions, and the pieces
    to go on with. -/
abbrev Step := Block × Definitions × List Text

/-- Cut a text at its blank lines. -/
def pieces : Text → List Text
  | [] => [[]]
  | '\n' :: '\n' :: rest => [] :: pieces rest
  | c :: rest =>
    match pieces rest with
    | [] => [[c]]
    | piece :: others => (c :: piece) :: others

namespace Block

def readLast (read : Block → Reading) (b : Block) : Reading :=
  match b.inner.getLast? with
  | none => (b, [])
  | some (child, tail) =>
    let (child, definitions) := read child
    (b.withInner (b.inner.dropLast ++ [(child, tail)]), definitions)

/-- Read into the block that is reached by going to the last inner block a number of times. -/
def readAt (depth : Nat) (read : Block → Reading) : Block → Reading :=
  match depth with
  | 0 => read
  | depth + 1 => readLast (readAt depth read)

def readNew (kind : BlockKind) (read : Block → Reading) (b : Block) : Reading :=
  let (child, definitions) := read (leaf kind [])
  (b.add child, definitions)

def endsWith (p : BlockKind → Bool) (b : Block) : Bool := b.last?.any fun child => p child.kind

end Block

/-! ## Rules -/

namespace Rule

/-- Put a text in front of the pieces, unless it is empty. -/
def before (t : Text) (rest : List Text) : List Text := if t.isEmpty then rest else t :: rest

/-- Blank lines count only in code. -/
def emptyLine (parent : Block) (block : Text) (rest : List Text) : Step :=
  let filler : Text := if block.isEmpty then "\n\n" else "\n"
  let parent :=
    if parent.endsWith (· == .listing) then
      parent.mapLast fun (code, tail) => (code.withText (code.text ++ filler), tail)
    else parent
  (parent, [], before (block.drop 1) rest)

/-- How deep a piece indented by some levels belongs: the levels of lists on the way, and the
    number of steps to a last inner block. -/
def findDepth (fuel levels level : Nat) (b : Block) : Nat × Nat :=
  match fuel with
  | 0 => (level, 0)
  | fuel + 1 =>
    match b.last? with
    | none => (level, 0)
    | some child =>
      if levels ≤ level then (level, 0)
      else if child.kind.isList then
        let (level, depth) := findDepth fuel levels (level + 1) child
        (level, depth + 1)
      else if child.kind == .item then
        let (level, depth) := findDepth fuel levels level child
        (level, depth + 1)
      else (level, 0)

/-- Is an indented piece part of an item? -/
def isInItem (mood : Mood) (parent : Block) (block : Text) : Bool :=
  isIndented block && mood != .indented
    && (parent.kind == .item || parent.endsWith BlockKind.isList)

/-- A piece that is part of an item. -/
def inItem (read : BlockReader) (mood : Mood) (parent : Block) (block : Text) : Reading :=
  let levels := indent block / 4
  let (level, depth) := findDepth (2 * levels + 2) levels (if mood == .list then 1 else 0) parent
  let block := outdent level block
  let readHere (b : Block) : Reading := read .indented b [block]
  if parent.kind == .item then
    if parent.endsWith BlockKind.isList then parent.readLast readHere else readHere parent
  else
    parent.readAt depth fun b =>
      if b.kind == .item then readHere b
      else if b.endsWith (· == .item) then
        b.readLast fun item => read .indented item.loosen (pieces block)
      else b.readNew .item readHere

/-- Code is indented by one level; more code after a blank line continues it. -/
def code (parent : Block) (block : Text) (rest : List Text) : Step :=
  let (inside, others) := takeIndented (lines block)
  let text := Text.trimRight (unlines inside) ++ ['\n']
  let parent :=
    if parent.endsWith (· == .listing) then
      parent.mapLast fun (code, tail) => (code.withText (code.text ++ '\n' :: text), tail)
    else parent.add (.leaf .listing text)
  (parent, [], before (unlines others) rest)

/-- A heading in the middle of a piece splits it. -/
def heading (read : BlockReader) (mood : Mood) (parent : Block) (above : List Text)
    (level : Nat) (title : Text) (below rest : List Text) : Step :=
  let (parent, definitions) :=
    if (unlines above).isEmpty then (parent, []) else read mood parent [unlines above]
  let below := unlines below
  let below := if mood == .looseList then outdent 1 below else below
  (parent.add (.leaf (.heading level) title), definitions, before below rest)

/-- A rule in the middle of a piece splits it. -/
def rule (read : BlockReader) (mood : Mood) (parent : Block) (above below rest : List Text) :
    Step :=
  let isEnd (c : Char) : Bool := c == '\n'
  let above := ((unlines above).reverse.dropWhile isEnd).reverse
  let (parent, definitions) := if above.isEmpty then (parent, []) else read mood parent [above]
  (parent.add (.leaf .rule []), definitions, before ((unlines below).dropWhile isEnd) rest)

/-- Read items into a list. Indented ones go into the item before them. -/
def readItems (read : BlockReader) : List Text → Block → Reading
  | [], list => (list, [])
  | item :: items, list =>
    let readHere (b : Block) : Reading := read .list b [item]
    let (list, found) :=
      if isIndented item then list.readLast readHere else list.readNew .item readHere
    let (list, others) := readItems read items list
    (list, found ++ others)

/-- Read items into a list that a blank line interrupted. The items on both sides of the
    blank line get paragraphs. -/
def continueList (read : BlockReader) (items : List Text) (list : Block) : Reading :=
  let list := list.mapLast fun (item, tail) => (item.loosen.loosenTail Text.trimLeft, tail)
  let (list, found) := list.readNew .item fun b => read .looseList b (items.take 1)
  let (list, others) := readItems read (items.drop 1) list
  (list, found ++ others)

/-- A piece that starts with an item. A list of either kind takes it. -/
def list (read : BlockReader) (kind : BlockKind) (parent : Block) (block : Text) : Reading :=
  let items := Line.items block
  if parent.endsWith BlockKind.isList then parent.readLast (continueList read items)
  else if parent.kind.isList then readItems read items parent
  else parent.readNew kind (readItems read items)

/-- A piece with a quotation in it, which the quotation before it takes as well. -/
def quote (read : BlockReader) (mood : Mood) (parent : Block) (above quoted : List Text) :
    Reading :=
  let (parent, found) := read mood parent [unlines above]
  let inside := pieces (unlines ((if above.isEmpty then [] else [[]]) ++ quoted.map unquote))
  let readHere (b : Block) : Reading := read .quote b inside
  let (parent, others) :=
    if parent.endsWith (· == .quote) then parent.readLast readHere
    else parent.readNew .quote readHere
  (parent, found ++ others)

def definition (parent : Block) (above : List Text) (found : Text × Target) (below : Text)
    (rest : List Text) : Step :=
  let isEnd (c : Char) : Bool := c == '\n'
  let above := unlines above
  let rest := if Text.blank below then rest else below.dropWhile isEnd :: rest
  let rest := if Text.blank above then rest else (above.reverse.dropWhile isEnd).reverse :: rest
  (parent, [found], rest)

/-- Any other piece. In an item that needs no paragraph, it is the text of the item or, after
    an inner block, the tail of that block. -/
def paragraph (mood : Mood) (parent : Block) (block : Text) : Block :=
  if Text.blank block then parent
  else if mood != .list then parent.add (.leaf .paragraph (Text.trimLeft block))
  else if parent.inner.isEmpty then
    let text := Text.trimLeft block
    parent.withText (if parent.text.isEmpty then text else parent.text ++ '\n' :: text)
  else parent.mapLast fun (child, tail) => (child, tail ++ '\n' :: block)

end Rule

/-! ## Pieces -/

/-- A step that uses up its piece. -/
def Reading.andThen (r : Reading) (rest : List Text) : Step := (r.1, r.2, rest)

/-- Read a piece that starts with none of the simple shapes: it may have a heading, a rule or
    the like in any of its lines. -/
def readLines (read : BlockReader) (mood : Mood) (parent : Block) (block : Text)
    (rest : List Text) : Step :=
  let all := lines block
  match cutAtLine? (fun line => (heading? line).isSome) all with
  | some (above, line, below) =>
    let (level, title) := (heading? line).getD (0, [])
    Rule.heading read mood parent above level title below rest
  | none =>
  match all.tail.head?.bind underline? with
  | some level =>
    let title := Text.trim (all.headD [])
    (parent.add (.leaf (.heading level) title), [], Rule.before (unlines (all.drop 2)) rest)
  | none =>
  match cutAtLine? isRule all with
  | some (above, _, below) => Rule.rule read mood parent above below rest
  | none =>
  if isNumbered (all.headD []) then (Rule.list read .numbers parent block).andThen rest
  else if isBullet (all.headD []) then (Rule.list read .bullets parent block).andThen rest
  else
  match cutAtLine? (fun line => (quoted? line).isSome) all with
  | some (above, line, below) =>
    (Rule.quote read mood parent above (line :: below)).andThen rest
  | none =>
  match cutDefinition? all with
  | some (above, found, below) => Rule.definition parent above found below rest
  | none => (Rule.paragraph mood parent block, [], rest)

def readPiece (read : BlockReader) (mood : Mood) (parent : Block) (block : Text)
    (rest : List Text) : Step :=
  if block.head?.all (· == '\n') then Rule.emptyLine parent block rest
  else if Rule.isInItem mood parent block then (Rule.inItem read mood parent block).andThen rest
  else if isIndented block then Rule.code parent block rest
  else match Table.shape? (lines block) with
    | some shape => (parent.add (Table.ofLines shape (lines block)), [], rest)
    | none => readLines read mood parent block rest

/-- Read pieces into a block, one after the other. -/
def readPieces (fuel : Nat) : BlockReader :=
  match fuel with
  | 0 => fun _ parent _ => (parent, [])
  | fuel + 1 => fun mood parent blocks =>
    match blocks with
    | [] => (parent, [])
    | block :: rest =>
      let (parent, found, rest) := readPiece (readPieces fuel) mood parent block rest
      let (parent, others) := readPieces fuel mood parent rest
      (parent, found ++ others)

/-- The page that a source is, and its definitions. -/
def readPage (t : Text) : Reading :=
  readPieces (4 * t.length + 8) .plain (.leaf .page []) (pieces t)

end Recast.Markdown
