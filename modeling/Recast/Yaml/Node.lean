import Recast.Yaml.Plain
import Recast.Yaml.Tokens

/-! # Nodes

The tree of a document: scalars, sequences and mappings with their tags. Where an
alias stands, the tree holds the node that it names.
-/

namespace Recast.Yaml

/-- A node of a document. Its `place` tells it from all others, and an alias has the place of
    the node that it names. -/
inductive Node where
  | scalar (tag : Tag) (t : Text) (place : Nat)
  | sequence (tag : Tag) (items : List Node)
  | mapping (tag : Tag) (entries : List (Node × Node)) (place : Nat)
  /-- An alias inside the very collection that it names. -/
  | cycle
  deriving Repr, Inhabited

namespace Node

/-- The tokens that are left, the number of those before them, and the anchors set so far. The
    node of an anchor is missing until its collection ends. -/
structure Progress where
  tokens : List Token
  place : Nat := 0
  anchors : List (Text × Option Node) := []

/-- A step of reading nodes. -/
abbrev Step := StateT Progress (Except Error)

/-- Give up. -/
def refuse {α : Type} : Step α := throw .malformed

/-- The next token; after the last one the stream is at its end. -/
def peek : Step Token := do
  return ((← get).tokens.head?).getD .streamEnd

/-- Pass over the next token. -/
def drop : Step Unit :=
  modify fun p => { p with tokens := p.tokens.tail, place := p.place + 1 }

/-- Pass over the next token, which must be this one. -/
def expect (token : Token) : Step Unit := do
  if (← peek) = token then drop else refuse

/-- Pass over the next token if it is this one. -/
def accept (token : Token) : Step Bool := do
  if (← peek) = token then
    drop
    return true
  else return false

/-- Set an anchor to a node, or open it. -/
def setAnchor (name? : Option Text) (node? : Option Node) : Step Unit :=
  match name? with
  | some name => modify fun p => { p with anchors := (name, node?) :: p.anchors }
  | none => pure ()

def named (name : Text) : Step Node := do
  match (← get).anchors.lookup name with
  | some node? => return node?.getD .cycle
  | none => refuse

def absent : Node := .scalar .null [] 0

/-! ## Properties -/

/-- The anchor and tag in front of a node, in either order. -/
structure Properties where
  anchor? : Option Text := none
  tag? : Option TagText := none

def readAnchor? : Step (Option Text) := do
  match ← peek with
  | .anchor name =>
    drop
    return some name
  | _ => return none

def readTag? : Step (Option TagText) := do
  match ← peek with
  | .tag t =>
    drop
    return some t
  | _ => return none

/-- Read the properties of a node. An anchor is set only once in a document. -/
def readProperties : Step Properties := do
  let properties : Properties ← do
    match ← readAnchor? with
    | some name => pure { anchor? := some name, tag? := ← readTag? }
    | none => do
      let tag? ← readTag?
      match tag? with
      | some _ => pure { anchor? := ← readAnchor?, tag? }
      | none => pure {}
  match properties.anchor? with
  | some name =>
    if ((← get).anchors.lookup name).isSome then refuse else return properties
  | none => return properties

/-- The handles of a document with what they stand for. -/
abbrev Handles := List (Text × Text)

/-- The tag that is written, where a lone exclamation mark is as good as none. -/
def fullTag (handles : Handles) : Option TagText → Step (Option Tag)
  | none => return none
  | some (.full name) => return if name = "!" then none else some (.ofName name)
  | some (.short handle rest) =>
    match handles.lookup handle with
    | some start =>
      let name := start ++ rest
      return if name = "!" then none else some (.ofName name)
    | none => refuse

/-! ## Nodes -/

def endsBlockEntry : Token → Bool
  | .blockEntry | .blockEnd => true
  | _ => false

/-- Does a token end an absent item of a sequence that has no indentation of its own? -/
def endsFlushEntry : Token → Bool
  | .blockEntry | .key | .value | .blockEnd => true
  | _ => false

/-- Does a token end an absent key or value of a block mapping? -/
def endsBlockPart : Token → Bool
  | .key | .value | .blockEnd => true
  | _ => false

/-- Does a token end an absent key or value of a flow collection? -/
def endsFlowPart : Token → Bool
  | .value | .flowEntry | .flowSequenceEnd | .flowMappingEnd => true
  | _ => false

/-- Where a node stands, which decides the collections that it can be. -/
inductive Site where
  | flow
  | block
  /-- A key or value of a block mapping, which may be a sequence without indentation. -/
  | blockPart
  deriving DecidableEq, Repr

/-- Close the anchor of a node that is complete. -/
def finish (properties : Properties) (node : Node) : Step Node := do
  setAnchor properties.anchor? (some node)
  return node

mutual
/-- The node that comes next. `fuel` bounds the number of steps. -/
def read (handles : Handles) (fuel : Nat) (site : Site) : Step Node :=
  match fuel with
  | 0 => refuse
  | fuel + 1 => do
    match ← peek with
    | .alias name =>
      drop
      named name
    | _ =>
      let properties ← readProperties
      let tag? ← fullTag handles properties.tag?
      let sequenceTag := tag?.getD .sequence
      let mappingTag := tag?.getD .mapping
      let token ← peek
      let place := (← get).place
      match token, site with
      | .blockEntry, .blockPart =>
        setAnchor properties.anchor? none
        finish properties (.sequence sequenceTag (← readFlushItems handles fuel))
      | .scalar t isPlain, _ =>
        drop
        let resolves := properties.tag?.isSome || isPlain
        finish properties (.scalar (tag?.getD (if resolves then Plain.tag t else .string)) t place)
      | .flowSequenceStart, _ =>
        drop
        setAnchor properties.anchor? none
        finish properties (.sequence sequenceTag (← readFlowItems handles fuel true))
      | .flowMappingStart, _ =>
        drop
        setAnchor properties.anchor? none
        finish properties (.mapping mappingTag (← readFlowEntries handles fuel true) place)
      | _, _ =>
        if token = .blockSequenceStart && site ≠ .flow then
          drop
          setAnchor properties.anchor? none
          finish properties (.sequence sequenceTag (← readItems handles fuel))
        else if token = .blockMappingStart && site ≠ .flow then
          drop
          setAnchor properties.anchor? none
          finish properties (.mapping mappingTag (← readEntries handles fuel) place)
        else if properties.anchor?.isSome || properties.tag?.isSome then
          finish properties (.scalar (tag?.getD .null) [] place)
        else refuse

/-- The node that comes next, or an absent one where a token `ends` it. -/
def readOr (ends : Token → Bool) (handles : Handles) (fuel : Nat) (site : Site) : Step Node :=
  match fuel with
  | 0 => refuse
  | fuel + 1 => do
    if ends (← peek) then return absent else read handles fuel site

/-- The items of a block sequence, up to its end. -/
def readItems (handles : Handles) (fuel : Nat) : Step (List Node) :=
  match fuel with
  | 0 => refuse
  | fuel + 1 => do
    if ← accept .blockEntry then
      let item ← readOr endsBlockEntry handles fuel .block
      return item :: (← readItems handles fuel)
    else
      expect .blockEnd
      return []

/-- The items of a sequence without indentation, which ends where no dash follows. -/
def readFlushItems (handles : Handles) (fuel : Nat) : Step (List Node) :=
  match fuel with
  | 0 => refuse
  | fuel + 1 => do
    if ← accept .blockEntry then
      let item ← readOr endsFlushEntry handles fuel .block
      return item :: (← readFlushItems handles fuel)
    else return []

/-- The entries of a block mapping, up to its end. -/
def readEntries (handles : Handles) (fuel : Nat) : Step (List (Node × Node)) :=
  match fuel with
  | 0 => refuse
  | fuel + 1 => do
    if ← accept .key then
      let key ← readOr endsBlockPart handles fuel .blockPart
      let value ← readValue endsBlockPart handles fuel .blockPart
      return (key, value) :: (← readEntries handles fuel)
    else
      expect .blockEnd
      return []

/-- The value after a key, or an absent one. -/
def readValue (ends : Token → Bool) (handles : Handles) (fuel : Nat) (site : Site) : Step Node :=
  match fuel with
  | 0 => refuse
  | fuel + 1 => do
    if ← accept .value then readOr ends handles fuel site else return absent

/-- The items of a flow sequence, up to its end. A key makes an item a mapping with one
    entry. -/
def readFlowItems (handles : Handles) (fuel : Nat) (isFirst : Bool) : Step (List Node) :=
  match fuel with
  | 0 => refuse
  | fuel + 1 => do
    if ← accept .flowSequenceEnd then return []
    else
      if !isFirst then expect .flowEntry
      let place := (← get).place
      if ← accept .key then
        let key ← readOr endsFlowPart handles fuel .flow
        let value ← readValue endsFlowPart handles fuel .flow
        return .mapping .mapping [(key, value)] place :: (← readFlowItems handles fuel false)
      else if ← accept .flowSequenceEnd then return []
      else
        let item ← read handles fuel .flow
        return item :: (← readFlowItems handles fuel false)

/-- The entries of a flow mapping, up to its end. A lone node is a key without value. -/
def readFlowEntries (handles : Handles) (fuel : Nat) (isFirst : Bool) :
    Step (List (Node × Node)) :=
  match fuel with
  | 0 => refuse
  | fuel + 1 => do
    if ← accept .flowMappingEnd then return []
    else
      if !isFirst then expect .flowEntry
      if ← accept .key then
        let key ← readOr endsFlowPart handles fuel .flow
        let value ← readValue endsFlowPart handles fuel .flow
        return (key, value) :: (← readFlowEntries handles fuel false)
      else if ← accept .flowMappingEnd then return []
      else
        let key ← read handles fuel .flow
        return (key, absent) :: (← readFlowEntries handles fuel false)
end

/-! ## Documents -/

def commonHandles : Handles := [("!", "!"), ("!!", Tag.commonStart)]

/-- The handles that the directives declare, each at most once. The version is given at most
    once and begins with one. `fuel` bounds the number of directives. -/
def readDirectives (hasVersion : Bool) (handles : Handles) : Nat → Step Handles
  | 0 => refuse
  | fuel + 1 => do
    match ← peek with
    | .directive (.version major) =>
      drop
      if hasVersion || major ≠ 1 then refuse else readDirectives true handles fuel
    | .directive (.handle handle start) =>
      drop
      if (handles.lookup handle).isSome then refuse
      else readDirectives hasVersion ((handle, start) :: handles) fuel
    | .directive .other =>
      drop
      readDirectives hasVersion handles fuel
    | _ => return handles

/-- Pass over the marks for the end of a document. -/
def skipEnds : Nat → Step Unit
  | 0 => refuse
  | fuel + 1 => do
    if ← accept .documentEnd then skipEnds fuel else return ()

def endsDocument : Token → Bool
  | .directive _ | .documentStart | .documentEnd | .streamEnd => true
  | _ => false

/-- The only document of a stream, if there is one. -/
def readStream (fuel : Nat) : Step (Option Node) := do
  let node? ← (do
    match ← peek with
    | .streamEnd => return none
    | .directive _ | .documentStart =>
      let handles ← readDirectives false [] fuel
      expect .documentStart
      let node ← readOr endsDocument (handles ++ commonHandles) fuel .block
      return some node
    | _ =>
      let node ← read commonHandles fuel .block
      return some node : Step (Option Node))
  if node?.isSome then skipEnds fuel
  expect .streamEnd
  return node?

/-- The root of the only document among tokens, if there is one. -/
def ofTokens? (tokens : List Token) : Except Error (Option Node) :=
  (readStream (4 * tokens.length + 8)).run' { tokens }

end Node
end Recast.Yaml
