import Recast.Xml.Markup

/-! # Document types

The declarations at the head of a document: texts that entities stand for, and
attributes that elements have unless they say otherwise. Declarations of content
are checked for their form and then have no effect.
-/

namespace Recast.Xml

/-- What an entity stands for. -/
inductive Entity where
  | inside (replacement : Text)
  /-- The replacement lies outside the document and is not looked up. -/
  | outside
  deriving DecidableEq, Repr

/-- A declared attribute of an element. -/
structure AttributeRule where
  element : Label
  name : Label
  /-- Is the value a list of words, parted by single spaces? -/
  isWords : Bool
  default? : Option Text
  deriving DecidableEq, Repr

/-- What the head of a document declares. Of several declarations of one thing the first
    counts. -/
structure Doctype where
  entities : List (Text × Entity) := []
  rules : List AttributeRule := []
  /-- May there be declarations outside the document? -/
  isOpen : Bool := false
  /-- Does the document claim to need no such declarations? -/
  standalone : Bool := false
  deriving Repr

namespace Doctype

/-- Replacements nest no deeper than this, unless an entity holds itself. -/
def levels (d : Doctype) : Nat := d.entities.length + 1

/-- The characters of an attribute's value: white space becomes spaces and references are
    replaced. An unknown entity is passed over when it may be declared outside. -/
def expand (d : Doctype) : Nat → Text → Option Text
  | 0, _ => none
  | levels + 1, t => do
    let pieces ← pieces? t
    let parts ← pieces.mapM fun
      | .plain c => if c = '<' then none else some [if isSpace c then ' ' else c]
      | .reference (.char c) => some [c]
      | .reference (.entity name) =>
        match predefined? name, d.entities.lookup name with
        | some c, _ => some [c]
        | none, some (.inside replacement) => d.expand levels replacement
        | none, some .outside => none
        | none, none => if d.isOpen && !d.standalone then some [] else none
    return parts.flatten

/-- The words of a text with single spaces between them. -/
def respace (t : Text) : Text :=
  Text.join " " ((Text.splitOn ' ' t).filter (!·.isEmpty))

/-- The value of an attribute that is written as `t`. -/
def value? (d : Doctype) (isWords : Bool) (t : Text) : Option Text :=
  (d.expand d.levels t).map fun v => if isWords then respace v else v

def rule? (d : Doctype) (element name : Label) : Option AttributeRule :=
  d.rules.find? fun r => r.element = element && r.name = name

/-- The attributes that an element has beside the written ones. -/
def defaultsFor (d : Doctype) (element : Label) (written : List (Label × Text)) :
    List (Label × Text) :=
  d.rules.filterMap fun r =>
    if r.element = element && (written.lookup r.name).isNone then
      r.default?.map fun v => (r.name, v)
    else none

end Doctype

/-! ## Tokens of a declaration -/

/-- A token of a declaration. -/
inductive Token where
  /-- A word, with the sign for repetition that may follow it. -/
  | word (w : Text) (mark? : Option Char)
  /-- A word after a number sign. -/
  | sharp (w : Text)
  | literal (t : Text)
  | percent
  | sign (c : Char)
  /-- A closing parenthesis, with the sign for repetition that may follow it. -/
  | close (mark? : Option Char)
  deriving DecidableEq, Repr

def Token.plain (w : String) : Token := .word w none

/-- Does white space come next, or one of some signs? -/
def isParted (signs : List Char) : Text → Bool
  | c :: _ => isSpace c || signs.elem c
  | [] => false

/-- A sign for repetition. -/
def isMark (c : Char) : Bool := c == '?' || c == '*' || c == '+'

/-- Is it a name without a colon? -/
def isName (w : Text) : Bool :=
  match readName? w with
  | some (_, []) => true
  | _ => false

/-- The label that a word is: here a base may begin with any character of names. -/
def labelOf? (w : Text) : Option Label :=
  match Text.cutAt? ':' w with
  | none => if isName w then some ⟨[], w⟩ else none
  | some (scope, base) =>
    if isName scope && !base.isEmpty && base.all isNameChar then some ⟨scope, base⟩ else none

/-- The next token. Words, literals and parentheses are parted from what follows. -/
def readToken? : Text → Option (Token × Text)
  | [] => none
  | c :: rest =>
    if "(|,[>".toList.elem c then some (.sign c, rest)
    else if c = ')' then
      match rest with
      | mark :: after =>
        if isMark mark then some (.close (some mark), after)
        else if isParted ['>', ',', '|', ')'] rest then some (.close none, rest)
        else none
      | [] => none
    else if c = '"' || c = '\'' then do
      let (t, after) ← Text.cutAt? c rest
      if isParted ['>', '%', '['] after then some (.literal t, after) else none
    else if c = '#' then do
      let (w, after) ← readName? rest
      if isParted [')', '>', '%', '|'] after then some (.sharp w, after) else none
    else if c = '%' then if isParted ['%'] rest then some (.percent, rest) else none
    else
      let (w, after) := Text.spanWhile (fun c => isNameChar c || c == ':') (c :: rest)
      match after with
      | mark :: others =>
        if isMark mark && (labelOf? w).isSome then some (.word w (some mark), others)
        else if !w.isEmpty && isParted ['>', ')', ',', '|', '[', '%'] after then
          some (.word w none, after)
        else none
      | [] => none

/-- The tokens up to one of the signs that end a declaration or open its body, and whether
    it is opened. `fuel` bounds the number of tokens. -/
def readTokens? : Nat → Text → Option (List Token × Bool × Text)
  | 0, _ => none
  | fuel + 1, t => do
    let (token, rest) ← readToken? (skipSpace t)
    match token with
    | .sign '>' => return ([], false, rest)
    | .sign '[' => return ([], true, rest)
    | token =>
      let (tokens, opened, rest) ← readTokens? fuel rest
      return (token :: tokens, opened, rest)

/-! ## Declarations -/

def isPublic (c : Char) : Bool :=
  c.isAlphanum || "\n\r -'()+,./:=?;!*#@$_%".toList.elem c

/-- Where something outside the document is found, passed over. -/
def afterExternalId? : List Token → Option (List Token)
  | .word w none :: .literal t :: rest =>
    if w = "SYSTEM" then some rest
    else match rest with
      | .literal _ :: rest => if w = "PUBLIC" && t.all isPublic then some rest else none
      | _ => none
  | _ => none

/-- The replacement of an entity: numbered characters are put in, other entities are left. -/
def replacement? (t : Text) : Option Text := do
  let pieces ← pieces? t
  let parts ← pieces.mapM fun
    | .plain c => if c = '%' then none else some [c]
    | .reference (.char c) => some [c]
    | .reference (.entity name) => some ('&' :: name ++ [';'])
  return Text.universalNewlines parts.flatten

namespace Doctype

def addEntity (d : Doctype) (name : Text) (entity : Entity) : Doctype :=
  if (predefined? name).isSome || (d.entities.lookup name).isSome then d
  else { d with entities := d.entities ++ [(name, entity)] }

def addRule (d : Doctype) (r : AttributeRule) : Doctype :=
  if (d.rule? r.element r.name).isSome then d else { d with rules := d.rules ++ [r] }

def declareEntity? (d : Doctype) : List Token → Option Doctype
  | [.word name none, .literal t] => do
    if isName name then return d.addEntity name (.inside (← replacement? t)) else none
  | [.percent, .word name none, .literal t] => do
    let _ ← replacement? t
    if isName name then return d else none
  | .percent :: .word name none :: rest =>
    match afterExternalId? rest with
    | some [] => if isName name then some d else none
    | _ => none
  | .word name none :: rest =>
    let declared := if isName name then some (d.addEntity name .outside) else none
    match afterExternalId? rest with
    | some [] => declared
    | some [.word w none, .word format none] =>
      if w = "NDATA" && isName format then declared else none
    | _ => none
  | _ => none

/-- The declaration of a format: one literal after `PUBLIC` is enough. -/
def declareNotation? (d : Doctype) : List Token → Option Doctype
  | [.word name none, .word w none, .literal t] =>
    if isName name && (w = "SYSTEM" || w = "PUBLIC" && t.all isPublic) then some d else none
  | [.word name none, .word w none, .literal t, .literal _] =>
    if isName name && w = "PUBLIC" && t.all isPublic then some d else none
  | _ => none

/-- The words between bars, up to the closing parenthesis. -/
def choices? (isChoice : Text → Bool) : List Token → Option (List Token)
  | .word w none :: .close none :: rest => if isChoice w then some rest else none
  | .word w none :: .sign '|' :: rest => if isChoice w then choices? isChoice rest else none
  | _ => none

def wordTypes : List Text :=
  ["ID", "IDREF", "IDREFS", "ENTITY", "ENTITIES", "NMTOKEN", "NMTOKENS"]

/-- The type of an attribute, as whether its values are words, and the tokens after it. -/
def attributeType? : List Token → Option (Bool × List Token)
  | .sign '(' :: rest => (choices? (fun _ => true) rest).map (true, ·)
  | .word w none :: rest =>
    if w = "CDATA" then some (false, rest)
    else if w ∈ wordTypes then some (true, rest)
    else if w = "NOTATION" then
      match rest with
      | .sign '(' :: rest => (choices? isName rest).map (true, ·)
      | _ => none
    else none
  | _ => none

/-- The default of an attribute, and the tokens after it. -/
def attributeDefault? : List Token → Option (Option Text × List Token)
  | .literal t :: rest => some (some t, rest)
  | .sharp w :: rest =>
    if w = "IMPLIED" || w = "REQUIRED" then some (none, rest)
    else match rest with
      | .literal t :: rest => if w = "FIXED" then some (some t, rest) else none
      | _ => none
  | _ => none

/-- The declarations of the attributes of an element. Nothing is kept unless `keep` holds. -/
def declareAttributes? (keep : Bool) (element : Label) (fuel : Nat) (d : Doctype)
    (tokens : List Token) : Option Doctype :=
  match fuel, tokens with
  | _, [] => some d
  | fuel + 1, .word w none :: tokens => do
    let name ← labelOf? w
    let (isWords, tokens) ← attributeType? tokens
    let (default?, tokens) ← attributeDefault? tokens
    if keep then
      let default? ← match default? with
        | some t => (d.value? isWords t).map some
        | none => some none
      declareAttributes? keep element fuel (d.addRule { element, name, isWords, default? }) tokens
    else declareAttributes? keep element fuel d tokens
  | _, _ => none

/-- Is it a model of nested groups? `connectors` holds, for each open group, the sign that
    parts its items, once there is one; `itemNext` tells whether an item has to follow. -/
def isGroups : (connectors : List (Option Char)) → (itemNext : Bool) → List Token → Bool
  | [], false, [] => true
  | c :: cs, true, .sign '(' :: rest => isGroups (none :: c :: cs) true rest
  | c :: cs, true, .word w _ :: rest => (labelOf? w).isSome && isGroups (c :: cs) false rest
  | _ :: cs, false, .close _ :: rest => isGroups cs false rest
  | c :: cs, false, .sign s :: rest =>
    (s == ',' || s == '|') && (c.isNone || c == some s) && isGroups (some s :: cs) true rest
  | _, _, _ => false

/-- Is it the rest of a model of text mixed with elements? -/
def isMixed : (bare : Bool) → List Token → Bool
  | bare, [.close mark?] => mark? == some '*' || (bare && mark?.isNone)
  | _, .sign '|' :: .word w none :: rest => (labelOf? w).isSome && isMixed false rest
  | _, _ => false

/-- Is it a model of the content of an element? -/
def isModel : List Token → Bool
  | [.word w none] => w == "EMPTY" || w == "ANY"
  | .sign '(' :: .sharp w :: rest => w == "PCDATA" && isMixed true rest
  | .sign '(' :: rest => isGroups [none] true rest
  | _ => false

def declare? (d : Doctype) (keep : Bool) (keyword : Text) (tokens : List Token) :
    Option Doctype :=
  if keyword = "ENTITY" then (d.declareEntity? tokens).map fun e => if keep then e else d
  else if keyword = "NOTATION" then d.declareNotation? tokens
  else match tokens with
    | .word w none :: tokens => do
      let element ← labelOf? w
      if keyword = "ATTLIST" then
        declareAttributes? keep element tokens.length d tokens
      else if keyword = "ELEMENT" then if isModel tokens then some d else none
      else none
    | _ => none

/-- The declarations up to the closing bracket. After a reference to declarations elsewhere
    nothing is kept, unless the document is standalone. `fuel` bounds the number of steps. -/
def readSubset? (fuel : Nat) (keep : Bool) (d : Doctype) (t : Text) : Option (Doctype × Text) :=
  match fuel with
  | 0 => none
  | fuel + 1 =>
    match skipSpace t with
    | ']' :: rest => some (d, rest)
    | '%' :: rest => do
      let (_, rest) ← readName? rest
      let rest ← Text.after? ";" rest
      readSubset? fuel (keep && d.standalone) { d with isOpen := true } rest
    | '<' :: '?' :: rest => do readSubset? fuel keep d (← skipInstruction? rest)
    | '<' :: '!' :: '-' :: '-' :: rest => do readSubset? fuel keep d (← skipComment? rest)
    | '<' :: '!' :: rest => do
      let (keyword, rest) ← readName? rest
      if isParted ['%'] rest then
        let (tokens, opened, rest) ← readTokens? (rest.length + 1) rest
        if opened then none
        else readSubset? fuel keep (← d.declare? keep keyword tokens) rest
      else none
    | _ => none

/-- The body of a document type and its closing sign. -/
def readBody? (standalone : Bool) (t : Text) : Option (Doctype × Text) := do
  let (d, rest) ← readSubset? (t.length + 1) true { standalone } t
  return (d, ← Text.after? ">" (skipSpace rest))

/-- The document type, from after its keyword on. -/
def read? (standalone : Bool) (t : Text) : Option (Doctype × Text) := do
  let rest ← skipSomeSpace? t
  let (tokens, opened, rest) ← readTokens? (rest.length + 1) rest
  match tokens with
  | .word w none :: external =>
    let _ ← labelOf? w
    let isExternal := !external.isEmpty
    if isExternal && afterExternalId? external != some [] then none
    else
      let (d, rest) ← if opened then readBody? standalone rest
        else some ({ standalone := standalone : Doctype }, rest)
      return ({ d with isOpen := d.isOpen || isExternal }, rest)
  | _ => none

end Doctype
end Recast.Xml
