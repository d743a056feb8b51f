import Recast.Xml.Doctype

/-! # Documents as written

A document becomes a tree of elements and texts whose names are still the written
ones. Comments and instructions leave no trace, and entities are replaced.
-/

namespace Recast.Xml

/-- A part of the content of an element. -/
inductive Node where
  | text (t : Text)
  | element (label : Label) (attributes : List (Label × Text)) (children : List Node)
  deriving Repr, Inhabited

/-! ## Tags -/

/-- One attribute, checked against those already `written`. -/
def readAttribute? (d : Doctype) (element : Label) (written : List (Label × Text)) (t : Text) :
    Option ((Label × Text) × Text) := do
  let (name, rest) ← readLabel? t
  let rest ← Text.after? "=" (skipSpace rest)
  match skipSpace rest with
  | mark :: rest =>
    if mark = '"' || mark = '\'' then do
      let (raw, rest) ← Text.cutAt? mark rest
      let isWords := ((d.rule? element name).map (·.isWords)).getD false
      let value ← d.value? isWords raw
      if (written.lookup name).isSome then none else return ((name, value), rest)
    else none
  | [] => none

/-- The attributes after those already `written`, whether the tag closes its element, and
    what follows the tag. White space stands before each attribute. -/
def readAttributes? (d : Doctype) (element : Label) (fuel : Nat) (written : List (Label × Text))
    (t : Text) : Option (List (Label × Text) × Bool × Text) :=
  match fuel with
  | 0 => none
  | fuel + 1 =>
    match skipSpace t with
    | '>' :: rest => some (written, false, rest)
    | '/' :: '>' :: rest => some (written, true, rest)
    | _ => do
      let rest ← skipSomeSpace? t
      let (next, rest) ← readAttribute? d element written rest
      readAttributes? d element fuel (written ++ [next]) rest

/-- The start of an element. -/
structure StartTag where
  label : Label
  attributes : List (Label × Text)
  /-- Does the tag close the element as well? -/
  closes : Bool

/-- A start tag, from after its first sign on. Attributes that are not written take their
    declared values. -/
def readStartTag? (d : Doctype) (t : Text) : Option (StartTag × Text) := do
  let (label, rest) ← readLabel? t
  let (written, closes, rest) ← readAttributes? d label (rest.length + 1) [] rest
  return ({ label, attributes := written ++ d.defaultsFor label written, closes }, rest)

def afterEndTag? (label : Label) (t : Text) : Option Text := do
  let rest ← Text.after? "</" t
  let (name, rest) ← readLabel? rest
  if name = label then Text.after? ">" (skipSpace rest) else none

/-! ## Content -/

/-- The longest beginning without markup, and the rest. -/
def spanPlain (t : Text) : Text × Text :=
  Text.spanWhile (fun c => c != '<' && c != '&') t

/-- The content up to the next end tag, or to the end of the text. `entity` gives the content
    that stands for an entity and `fuel` bounds the number of steps. -/
def readNodes? (d : Doctype) (entity : Text → Option (List Node)) (fuel : Nat) (t : Text) :
    Option (List Node × Text) :=
  match fuel with
  | 0 => none
  | fuel + 1 =>
    let thenRest (before : List Node) (rest : Text) : Option (List Node × Text) := do
      let (after, rest) ← readNodes? d entity fuel rest
      return (before ++ after, rest)
    match t with
    | [] => some ([], [])
    | '&' :: rest => do
      let (r, rest) ← readReference? rest
      match r with
      | .char c => thenRest [.text [c]] rest
      | .entity name => thenRest (← entity name) rest
    | '<' :: rest =>
      match rest with
      | '/' :: _ => some ([], t)
      | '?' :: rest => do thenRest [] (← skipInstruction? rest)
      | '!' :: rest =>
        match Text.after? "--" rest, Text.after? "[CDATA[" rest with
        | some rest, _ => do thenRest [] (← skipComment? rest)
        | none, some rest => do
          let (plain, rest) ← Text.cutAtText? "]]>" rest
          thenRest [.text plain] rest
        | none, none => none
      | rest => do
        let (tag, rest) ← readStartTag? d rest
        if tag.closes then thenRest [.element tag.label tag.attributes []] rest
        else do
          let (children, rest) ← readNodes? d entity fuel rest
          let rest ← afterEndTag? tag.label rest
          thenRest [.element tag.label tag.attributes children] rest
    | _ =>
      let (plain, rest) := spanPlain t
      if Text.hasPart "]]>" plain then none else thenRest [.text plain] rest

/-- The content that stands for an entity, which holds whole elements. Replacements nest at
    most `levels` deep. -/
def entityNodes? (d : Doctype) : (levels : Nat) → (name : Text) → Option (List Node)
  | 0, _ => none
  | levels + 1, name =>
    match predefined? name, d.entities.lookup name with
    | some c, _ => some [.text [c]]
    | none, some (.inside replacement) => do
      let (nodes, rest) ← readNodes? d (entityNodes? d levels) (replacement.length + 1) replacement
      if rest.isEmpty then return nodes else none
    | none, _ => none

/-! ## The whole document -/

/-- The settings in the declaration at the head of a document. `fuel` bounds their number. -/
def readSettings? : Nat → Text → Option (List (Text × Text))
  | 0, _ => none
  | fuel + 1, t =>
    if (skipSpace t).isEmpty then some []
    else do
      let rest ← skipSomeSpace? t
      let (name, rest) := Text.spanWhile (fun c => c != '=' && !isSpace c) rest
      let rest ← Text.after? "=" (skipSpace rest)
      match skipSpace rest with
      | mark :: rest =>
        if mark = '"' || mark = '\'' then
          let (value, rest) ← Text.cutAt? mark rest
          if value.all fun c => c.isAlphanum || c == '.' || c == '-' || c == '_' then
            return (name, value) :: (← readSettings? fuel rest)
          else none
        else none
      | [] => none

/-- Does the document claim to be standalone? The version comes first and is required; the
    encoding is not needed, as the text is decoded already. -/
def standalone? (settings : List (Text × Text)) : Option Bool :=
  let afterVersion? : Option (List (Text × Text)) := match settings with
    | (name, _) :: rest => if name = "version" then some rest else none
    | [] => none
  let afterEncoding? : Option (List (Text × Text)) := afterVersion?.bind fun
    | (name, value) :: rest =>
      if name = "encoding" then if value.head?.any Char.isAlpha then some rest else none
      else some ((name, value) :: rest)
    | [] => some []
  afterEncoding?.bind fun
    | [] => some false
    | [(name, value)] =>
      if name = "standalone" then
        if value = "yes" then some true else if value = "no" then some false else none
      else none
    | _ => none

/-- The declaration at the very start, if there is one: whether the document is standalone. -/
def readHead? (t : Text) : Option (Bool × Text) :=
  match Text.after? "<?xml" t with
  | none => some (false, t)
  | some rest =>
    if rest.head?.any isNameChar then some (false, t)
    else do
      let (settings, rest) ← Text.cutAtText? "?>" rest
      let settings ← readSettings? (settings.length + 1) settings
      return (← standalone? settings, rest)

/-- Pass over white space, comments and instructions. `fuel` bounds their number. -/
def skipAsides? : Nat → Text → Option Text
  | 0, _ => none
  | fuel + 1, t =>
    match skipSpace t with
    | '<' :: '?' :: rest => do skipAsides? fuel (← skipInstruction? rest)
    | '<' :: '!' :: '-' :: '-' :: rest => do skipAsides? fuel (← skipComment? rest)
    | rest => some rest

/-- The document type, if there is one, and the text from the root element on. -/
def readDoctype? (standalone : Bool) (t : Text) : Option (Doctype × Text) := do
  let rest ← skipAsides? (t.length + 1) t
  match Text.after? "<!DOCTYPE" rest with
  | none => return ({ standalone }, rest)
  | some rest =>
    let (d, rest) ← Doctype.read? standalone rest
    return (d, ← skipAsides? (rest.length + 1) rest)

/-- The content of the root element and what follows its end tag. -/
def readContent? (d : Doctype) (tag : StartTag) (t : Text) : Option (List Node × Text) :=
  if tag.closes then some ([], t)
  else do
    let (children, rest) ← readNodes? d (entityNodes? d d.levels) (t.length + 1) t
    return (children, ← afterEndTag? tag.label rest)

/-- The root element of a document, nothing but asides following it. -/
def readRoot? (d : Doctype) (t : Text) : Option Node := do
  let rest ← Text.after? "<" t
  let (tag, rest) ← readStartTag? d rest
  let (children, rest) ← readContent? d tag rest
  let rest ← skipAsides? (rest.length + 1) rest
  if rest.isEmpty then return .element tag.label tag.attributes children else none

/-- The root element of a document. A byte order mark may come first. -/
def readDocument? (t : Text) : Option Node := do
  let t := (Text.after? "\uFEFF" t).getD t
  if t.all isAllowed then
    let (standalone, rest) ← readHead? (Text.universalNewlines t)
    let (d, rest) ← readDoctype? standalone rest
    readRoot? d rest
  else none

end Recast.Xml
