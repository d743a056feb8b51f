import Recast.Proofs.Json.Token

/-! # JSON texts as trees

A tree keeps all that a text of JSON consists of, white space included. Before the last
closing bracket of a container it may have a comma that JSON does not allow; `plain`
leaves these commas out.
-/

namespace Recast.Json

open Text

/-- White space between two tokens. -/
structure Space where
  text : Text
  space : ∀ c ∈ text, isSpace c = true

/-- No white space. -/
def noSpace : Space := ⟨[], by simp⟩

/-- A comma or a colon between white space. -/
structure Gap where
  before : Space
  after : Space

def Gap.text (gap : Gap) (sign : Char) : Text := gap.before.text ++ sign :: gap.after.text

/-- What stands between the last element and the closing bracket: white space, or instead of
    it a comma between white space. -/
structure Ending where
  space : Space
  comma? : Option Gap

def Ending.text (ending : Ending) : Text :=
  match ending.comma? with
  | none => ending.space.text
  | some gap => gap.text ','

def Ending.plain (ending : Ending) : Ending := { ending with comma? := none }

mutual
/-- A value and its spelling. -/
inductive Document
  | atom (a : Atom)
  | string (q : Quoted)
  | emptyArray (space : Space)
  | array (space : Space) (items : Items)
  | emptyObject (space : Space)
  | object (space : Space) (members : Members)

inductive Items
  | last (item : Document) (ending : Ending)
  | more (item : Document) (comma : Gap) (rest : Items)

inductive Members
  | last (key : Quoted) (colon : Gap) (value : Document) (ending : Ending)
  | more (key : Quoted) (colon : Gap) (value : Document) (comma : Gap) (rest : Members)
end

/-- A key up to its value. -/
def keyText (key : Quoted) (colon : Gap) : Text := '"' :: key.raw ++ '"' :: colon.text ':'

mutual
def Document.text : Document → Text
  | .atom a => a.text
  | .string q => '"' :: q.raw ++ ['"']
  | .emptyArray space => '[' :: space.text ++ [']']
  | .array space items => '[' :: space.text ++ items.text ++ [']']
  | .emptyObject space => '{' :: space.text ++ ['}']
  | .object space members => '{' :: space.text ++ members.text ++ ['}']

def Items.text : Items → Text
  | .last item ending => item.text ++ ending.text
  | .more item comma rest => item.text ++ comma.text ',' ++ rest.text

def Members.text : Members → Text
  | .last key colon value ending => keyText key colon ++ value.text ++ ending.text
  | .more key colon value comma rest =>
    keyText key colon ++ value.text ++ comma.text ',' ++ rest.text
end

mutual
/-- The document without the commas before closing brackets. -/
def Document.plain : Document → Document
  | .array space items => .array space items.plain
  | .object space members => .object space members.plain
  | other => other

def Items.plain : Items → Items
  | .last item ending => .last item.plain ending.plain
  | .more item comma rest => .more item.plain comma rest.plain

def Members.plain : Members → Members
  | .last key colon value ending => .last key colon value.plain ending.plain
  | .more key colon value comma rest => .more key colon value.plain comma rest.plain
end

mutual
/-- Is there a comma before a closing bracket? -/
def Document.hasComma : Document → Bool
  | .array _ items => items.hasComma
  | .object _ members => members.hasComma
  | _ => false

def Items.hasComma : Items → Bool
  | .last item ending => item.hasComma || ending.comma?.isSome
  | .more item _ rest => item.hasComma || rest.hasComma

def Members.hasComma : Members → Bool
  | .last _ _ value ending => value.hasComma || ending.comma?.isSome
  | .more _ _ value _ rest => value.hasComma || rest.hasComma
end

/-! ## What a tree reads as -/

/-- Why a tree is not read: a comma too many, or containers nested too deeply. -/
inductive Slip
  | comma
  | deep

/-- The containers that may still be opened inside one. -/
def inside : Nat → Except Slip Nat
  | 0 => .error .deep
  | depth + 1 => .ok depth

mutual
/-- The value of a document when `depth` containers may be opened. -/
def Document.read (depth : Nat) : Document → Except Slip Json
  | .atom a => .ok a.value
  | .string q => .ok (.string q.value)
  | .emptyArray _ => do
    let _ ← inside depth
    return .array []
  | .array _ items => do
    let depth ← inside depth
    return .array (← items.read depth)
  | .emptyObject _ => do
    let _ ← inside depth
    return .object []
  | .object _ members => do
    let depth ← inside depth
    return .object (ofPairs (← members.read depth))

def Items.read (depth : Nat) : Items → Except Slip (List Json)
  | .last item ending => do
    let value ← item.read depth
    if ending.comma?.isSome then throw .comma else return [value]
  | .more item _ rest => do
    let value ← item.read depth
    return value :: (← rest.read depth)

def Members.read (depth : Nat) : Members → Except Slip (List (Text × Json))
  | .last key _ value ending => do
    let value ← value.read depth
    if ending.comma?.isSome then throw .comma else return [(key.value, value)]
  | .more key _ value _ rest => do
    let value ← value.read depth
    return (key.value, value) :: (← rest.read depth)
end

end Recast.Json
