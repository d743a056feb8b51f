import Recast.Json.Reader
import Recast.Xml.Letter

/-! # The small parts of markup

Names, references, comments and instructions. Each reader takes the text from the
part on and returns what follows it; there is no reading of a malformed part.
-/

namespace Recast.Xml

/-- The name of an element or attribute as it is written: `scope:base`, or `base` alone with
    an empty scope. -/
structure Label where
  scope : Text
  base : Text
  deriving DecidableEq, Repr, Inhabited

def skipSpace (t : Text) : Text := t.dropWhile isSpace

/-- Drop the white space at the start, of which there must be some. -/
def skipSomeSpace? : Text → Option Text
  | c :: rest => if isSpace c then some (skipSpace rest) else none
  | [] => none

/-- A name without a colon. -/
def readName? : Text → Option (Text × Text)
  | c :: rest =>
    if isNameStart c then
      let (more, after) := Text.spanWhile isNameChar rest
      some (c :: more, after)
    else none
  | [] => none

/-- A name with or without a scope. -/
def readLabel? (t : Text) : Option (Label × Text) := do
  let (first, rest) ← readName? t
  match rest with
  | ':' :: rest =>
    let (base, rest) ← readName? rest
    return (⟨first, base⟩, rest)
  | rest => return (⟨[], first⟩, rest)

/-- The text after a comment that was opened. Two hyphens end it and nothing else. -/
def skipComment? (t : Text) : Option Text := do
  let (_, rest) ← Text.cutAtText? "--" t
  Text.after? ">" rest

/-- The text after an instruction that was opened. The target `xml` is reserved. -/
def skipInstruction? (t : Text) : Option Text := do
  let (target, rest) ← readName? t
  if Text.lowerAscii target = "xml" then none
  else match Text.after? "?>" rest with
    | some after => return after
    | none => do
      let rest ← skipSomeSpace? rest
      let (_, after) ← Text.cutAtText? "?>" rest
      return after

/-- A reference: to a character by its number, or to an entity by its name. -/
inductive Reference where
  | char (c : Char)
  | entity (name : Text)
  deriving DecidableEq, Repr

/-- The character with a number, when a document may hold it. -/
def charOfNumber? (n : Nat) : Option Char :=
  if n.isValidChar && isAllowed (Char.ofNat n) then some (Char.ofNat n) else none

/-- The number that digits of a base stand for, when there is at least one digit. -/
def numberOf? (base : Nat) (digits : Text) : Option Nat :=
  if digits.isEmpty then none
  else digits.foldlM (fun n c => do
    let d ← Json.hexValue? c
    if d < base then some (n * base + d) else none) 0

/-- A reference, from after the ampersand on. -/
def readReference? (t : Text) : Option (Reference × Text) :=
  match t with
  | '#' :: rest => do
    let (digits, after) ← Text.cutAt? ';' rest
    let number ← match digits with
      | 'x' :: digits => numberOf? 16 digits
      | digits => numberOf? 10 digits
    return (.char (← charOfNumber? number), after)
  | t => do
    let (name, rest) ← readName? t
    return (.entity name, ← Text.after? ";" rest)

/-- The five entities that need no declaration. -/
def predefined? (name : Text) : Option Char :=
  [(("lt" : Text), '<'), ("gt", '>'), ("amp", '&'), ("quot", '"'), ("apos", '\'')].lookup name

/-- A character or a reference. -/
inductive Piece where
  | plain (c : Char)
  | reference (r : Reference)
  deriving DecidableEq, Repr

/-- The pieces of a text that is no longer than `fuel`. -/
def piecesAux? : Nat → Text → Option (List Piece)
  | _, [] => some []
  | 0, _ :: _ => none
  | fuel + 1, '&' :: rest => do
    let (r, rest) ← readReference? rest
    return .reference r :: (← piecesAux? fuel rest)
  | fuel + 1, c :: rest => do
    return .plain c :: (← piecesAux? fuel rest)

/-- The pieces of a text, when each ampersand in it begins a reference. -/
def pieces? (t : Text) : Option (List Piece) := piecesAux? t.length t

end Recast.Xml
