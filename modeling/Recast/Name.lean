import Recast.Json.Printer

/-! # Names in generated code

Type names are made of the words of a key; property names are written bare where
that is allowed. A pool hands out each base name once bare and then numbered.
-/

namespace Recast

namespace Name

/-- The runs of ASCII letters and digits of a text. -/
def words (t : Text) : List Text :=
  go [] t
where
  /-- `word` is the run being read, last character first. -/
  go (word : Text) : Text → List Text
    | [] => if word.isEmpty then [] else [word.reverse]
    | c :: rest =>
      if c.isAlphanum then go (c :: word) rest
      else if word.isEmpty then go [] rest
      else word.reverse :: go [] rest

/-- Put the first letter in upper case and leave the others. -/
def capitalize : Text → Text
  | [] => []
  | c :: rest => c.toUpper :: rest

/-- The words of a key, each capitalised, as one type name. A leading digit gets an
    underscore in front; a key without words has the name `fallback`. -/
def pascal (fallback key : Text) : Text :=
  match ((words key).map capitalize).flatten with
  | [] => fallback
  | c :: rest => if c.isDigit then '_' :: c :: rest else c :: rest

/-- The name of a document's main type. -/
def root : Text := "Root"

/-- A letter, an underscore or a dollar sign. -/
def startsIdentifier (c : Char) : Bool := c.isAlpha || c == '_' || c == '$'

def inIdentifier (c : Char) : Bool := startsIdentifier c || c.isDigit

/-- The text without one line feed at its end. -/
def withoutFinalNewline (t : Text) : Text :=
  if t.getLast? = some '\n' then t.dropLast else t

/-- Is the text an ASCII identifier? One line feed at the end is overlooked. -/
def isIdentifier (t : Text) : Bool :=
  match withoutFinalNewline t with
  | [] => false
  | c :: rest => startsIdentifier c && rest.all inIdentifier

/-- A property name: bare when it is an identifier, else quoted. -/
def property (key : Text) : Text :=
  if isIdentifier key then key else Json.quote key

end Name

/-- How often each base name has been claimed, in order of the first claim. -/
abbrev NamePool := List (Text × Nat)

namespace NamePool

/-- The number of claims of a base name so far. -/
def count (base : Text) (pool : NamePool) : Nat := (pool.lookup base).getD 0

def claimed (base : Text) (pool : NamePool) : Bool := (pool.lookup base).isSome

/-- Note one more claim. -/
def increment (base : Text) : NamePool → NamePool
  | [] => [(base, 1)]
  | (b, n) :: rest => if b = base then (b, n + 1) :: rest else (b, n) :: increment base rest

/-- The name for one more claim: the base itself the first time, then numbered from 2. -/
def claim (base : Text) (pool : NamePool) : Text × NamePool :=
  let before := pool.count base
  (if before = 0 then base else base ++ Text.ofNat (before + 1), pool.increment base)

end NamePool
end Recast
