import Recast.Json.Printer
import Recast.Text.Blank
import Recast.Text.Digit
import Recast.Xml.Element

/-! # Elements as JSON values

An element becomes an object: a key `@_name` for each attribute, a key for each
name of a child, and `#text`. One with nothing but text becomes that text, as a
number or boolean where it reads as one. Namespaces are left out.
-/

namespace Recast.Xml

/-- Why a text does not become a value. -/
inductive Error where
  | malformed
  /-- An integer with more digits than are converted. -/
  | tooManyDigits (count : Nat)
  | tooDeep
  deriving DecidableEq, Repr

def Error.message : Error → Text
  | .malformed => "Invalid XML input"
  | .tooManyDigits count => Json.tooManyDigitsMessage count
  | .tooDeep => "maximum recursion depth exceeded"

/-- Digits before the point, without needless zeros; those after the first may be of any
    script. -/
def isWhole : Text → Bool
  | ['0'] => true
  | c :: rest => '1' ≤ c && c ≤ '9' && rest.all Text.isDigit
  | [] => false

/-- The value of a text: a number, a boolean or the text itself. -/
def scalar (t : Text) : Except Error Json :=
  let (negative, body) : Bool × Text := match t with
    | '-' :: body => (true, body)
    | body => (false, body)
  let number (digits : Text) : Nat := Nat.ofDigitChars 10 (digits.map Text.toAsciiDigit) 0
  match Text.cutAt? '.' body with
  | none =>
    if isWhole body then
      if Json.maxDigits < body.length then .error (.tooManyDigits body.length)
      else .ok (.int (if negative then -(number body : Int) else number body))
    else if t = "true" then .ok (.bool true)
    else if t = "false" then .ok (.bool false)
    else .ok (.string t)
  | some (whole, fraction) =>
    if isWhole whole && !fraction.isEmpty && fraction.all Text.isDigit then
      .ok (.float (.ofDecimal negative (number (whole ++ fraction)) (-(fraction.length : Int))))
    else .ok (.string t)

def attributeKey (name : Name) : Text := "@_" ++ name.base

/-- An object that the values of children are put into. The keys in `lists` are those that
    hold the values of several children. -/
structure Gathering where
  members : List (Text × Json)
  lists : List Text := []

/-- One more value for a key. A second one makes a list of both, a later one goes to the end of
    the list. -/
def Gathering.add (g : Gathering) (key : Text) (value : Json) : Gathering :=
  match Json.find? key g.members, g.lists.elem key with
  | none, _ => { g with members := Json.put key value g.members }
  | some (.array items), true =>
    { g with members := Json.put key (.array (items ++ [value])) g.members }
  | some first, _ =>
    { members := Json.put key (.array [first, value]) g.members, lists := key :: g.lists }

/-- Put the values of children into the members that are there already. -/
def gather (members pairs : List (Text × Json)) : Gathering :=
  pairs.foldl (fun g (key, value) => g.add key value) { members }

namespace Element

/-- All the text directly inside an element, each piece without the white space around it. -/
def innerText (e : Element) : Text :=
  Text.trim e.text ++ e.children.flatMap fun (_, after) => Text.trim after

/-- Elements nest no deeper than this. -/
def maxDepth : Nat := 960

mutual
/-- The value of an element, in which elements nest at most `depth` deep. -/
def toJson (depth : Nat) : Element → Except Error Json
  | .mk name attributes text children =>
    match depth with
    | 0 => .error .tooDeep
    | depth + 1 =>
      let inner := innerText (.mk name attributes text children)
      if attributes.isEmpty && children.isEmpty then scalar inner
      else do
        let own := Json.ofPairs (attributes.map fun (name, value) =>
          (attributeKey name, .string value))
        let members := (gather own (← childValues depth children)).members
        if inner.isEmpty then return .object members
        else return .object (Json.put "#text" (← scalar inner) members)

/-- The values of children, under their names. -/
def childValues (depth : Nat) : List (Element × Text) → Except Error (List (Text × Json))
  | [] => .ok []
  | (child, _) :: rest => do
    let value ← child.toJson depth
    let pairs ← childValues depth rest
    return (child.name.base, value) :: pairs
end

end Element

/-- The document as an object whose only key is the name of the root. -/
def toJson (t : Text) : Except Error Json :=
  match Element.ofText? (Text.trim t) with
  | none => .error .malformed
  | some root => do
    let value ← root.toJson Element.maxDepth
    return .object [(root.name.base, value)]

end Recast.Xml
