import Recast.Xml.Node

/-! # Elements

The tree of a document with its namespaces resolved: scopes are replaced by the
namespaces that they stand for, and their declarations are no attributes.
-/

namespace Recast.Xml

/-- The name of an element or attribute. The space is empty for a name in no namespace. -/
structure Name where
  space : Text
  base : Text
  deriving DecidableEq, Repr, Inhabited

/-- An element: its text up to the first child, and its children, each with the text that
    follows it. -/
inductive Element where
  | mk (name : Name) (attributes : List (Name × Text)) (text : Text)
      (children : List (Element × Text))
  deriving Repr, Inhabited

namespace Element

def name : Element → Name
  | .mk name _ _ _ => name

def attributes : Element → List (Name × Text)
  | .mk _ attributes _ _ => attributes

/-- The text up to the first child. -/
def text : Element → Text
  | .mk _ _ text _ => text

def children : Element → List (Element × Text)
  | .mk _ _ _ children => children

end Element

/-! ## Namespaces -/

/-- The namespaces that scopes stand for; the empty scope is the one of bare element names. -/
abbrev Scopes := List (Text × Text)

/-- The namespace of the scope `xml`. -/
def xmlSpace : Text := Text.join "/" ["http:", "", "www.w3.org", "XML", "1998", "namespace"]

/-- The namespace of declarations of scopes, which no scope may stand for. -/
def declarationSpace : Text := Text.join "/" ["http:", "", "www.w3.org", "2000", "xmlns", ""]

/-- The scope that an attribute declares, if it is a declaration. -/
def declaredScope? (label : Label) : Option Text :=
  if label.scope = "xmlns" then some label.base
  else if label = ⟨[], "xmlns"⟩ then some []
  else none

/-- Let a scope stand for a namespace. Only the empty scope can be without one, `xmlns` is
    no scope, and `xml` belongs to its own namespace and to no other. -/
def bindScope? (scopes : Scopes) (scope space : Text) : Option Scopes :=
  if !scope.isEmpty && space.isEmpty then none
  else if scope = "xmlns" || space = declarationSpace then none
  else if (scope == "xml") != (space == xmlSpace) then none
  else if space.any (· = '}') then none
  else some ((scope, space) :: scopes)

def bindScopes? (scopes : Scopes) (attributes : List (Label × Text)) : Option Scopes :=
  attributes.foldlM (fun scopes (label, value) =>
    match declaredScope? label with
    | some scope => bindScope? scopes scope value
    | none => some scopes) scopes

def elementName? (scopes : Scopes) (label : Label) : Option Name :=
  match scopes.lookup label.scope with
  | some space => some ⟨space, label.base⟩
  | none => if label.scope.isEmpty then some ⟨[], label.base⟩ else none

/-- The name that the label of an attribute stands for: without a scope it has no space. -/
def attributeName? (scopes : Scopes) (label : Label) : Option Name :=
  if label.scope.isEmpty then some ⟨[], label.base⟩ else elementName? scopes label

def areDistinct : List Name → Bool
  | [] => true
  | name :: rest => !rest.elem name && areDistinct rest

/-- The attributes that are no declarations, under names that differ. -/
def resolveAttributes? (scopes : Scopes) (attributes : List (Label × Text)) :
    Option (List (Name × Text)) := do
  let plain := attributes.filter fun (label, _) => (declaredScope? label).isNone
  let named ← plain.mapM fun (label, value) => do
    return (← attributeName? scopes label, value)
  if areDistinct (named.map (·.1)) then return named else none

mutual
/-- The element that a node is, within scopes; nothing for a text. -/
def resolve? (scopes : Scopes) : Node → Option (Option Element)
  | .text _ => some none
  | .element label attributes nodes => do
    let scopes ← bindScopes? scopes attributes
    let name ← elementName? scopes label
    let attributes ← resolveAttributes? scopes attributes
    let (text, children) ← resolveAll? scopes nodes
    return some (.mk name attributes text children)

/-- The text before the first element among nodes, and the elements with the texts after
    them. -/
def resolveAll? (scopes : Scopes) : List Node → Option (Text × List (Element × Text))
  | [] => some ([], [])
  | node :: nodes => do
    let element? ← resolve? scopes node
    let (text, children) ← resolveAll? scopes nodes
    match element?, node with
    | some element, _ => return ([], (element, text) :: children)
    | none, .text t => return (t ++ text, children)
    | none, _ => return (text, children)
end

/-- The root element of a document. -/
def Element.ofText? (t : Text) : Option Element := do
  let root ← readDocument? t
  (← resolve? [("xml", xmlSpace)] root)

end Recast.Xml
