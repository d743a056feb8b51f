import Recast.Json.Basic
import Recast.TypeExpr.Render

/-! # Types of samples

The type of a sample value, once as a single expression with all records written
out, and once with a declaration for every object inside it.
-/

namespace Recast.TypeExpr

def ofScalar : Json → TypeExpr
  | .null => .primitive .null
  | .bool _ => .primitive .boolean
  | .int _ | .float _ => .primitive .number
  | .string _ => .primitive .string
  | .array _ | .object _ => .unknown

mutual
def ofValue : Json → TypeExpr
  | .array [] => .array .unknown false
  | .array items => .array (unionOf (ofItems items)) false
  | .object [] => .emptyRecord
  | .object members => .record (ofMembers members)
  | v => ofScalar v

def ofItems : List Json → List TypeExpr
  | [] => []
  | item :: items => ofValue item :: ofItems items

def ofMembers : List (Text × Json) → List (Field TypeExpr)
  | [] => []
  | (key, value) :: members => { key := key, type := ofValue value } :: ofMembers members
end

/-- The names given so far and the declarations made so far, in order. -/
structure Lifting where
  pool : NamePool := []
  declarations : List Declaration := []
  deriving Repr

def itemName (name : Text) : Text := name ++ "Item"

mutual
/-- The type of a value known as `name`, where each object becomes a declaration. The name
    of an object is claimed before its children are visited, and the declaration is made
    after theirs. -/
def lift (name : Text) (state : Lifting) : Json → TypeExpr × Lifting
  | .array [] => (.array .unknown false, state)
  | .array items =>
    let (types, state) := liftItems (itemName name) state items
    (.array (unionOf types) false, state)
  | .object members =>
    let (unique, pool) := state.pool.claim (Name.pascal Name.root name)
    let (fields, state) := liftMembers { state with pool } members
    (.named unique,
      { state with declarations := state.declarations ++ [{ name := unique, fields }] })
  | v => (ofScalar v, state)

def liftItems (name : Text) (state : Lifting) : List Json → List TypeExpr × Lifting
  | [] => ([], state)
  | item :: items =>
    let (type, state) := lift name state item
    let (types, state) := liftItems name state items
    (type :: types, state)

def liftMembers (state : Lifting) : List (Text × Json) → List (Field TypeExpr) × Lifting
  | [] => ([], state)
  | (key, value) :: members =>
    let (type, state) := lift key state value
    let (fields, state) := liftMembers state members
    ({ key, type } :: fields, state)
end

/-- The declarations of an object: its own first, then those of the objects inside it, each
    after the ones that it refers to. -/
def declarationsOf (members : List (Text × Json)) : List Declaration :=
  let (name, pool) := NamePool.claim Name.root []
  let (fields, state) := liftMembers { pool } members
  { name, fields } :: state.declarations

/-- What a sample is described by. -/
structure Description where
  root : Text
  declarations : List Text
  deriving DecidableEq, Repr

/-- An object is described by declarations, any other value by a type expression. -/
def describe : Json → Description
  | .object members =>
    { root := Name.root, declarations := (declarationsOf members).map Declaration.render }
  | v => { root := (ofValue v).render 0, declarations := [] }

def codeOfSample (v : Json) : Text :=
  let description := describe v
  if description.declarations.isEmpty then
    ("export type Root = " : Text) ++ description.root ++ [';', '\n']
  else Text.join ['\n', '\n'] description.declarations ++ ['\n']

end Recast.TypeExpr
