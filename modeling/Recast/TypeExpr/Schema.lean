import Recast.TypeExpr.Inference

/-! # Types of schemas

A schema document describes values by keywords. Each schema becomes one type
expression; references lead to the document's own definitions.
-/

namespace Recast

/-- A keyword that combines subschemas without being given a list of schemas. -/
structure MalformedCombinator where
  keyword : Text
  deriving DecidableEq, Repr

def MalformedCombinator.message (e : MalformedCombinator) : Text :=
  '\'' :: e.keyword ++ "' must be a list of schemas."

namespace Schema

/-- A document with one of these keys is taken for a schema. -/
def keywords : List Text :=
  ["$schema", "type", "properties", "required", "items",
    "$defs", "definitions", "allOf", "anyOf", "oneOf", "enum"]

/-- The keys under which a document holds its definitions. -/
def containers : List Text := ["$defs", "definitions"]

/-- Is the value an object with a schema keyword? -/
def looksLikeSchema : Json → Bool
  | .object members => keywords.any fun key => (Json.find? key members).isSome
  | _ => false

/-- A definition: its key, its type name and its schema. -/
structure Definition where
  key : Text
  name : Text
  schema : Json
  deriving Repr

/-- The schemas under both containers; of two with one key the first counts. -/
def definitionSchemas (document : Json) : List (Text × Json) :=
  containers.foldl (fun found container =>
    match document.get? container with
    | some (.object members) =>
      members.foldl (fun found (key, schema) =>
        if (found.lookup key).isSome then found else found ++ [(key, schema)]) found
    | _ => found) []

/-- Give each schema a type name of its own. -/
def nameDefinitions (pool : NamePool) : List (Text × Json) → List Definition
  | [] => []
  | (key, schema) :: rest =>
    let (name, pool) := pool.claim (Name.pascal Name.root key)
    { key, name, schema } :: nameDefinitions pool rest

/-- The definitions of a document, none of them named like the document itself. -/
def definitions (document : Json) : List Definition :=
  nameDefinitions (NamePool.claim Name.root []).2 (definitionSchemas document)

def literal (v : Json) : TypeExpr := .literal v.spaced

/-- The key that a token of a pointer stands for. -/
def unescapeToken (token : Text) : Text :=
  Text.replace "~0" "~" (Text.replace "~1" "/" token)

/-- The type that a reference leads to: the document, one of its definitions, or unknown. -/
def resolve (defs : List Definition) : Json → TypeExpr
  | .string ref =>
    if ref = "#" then .named Name.root
    else match Text.after? "#/" ref with
      | none => .unknown
      | some path =>
        match Text.splitOn '/' path with
        | [container, token] =>
          if container ∈ containers then
            match defs.find? fun d => d.key = unescapeToken token with
            | some d => .named d.name
            | none => .unknown
          else .unknown
        | _ => .unknown
  | _ => .unknown

def scalarType? : Json → Option TypeExpr
  | .string t =>
    if t = "string" then some (.primitive .string)
    else if t = "number" || t = "integer" then some (.primitive .number)
    else if t = "boolean" then some (.primitive .boolean)
    else if t = "null" then some (.primitive .null)
    else none
  | _ => none

def requiredKeys (members : List (Text × Json)) : List Text :=
  match Json.find? "required" members with
  | some (.array items) => items.filterMap fun
    | .string key => some key
    | _ => none
  | _ => []

/-- May the value stand in a list of schemas? -/
def isSchema : Json → Bool
  | .object _ | .bool _ => true
  | _ => false

theorem sizeOf_lt_of_find? {key : Text} {members : List (Text × Json)} {v : Json}
    (h : Json.find? key members = some v) : sizeOf v < sizeOf members := by
  induction members with
  | nil => simp [Json.find?] at h
  | cons m rest ih =>
    obtain ⟨k, w⟩ := m
    rw [Json.find?, List.lookup_cons] at h
    split at h
    · cases h
      simp
      omega
    · have := ih h
      simp
      omega

mutual
/-- The type of a schema. Of several keywords only the first of this order counts: a list
    under `enum`, `$ref`, `const`, `anyOf`, `oneOf`, `allOf`, and then `type`. -/
def convert (defs : List Definition) (schema : Json) : Except MalformedCombinator TypeExpr :=
  match schema with
  | .object members =>
    match Json.find? "enum" members with
    | some (.array values) => .ok (.unionOf (values.map literal))
    | _ =>
    match Json.find? "$ref" members with
    | some ref => .ok (resolve defs ref)
    | none =>
    match Json.find? "const" members with
    | some v => .ok (literal v)
    | none =>
    match _h : Json.find? "anyOf" members with
    | some list => (convertList defs "anyOf" list).map .unionOf
    | none =>
    match _h : Json.find? "oneOf" members with
    | some list => (convertList defs "oneOf" list).map .unionOf
    | none =>
    match _h : Json.find? "allOf" members with
    | some list => (convertList defs "allOf" list).map .intersectionOf
    | none =>
    match Json.find? "type" members with
    | some (.array kinds) => (convertKinds defs members kinds).map .unionOf
    | some kind => convertKind defs members kind
    | none => convertKind defs members .null
  | _ => .ok .unknown
termination_by (sizeOf schema, 0, 0)
decreasing_by
  all_goals apply Prod.Lex.left
  all_goals try have := sizeOf_lt_of_find? _h
  all_goals simp
  all_goals omega

/-- The types of a list of schemas, which `keyword` combines. -/
def convertList (defs : List Definition) (keyword : Text) (list : Json) :
    Except MalformedCombinator (List TypeExpr) :=
  match list with
  | .array schemas =>
    if schemas.all isSchema then convertAll defs schemas else .error ⟨keyword⟩
  | _ => .error ⟨keyword⟩
termination_by (sizeOf list, 1, 0)

def convertAll (defs : List Definition) (schemas : List Json) :
    Except MalformedCombinator (List TypeExpr) :=
  match schemas with
  | [] => .ok []
  | schema :: rest => do
    let type ← convert defs schema
    let types ← convertAll defs rest
    return type :: types
termination_by (sizeOf schemas, 0, 0)

/-- The types of a schema for each kind of a type list. -/
def convertKinds (defs : List Definition) (members : List (Text × Json)) (kinds : List Json) :
    Except MalformedCombinator (List TypeExpr) :=
  match kinds with
  | [] => .ok []
  | kind :: rest => do
    let type ← convertKind defs members kind
    let types ← convertKinds defs members rest
    return type :: types
termination_by (sizeOf members, 2, kinds.length)

/-- The type of a schema for one kind, null standing for no kind at all. -/
def convertKind (defs : List Definition) (members : List (Text × Json)) (kind : Json) :
    Except MalformedCombinator TypeExpr :=
  if kind = .string "array" then convertArray defs members
  else if kind = .string "object" || (Json.find? "properties" members).isSome then
    convertObject defs members
  else if kind = .null && (Json.find? "items" members).isSome then convertArray defs members
  else .ok ((scalarType? kind).getD .unknown)
termination_by (sizeOf members, 1, 0)

/-- An array type. A list of item schemas allows each of them anywhere. -/
def convertArray (defs : List Definition) (members : List (Text × Json)) :
    Except MalformedCombinator TypeExpr :=
  match _h : Json.find? "items" members with
  | none => .ok (.array .unknown true)
  | some (.array schemas) => do
    let types ← convertAll defs schemas
    return .array (.unionOf types) true
  | some schema => do
    let type ← convert defs schema
    return .array type true
termination_by (sizeOf members, 0, 0)
decreasing_by
  all_goals have := sizeOf_lt_of_find? _h
  all_goals apply Prod.Lex.left
  all_goals simp at *
  all_goals omega

/-- A record type. Fields that are not required may be absent. -/
def convertObject (defs : List Definition) (members : List (Text × Json)) :
    Except MalformedCombinator TypeExpr :=
  match _h : Json.find? "properties" members with
  | some (.object properties) => do
    let fields ← convertFields defs (requiredKeys members) properties
    return .record fields
  | _ => .ok (.record [])
termination_by (sizeOf members, 0, 0)
decreasing_by
  have := sizeOf_lt_of_find? _h
  apply Prod.Lex.left
  simp at *
  omega

def convertFields (defs : List Definition) (required : List Text)
    (properties : List (Text × Json)) : Except MalformedCombinator (List (Field TypeExpr)) :=
  match properties with
  | [] => .ok []
  | (key, schema) :: rest => do
    let type ← convert defs schema
    let fields ← convertFields defs required rest
    return { key, type, optional := key ∉ required } :: fields
termination_by (sizeOf properties, 0, 0)
end

/-- `export interface Root` or `export type Root` for a schema document, followed by one
    type for each definition. -/
def codeOfDocument (document : Json) : Except MalformedCombinator Text := do
  let defs := definitions document
  let type ← convert defs document
  let head : Text := match type with
    | .record _ => "export interface Root " ++ type.render 0
    | _ => "export type Root = " ++ type.render 0 ++ [';']
  let others ← defs.mapM fun d => do
    let type ← convert defs d.schema
    return ("export type " : Text) ++ d.name ++ " = " ++ type.render 0 ++ [';']
  return Text.join ['\n', '\n'] (head :: others) ++ ['\n']

/-- `export interface Root` for plain data; what is no record becomes its only field. -/
def codeOfData (v : Json) : Text :=
  let type := TypeExpr.ofValue v
  match type with
  | .record _ => ("export interface Root " : Text) ++ type.render 0 ++ ['\n']
  | _ =>
    ("export interface Root " : Text) ++ '{' :: '\n' :: "  value: " ++ type.render 1
      ++ [';', '\n', '}', '\n']

/-- The interface code for a schema document, or for a value that is none. -/
def code (v : Json) : Except MalformedCombinator Text :=
  if looksLikeSchema v then codeOfDocument v else .ok (codeOfData v)

end Schema
end Recast
