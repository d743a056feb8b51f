import Recast.Name
import Recast.TypeExpr.Render

/-! # Validators of samples

A validator expression describes one sample value. An array is described by its
first item alone, and a whole number is an integer in either notation.
-/

namespace Recast

/-- A validator expression. -/
inductive Validator where
  | null
  | boolean
  | number
  | integer
  | string
  | unknown
  | array (item : Validator)
  | object (fields : List (Text × Validator))
  deriving Repr, Inhabited

namespace Validator

mutual
def ofValue : Json → Validator
  | .null => .null
  | .bool _ => .boolean
  | .int _ => .integer
  | .float x => if x.isIntegral then .integer else .number
  | .string _ => .string
  | .array [] => .array .unknown
  | .array (item :: _) => .array (ofValue item)
  | .object members => .object (ofMembers members)

def ofMembers : List (Text × Json) → List (Text × Validator)
  | [] => []
  | (key, value) :: members => (key, ofValue value) :: ofMembers members
end

mutual
def render (depth : Nat) : Validator → Text
  | .null => "z.null()"
  | .boolean => "z.boolean()"
  | .number => "z.number()"
  | .integer => "z.number().int()"
  | .string => "z.string()"
  | .unknown => "z.unknown()"
  | .array item => "z.array(" ++ render depth item ++ [')']
  | .object [] => "z.object(" ++ ['{', '}', ')']
  | .object fields =>
    "z.object(" ++ '{' :: '\n' :: renderFields (depth + 1) fields ++ ',' :: '\n' ::
      TypeExpr.indent depth ++ ['}', ')']

/-- Fields, each on a line of its own. -/
def renderFields (depth : Nat) : List (Text × Validator) → Text
  | [] => []
  | [field] => renderField depth field
  | field :: fields => renderField depth field ++ ',' :: '\n' :: renderFields depth fields

def renderField (depth : Nat) : Text × Validator → Text
  | (key, value) => TypeExpr.indent depth ++ Name.property key ++ ':' :: ' ' :: render depth value
end

theorem render_array (depth : Nat) (item : Validator) :
    render depth (.array item) = "z.array(".toList ++ render depth item ++ [')'] :=
  rfl

theorem render_object (depth : Nat) (field : Text × Validator) (fields : List (Text × Validator)) :
    render depth (.object (field :: fields)) =
      "z.object(".toList ++ '{' :: '\n' :: renderFields (depth + 1) (field :: fields) ++ ',' ::
        '\n' :: TypeExpr.indent depth ++ ['}', ')'] :=
  rfl

theorem renderFields_cons (depth : Nat) (field next : Text × Validator)
    (fields : List (Text × Validator)) :
    renderFields depth (field :: next :: fields) =
      renderField depth field ++ ',' :: '\n' :: renderFields depth (next :: fields) :=
  rfl

theorem renderField_eq (depth : Nat) (key : Text) (value : Validator) :
    renderField depth (key, value) =
      TypeExpr.indent depth ++ Name.property key ++ ':' :: ' ' :: render depth value :=
  rfl

/-- The module text that declares the validator of a sample. -/
def codeOfSample (v : Json) : Text :=
  "import " ++ ['{', ' ', 'z', ' ', '}'] ++ " from \"zod\";\n\nconst schema = "
    ++ render 0 (ofValue v) ++ ";\n\ntype Schema = z.infer<typeof schema>;"

end Validator
end Recast
