import Recast.Name
import Recast.TypeExpr.Basic

/-! # The text of types

Type expressions and declarations as interface code. Each level of records is
indented by two spaces; only the item of an array is ever put into parentheses.
-/

namespace Recast

/-- The keyword of a scalar type. -/
def Primitive.keyword : Primitive → Text
  | .string => "string"
  | .number => "number"
  | .boolean => "boolean"
  | .null => "null"

namespace TypeExpr

/-- The space at the start of a line. -/
def indent (depth : Nat) : Text := Text.copies (2 * depth) ' '

/-- The mark of a field that may be absent. -/
def optionalMark (optional : Bool) : Text := if optional then ['?'] else []

/-- Is the type made of several with an operator between them? -/
def isCombination : TypeExpr → Bool
  | .union _ | .intersection _ => true
  | _ => false

mutual
/-- The text of a type, at the depth of the enclosing block. -/
def render (depth : Nat) : TypeExpr → Text
  | .primitive kind => kind.keyword
  | .literal text => text
  | .unknown => "unknown"
  | .emptyRecord => "Record<string, unknown>"
  | .named name => name
  | .array item grouped =>
    if grouped || item.isCombination then '(' :: render depth item ++ [')', '[', ']']
    else render depth item ++ ['[', ']']
  | .union members => renderMembers depth " | " members
  | .intersection members => renderMembers depth " & " members
  | .record [] => ['{', '}']
  | .record fields =>
    '{' :: '\n' :: renderFields (depth + 1) fields ++ '\n' :: indent depth ++ ['}']

/-- Members with `separator` between neighbours. -/
def renderMembers (depth : Nat) (separator : Text) : List TypeExpr → Text
  | [] => []
  | [member] => render depth member
  | member :: members =>
    render depth member ++ separator ++ renderMembers depth separator members

/-- Fields, each on a line of its own. -/
def renderFields (depth : Nat) : List (Field TypeExpr) → Text
  | [] => []
  | [field] => renderField depth field
  | field :: fields => renderField depth field ++ '\n' :: renderFields depth fields

/-- The line of a field; its key is always quoted. -/
def renderField (depth : Nat) : Field TypeExpr → Text
  | ⟨key, type, optional⟩ =>
    indent depth ++ Json.quote key ++ optionalMark optional ++ ':' :: ' ' ::
      render depth type ++ [';']
end

theorem render_array (depth : Nat) (item : TypeExpr) (grouped : Bool) :
    render depth (.array item grouped) =
      if grouped || item.isCombination then '(' :: render depth item ++ [')', '[', ']']
      else render depth item ++ ['[', ']'] :=
  rfl

theorem render_record (depth : Nat) (field : Field TypeExpr) (fields : List (Field TypeExpr)) :
    render depth (.record (field :: fields)) =
      '{' :: '\n' :: renderFields (depth + 1) (field :: fields) ++
        '\n' :: indent depth ++ ['}'] :=
  rfl

end TypeExpr

namespace Declaration

/-- The line of a field; its key is bare when it is an identifier. -/
def renderField (field : Field TypeExpr) : Text :=
  TypeExpr.indent 1 ++ Name.property field.key ++ TypeExpr.optionalMark field.optional
    ++ ':' :: ' ' :: field.type.render 1

def render (declaration : Declaration) : Text :=
  let head : Text := "export interface " ++ declaration.name
  if declaration.fields.isEmpty then head ++ [' ', '{', '}']
  else
    head ++ ' ' :: '{' :: '\n' :: Text.join ['\n'] (declaration.fields.map renderField)
      ++ ['\n', '}']

end Declaration
end Recast
