import Recast.Text.Basic

/-! # Type expressions

The types that samples and schemas are described by. Unions and intersections
drop members that are the same as an earlier one.
-/

namespace Recast

/-- The four types of scalars. -/
inductive Primitive where
  | string
  | number
  | boolean
  | null
  deriving DecidableEq, Repr

/-- A field of a record. -/
structure Field (τ : Type) where
  key : Text
  type : τ
  optional : Bool := false
  deriving Repr

/-- A type expression. -/
inductive TypeExpr where
  | primitive (kind : Primitive)
  /-- The type of one value, given by its text. -/
  | literal (text : Text)
  | unknown
  | emptyRecord
  /-- A reference to a declaration. -/
  | named (name : Text)
  /-- `grouped` arrays always have parentheses around the item. -/
  | array (item : TypeExpr) (grouped : Bool)
  | union (members : List TypeExpr)
  | intersection (members : List TypeExpr)
  | record (fields : List (Field TypeExpr))
  deriving Repr, Inhabited

/-- A record type with a name of its own. -/
structure Declaration where
  name : Text
  fields : List (Field TypeExpr)
  deriving Repr

namespace TypeExpr

mutual
def same : TypeExpr → TypeExpr → Bool
  | .primitive a, .primitive b => a == b
  | .literal a, .literal b => a == b
  | .unknown, .unknown => true
  | .emptyRecord, .emptyRecord => true
  | .named a, .named b => a == b
  | .array a g, .array b h => same a b && g == h
  | .union as, .union bs => sameMembers as bs
  | .intersection as, .intersection bs => sameMembers as bs
  | .record as, .record bs => sameFields as bs
  | _, _ => false

def sameMembers : List TypeExpr → List TypeExpr → Bool
  | [], [] => true
  | a :: as, b :: bs => same a b && sameMembers as bs
  | _, _ => false

def sameFields : List (Field TypeExpr) → List (Field TypeExpr) → Bool
  | [], [] => true
  | ⟨k, a, o⟩ :: as, ⟨l, b, p⟩ :: bs => k == l && same a b && o == p && sameFields as bs
  | _, _ => false
end

mutual
theorem same_iff : ∀ a b : TypeExpr, same a b = true ↔ a = b
  | .primitive _, b => by cases b <;> simp [same]
  | .literal _, b => by cases b <;> simp [same]
  | .unknown, b => by cases b <;> simp [same]
  | .emptyRecord, b => by cases b <;> simp [same]
  | .named _, b => by cases b <;> simp [same]
  | .array a _, b => by
    cases b with
    | array b _ => simp [same, same_iff a b]
    | _ => simp [same]
  | .union as, b => by
    cases b with
    | union bs => simp [same, sameMembers_iff as bs]
    | _ => simp [same]
  | .intersection as, b => by
    cases b with
    | intersection bs => simp [same, sameMembers_iff as bs]
    | _ => simp [same]
  | .record as, b => by
    cases b with
    | record bs => simp [same, sameFields_iff as bs]
    | _ => simp [same]

theorem sameMembers_iff : ∀ as bs : List TypeExpr, sameMembers as bs = true ↔ as = bs
  | [], bs => by cases bs <;> simp [sameMembers]
  | a :: as, bs => by
    cases bs with
    | nil => simp [sameMembers]
    | cons b bs => simp [sameMembers, same_iff a b, sameMembers_iff as bs]

theorem sameFields_iff : ∀ as bs : List (Field TypeExpr), sameFields as bs = true ↔ as = bs
  | [], bs => by cases bs <;> simp [sameFields]
  | ⟨k, a, o⟩ :: as, bs => by
    cases bs with
    | nil => simp [sameFields]
    | cons b bs =>
      obtain ⟨l, b, p⟩ := b
      simp [sameFields, same_iff a b, sameFields_iff as bs, and_assoc]
end

instance : DecidableEq TypeExpr := fun a b =>
  decidable_of_iff _ (same_iff a b)

/-- The expressions without those that are the same as an earlier one. -/
def distinct (types : List TypeExpr) : List TypeExpr := types.eraseDups

/-- The union of some types: unknown when there is none, the type itself when there is one. -/
def unionOf (types : List TypeExpr) : TypeExpr :=
  match distinct types with
  | [] => .unknown
  | [type] => type
  | members => .union members

/-- The intersection of some types, by the same rules as `unionOf`. -/
def intersectionOf (types : List TypeExpr) : TypeExpr :=
  match distinct types with
  | [] => .unknown
  | [type] => type
  | members => .intersection members

end TypeExpr
end Recast
