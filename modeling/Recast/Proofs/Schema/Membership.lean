import Recast.Proofs.Schema.Form

/-! # The values of types

Which values belong to a type expression. The name of a definition stands for the type that
its schema converts to, however often the definitions lead back to each other. Where two
definitions have come to share a name, it stands for the type of either.
-/

namespace Recast.Schema

open Json

/-- Does the value have the scalar type? -/
def inPrimitive : Primitive → Json → Bool
  | .string, .string _ => true
  | .number, .int _ => true
  | .number, .float _ => true
  | .boolean, .bool _ => true
  | .null, .null => true
  | _, _ => false

/-- The value belongs to the type. An object of a record type may have other keys as well. -/
inductive Belongs (document : Json) : TypeExpr → Json → Prop
  | primitive {kind : Primitive} {v : Json} :
      inPrimitive kind v = true → Belongs document (.primitive kind) v
  | literal {w v : Json} : equalTo w v = true → Belongs document (literal w) v
  | unknown {v : Json} : Belongs document .unknown v
  | emptyRecord {members : List (Text × Json)} : Belongs document .emptyRecord (.object members)
  | named {d : Definition} {type : TypeExpr} {v : Json} :
      d ∈ definitions document → convert (definitions document) d.schema = .ok type →
      Belongs document type v → Belongs document (.named d.name) v
  | array {item : TypeExpr} {grouped : Bool} {items : List Json} :
      (∀ x ∈ items, Belongs document item x) → Belongs document (.array item grouped) (.array items)
  | union {types : List TypeExpr} {type : TypeExpr} {v : Json} :
      type ∈ types → Belongs document type v → Belongs document (.union types) v
  | intersection {types : List TypeExpr} {v : Json} :
      (∀ type ∈ types, Belongs document type v) → Belongs document (.intersection types) v
  | record {fields : List (Field TypeExpr)} {members : List (Text × Json)} :
      (∀ field ∈ fields, field.optional = false → (find? field.key members).isSome) →
      (∀ field ∈ fields, ∀ x, find? field.key members = some x → Belongs document field.type x) →
      Belongs document (.record fields) (.object members)

section

variable {document : Json} {types : List TypeExpr} {v : Json}

theorem mem_distinct {type : TypeExpr} : type ∈ TypeExpr.distinct types ↔ type ∈ types :=
  List.mem_eraseDups

/-- A member of one of the types is a member of their union. -/
theorem belongs_unionOf {type : TypeExpr} (member : type ∈ types)
    (belongs : Belongs document type v) : Belongs document (.unionOf types) v := by
  have kept := mem_distinct.mpr member
  unfold TypeExpr.unionOf
  split
  · exact .unknown
  · rename_i only single
    rw [single, List.mem_singleton] at kept
    exact kept ▸ belongs
  · exact .union kept belongs

/-- A member of a union of types is a member of one of them. -/
theorem belongs_of_unionOf (nonempty : types ≠ []) (belongs : Belongs document (.unionOf types) v) :
    ∃ type ∈ types, Belongs document type v := by
  unfold TypeExpr.unionOf at belongs
  split at belongs
  · rename_i empty
    obtain ⟨type, member⟩ := List.exists_mem_of_ne_nil types nonempty
    rw [← mem_distinct, empty] at member
    cases member
  · rename_i only single
    exact ⟨only, mem_distinct.mp (single ▸ List.mem_singleton_self only), belongs⟩
  · cases belongs with
    | union member belongs => exact ⟨_, mem_distinct.mp member, belongs⟩

/-- A member of all types is a member of their intersection. -/
theorem belongs_intersectionOf (all : ∀ type ∈ types, Belongs document type v) :
    Belongs document (.intersectionOf types) v := by
  have kept (type : TypeExpr) (member : type ∈ TypeExpr.distinct types) :
      Belongs document type v := all type (mem_distinct.mp member)
  unfold TypeExpr.intersectionOf
  split
  · exact .unknown
  · rename_i only single
    exact kept only (single ▸ List.mem_singleton_self only)
  · exact .intersection kept

end

/-! ## Scalars -/

/-- A value of a scalar kind belongs to the type that the kind becomes. -/
theorem belongs_scalarType {document : Json} {kind : Text} {v : Json}
    (scalar : kind ∈ scalarKinds) (has : hasKind kind v = true) :
    Belongs document ((scalarType? (.string kind)).getD .unknown) v := by
  simp only [scalarKinds, List.mem_cons, List.not_mem_nil, or_false] at scalar
  rcases scalar with rfl | rfl | rfl | rfl | rfl <;>
    cases v <;> first | exact .primitive rfl | cases has

/-- Every scalar kind has a value that is no array and no object. -/
theorem exists_hasKind {kind : Text} (scalar : kind ∈ scalarKinds) :
    ∃ v, hasKind kind v = true ∧ (∀ items, v ≠ .array items) ∧ ∀ members, v ≠ .object members := by
  simp only [scalarKinds, List.mem_cons, List.not_mem_nil, or_false] at scalar
  rcases scalar with rfl | rfl | rfl | rfl | rfl
  · exact ⟨.string [], rfl, nofun, nofun⟩
  · exact ⟨.int 0, rfl, nofun, nofun⟩
  · exact ⟨.int 0, rfl, nofun, nofun⟩
  · exact ⟨.bool false, rfl, nofun, nofun⟩
  · exact ⟨.null, rfl, nofun, nofun⟩

theorem array_of_hasKind {v : Json} (has : hasKind "array" v = true) :
    ∃ items, v = .array items := by
  cases v with
  | array items => exact ⟨items, rfl⟩
  | _ => cases has

theorem object_of_hasKind {v : Json} (has : hasKind "object" v = true) :
    ∃ members, v = .object members := by
  cases v with
  | object members => exact ⟨members, rfl⟩
  | _ => cases has

end Recast.Schema
