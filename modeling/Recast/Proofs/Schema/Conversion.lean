import Recast.Proofs.Outcome
import Recast.Proofs.Schema.Reference

/-! # What schemas convert to

The type of each form of schema in terms of the types of its parts. A document whose
nodes all have one of these forms converts without an error.
-/

namespace Recast.Schema

open Json

/-! ## Forms -/

/-- None of the keys is there. -/
def Lacks (keys : List Text) (members : List (Text × Json)) : Prop :=
  ∀ key ∈ keys, find? key members = none

instance (keys : List Text) (members : List (Text × Json)) : Decidable (Lacks keys members) :=
  inferInstanceAs (Decidable (∀ key ∈ keys, find? key members = none))

section

variable {defs : List Definition} {members : List (Text × Json)}

theorem convert_enum {values : List Json} (h : find? "enum" members = some (.array values)) :
    convert defs (.object members) = .ok (.unionOf (values.map literal)) := by
  rw [convert]
  simp only [h]

theorem convert_ref {ref : Json} (lacks : Lacks ["enum"] members)
    (h : find? "$ref" members = some ref) :
    convert defs (.object members) = .ok (resolve defs ref) := by
  have enum := lacks "enum" (by simp)
  rw [convert]
  simp only [enum, h]

theorem convert_const {v : Json} (lacks : Lacks ["enum", "$ref"] members)
    (h : find? "const" members = some v) :
    convert defs (.object members) = .ok (literal v) := by
  have enum := lacks "enum" (by simp)
  have ref := lacks "$ref" (by simp)
  rw [convert]
  simp only [enum, ref, h]

/-- The keywords that go before `type`. -/
def dispatched : List Text := ["enum", "$ref", "const", "anyOf", "oneOf", "allOf"]

/-- The union of the types that are named, or the type for no name at all. -/
def convertTypes (defs : List Definition) (members : List (Text × Json)) :
    Except MalformedCombinator TypeExpr :=
  match find? "type" members with
  | some (.array kinds) => (convertKinds defs members kinds).map .unionOf
  | some kind => convertKind defs members kind
  | none => convertKind defs members .null

/-- What the combinators and types come to, when no other keyword goes before them. -/
theorem convert_of_lacks (lacks : Lacks ["enum", "$ref", "const"] members) :
    convert defs (.object members) =
      match find? "anyOf" members with
      | some list => (convertList defs "anyOf" list).map .unionOf
      | none =>
      match find? "oneOf" members with
      | some list => (convertList defs "oneOf" list).map .unionOf
      | none =>
      match find? "allOf" members with
      | some list => (convertList defs "allOf" list).map .intersectionOf
      | none => convertTypes defs members := by
  have enum := lacks "enum" (by simp)
  have ref := lacks "$ref" (by simp)
  have const := lacks "const" (by simp)
  rw [convert]
  simp only [enum, ref, const]
  split
  · rename_i anyOf
    rw [anyOf]
  rename_i anyOf
  rw [anyOf]
  split
  · rename_i oneOf
    rw [oneOf]
  rename_i oneOf
  rw [oneOf]
  split
  · rename_i allOf
    rw [allOf]
  rename_i allOf
  rw [allOf]
  rfl

theorem Lacks.mono {keys keys' : List Text} (lacks : Lacks keys' members)
    (fewer : ∀ key ∈ keys, key ∈ keys') : Lacks keys members :=
  fun key member => lacks key (fewer key member)

theorem convert_anyOf {list : Json} (lacks : Lacks ["enum", "$ref", "const"] members)
    (h : find? "anyOf" members = some list) :
    convert defs (.object members) = (convertList defs "anyOf" list).map .unionOf := by
  rw [convert_of_lacks lacks, h]

theorem convert_oneOf {list : Json} (lacks : Lacks ["enum", "$ref", "const", "anyOf"] members)
    (h : find? "oneOf" members = some list) :
    convert defs (.object members) = (convertList defs "oneOf" list).map .unionOf := by
  have anyOf := lacks "anyOf" (by simp)
  rw [convert_of_lacks (lacks.mono (by simp)), anyOf, h]

theorem convert_allOf {list : Json}
    (lacks : Lacks ["enum", "$ref", "const", "anyOf", "oneOf"] members)
    (h : find? "allOf" members = some list) :
    convert defs (.object members) = (convertList defs "allOf" list).map .intersectionOf := by
  have anyOf := lacks "anyOf" (by simp)
  have oneOf := lacks "oneOf" (by simp)
  rw [convert_of_lacks (lacks.mono (by simp)), anyOf, oneOf, h]

theorem convert_typed (lacks : Lacks dispatched members) :
    convert defs (.object members) = convertTypes defs members := by
  have anyOf := lacks "anyOf" (by simp [dispatched])
  have oneOf := lacks "oneOf" (by simp [dispatched])
  have allOf := lacks "allOf" (by simp [dispatched])
  rw [convert_of_lacks (lacks.mono (by simp [dispatched])), anyOf, oneOf, allOf]

/-! ## Lists -/

theorem convertAll_eq_mapM (schemas : List Json) :
    convertAll defs schemas = schemas.mapM (convert defs) := by
  induction schemas with
  | nil => rw [convertAll]; rfl
  | cons schema rest ih => rw [convertAll, ih, List.mapM_cons]

theorem convertKinds_eq_mapM (kinds : List Json) :
    convertKinds defs members kinds = kinds.mapM (convertKind defs members) := by
  induction kinds with
  | nil => rw [convertKinds]; rfl
  | cons kind rest ih => rw [convertKinds, ih, List.mapM_cons]

/-- The field that a property becomes. -/
def convertField (defs : List Definition) (required : List Text) (property : Text × Json) :
    Except MalformedCombinator (Field TypeExpr) :=
  (convert defs property.2).map fun type =>
    { key := property.1, type, optional := property.1 ∉ required }

theorem convertFields_eq_mapM (required : List Text) (properties : List (Text × Json)) :
    convertFields defs required properties = properties.mapM (convertField defs required) := by
  induction properties with
  | nil => rw [convertFields]; rfl
  | cons property rest ih =>
      rw [convertFields, ih, List.mapM_cons, convertField]
      cases convert defs property.2 <;> rfl

theorem convertAll_eq_ok {schemas : List Json} {types : List TypeExpr} :
    convertAll defs schemas = .ok types ↔
      List.Forall₂ (fun schema type => convert defs schema = .ok type) schemas types := by
  rw [convertAll_eq_mapM, mapM_eq_ok]

theorem convertKinds_eq_ok {kinds : List Json} {types : List TypeExpr} :
    convertKinds defs members kinds = .ok types ↔
      List.Forall₂ (fun kind type => convertKind defs members kind = .ok type) kinds types := by
  rw [convertKinds_eq_mapM, mapM_eq_ok]

theorem convertFields_eq_ok {required : List Text} {properties : List (Text × Json)}
    {fields : List (Field TypeExpr)} :
    convertFields defs required properties = .ok fields ↔
      List.Forall₂ (fun property field => convertField defs required property = .ok field)
        properties fields := by
  rw [convertFields_eq_mapM, mapM_eq_ok]

theorem convertField_eq_ok {required : List Text} {property : Text × Json}
    {field : Field TypeExpr} :
    convertField defs required property = .ok field ↔
      convert defs property.2 = .ok field.type ∧ field.key = property.1 ∧
        field.optional = decide (property.1 ∉ required) := by
  obtain ⟨key, type, optional⟩ := field
  rw [convertField, map_eq_ok]
  constructor
  · rintro ⟨type, converted, same⟩
    cases same
    exact ⟨converted, rfl, rfl⟩
  · rintro ⟨converted, rfl, rfl⟩
    exact ⟨type, converted, rfl⟩

/-- A list of things that each have a counterpart has a list of counterparts. -/
theorem exists_forall₂ {α β : Type} {R : α → β → Prop} {xs : List α}
    (h : ∀ x ∈ xs, ∃ y, R x y) : ∃ ys, List.Forall₂ R xs ys := by
  induction xs with
  | nil => exact ⟨[], .nil⟩
  | cons x xs ih =>
      rw [List.forall_mem_cons] at h
      obtain ⟨y, here⟩ := h.1
      obtain ⟨ys, later⟩ := ih h.2
      exact ⟨y :: ys, .cons here later⟩

theorem exists_of_forall₂_left {α β : Type} {R : α → β → Prop} {xs : List α} {ys : List β}
    (h : List.Forall₂ R xs ys) {x : α} (member : x ∈ xs) : ∃ y ∈ ys, R x y := by
  induction h with
  | nil => cases member
  | cons here _ ih =>
      rcases List.mem_cons.mp member with rfl | later
      · exact ⟨_, List.mem_cons_self, here⟩
      · obtain ⟨y, found, related⟩ := ih later
        exact ⟨y, List.mem_cons_of_mem _ found, related⟩

theorem exists_of_forall₂_right {α β : Type} {R : α → β → Prop} {xs : List α} {ys : List β}
    (h : List.Forall₂ R xs ys) {y : β} (member : y ∈ ys) : ∃ x ∈ xs, R x y :=
  exists_of_forall₂_left h.flip member

/-! ## Kinds -/

theorem convertKind_array :
    convertKind defs members (.string "array") = convertArray defs members := by
  rw [convertKind, if_pos rfl]

/-- Properties make a record of every kind but arrays. -/
theorem convertKind_object {kind : Json} (other : kind ≠ .string "array")
    (h : kind = .string "object" ∨ (find? "properties" members).isSome) :
    convertKind defs members kind = convertObject defs members := by
  have object : (kind = .string "object" || (find? "properties" members).isSome) = true := by
    simpa using h
  rw [convertKind, if_neg other, if_pos object]

theorem convertKind_scalar {kind : Text} (array : kind ≠ "array") (object : kind ≠ "object")
    (lacks : find? "properties" members = none) :
    convertKind defs members (.string kind) =
      .ok ((scalarType? (.string kind)).getD .unknown) := by
  have other : Json.string kind ≠ .string "array" := fun same => array (Json.string.inj same)
  have record : ¬ (Json.string kind = .string "object" || (none : Option Json).isSome) = true := by
    simpa using fun same => object same
  have named : ¬ (Json.string kind = .null && (find? "items" members).isSome) = true := by simp
  rw [convertKind, if_neg other, lacks, if_neg record, if_neg named]

theorem convertArray_eq :
    convertArray defs members =
      match find? "items" members with
      | none => .ok (.array .unknown true)
      | some (.array schemas) =>
        (convertAll defs schemas).map fun types => .array (.unionOf types) true
      | some schema => (convert defs schema).map fun type => .array type true := by
  rw [convertArray]
  split
  · rename_i found
    rw [found]
  · rename_i schemas found
    rw [found]
    rfl
  · rename_i schema single found
    rw [found]
    cases schema with
    | array schemas => exact absurd rfl (single schemas)
    | _ => rfl

theorem convertObject_eq :
    convertObject defs members =
      match find? "properties" members with
      | some (.object properties) =>
        (convertFields defs (requiredKeys members) properties).map .record
      | _ => .ok (.record []) := by
  rw [convertObject]
  split
  · rename_i properties found
    rw [found]
    rfl
  · rename_i other
    split
    · rename_i properties found
      exact absurd found (other properties)
    · rfl

theorem convertArray_none (lacks : find? "items" members = none) :
    convertArray defs members = .ok (.array .unknown true) := by
  rw [convertArray_eq, lacks]

theorem convertArray_schema {items : List (Text × Json)}
    (h : find? "items" members = some (.object items)) :
    convertArray defs members =
      (convert defs (.object items)).map fun type => .array type true := by
  rw [convertArray_eq, h]

theorem convertObject_none (lacks : find? "properties" members = none) :
    convertObject defs members = .ok (.record []) := by
  rw [convertObject_eq, lacks]

theorem convertObject_properties {properties : List (Text × Json)}
    (h : find? "properties" members = some (.object properties)) :
    convertObject defs members =
      (convertFields defs (requiredKeys members) properties).map .record := by
  rw [convertObject_eq, h]

/-- A combination whose parts all convert. -/
theorem convertList_eq_convertAll {keyword : Text} {schemas : List Json}
    (objects : ∀ schema ∈ schemas, ∃ members, schema = .object members) :
    convertList defs keyword (.array schemas) = convertAll defs schemas := by
  have all : schemas.all isSchema = true := by
    rw [List.all_eq_true]
    intro schema member
    obtain ⟨members, rfl⟩ := objects schema member
    rfl
  rw [convertList, if_pos all]

end

end Recast.Schema
