import Recast.Proofs.Schema.Conversion

/-! # Schemas of the common forms

The schemas that interfaces are usually written from, and the documents that are made of
nothing else. Each schema of such a document converts without an error.
-/

namespace Recast.Schema

open Json

/-- The keywords with a list of schemas. -/
def combinators : List Text := ["anyOf", "oneOf", "allOf"]

/-- The keywords that go before another one. -/
def earlier (keyword : Text) : List Text := dispatched.takeWhile (· ≠ keyword)

/-- The names of the types of scalars. -/
def scalarKinds : List Text := ["string", "number", "integer", "boolean", "null"]

/-- The names of the types. -/
def kindNames : List Text := "object" :: "array" :: scalarKinds

/-- The schema names its types, one alone or several in a list. -/
inductive HasKinds (members : List (Text × Json)) : List Text → Prop
  | one {kind : Text} : find? "type" members = some (.string kind) → HasKinds members [kind]
  | several {kinds : List Text} :
      find? "type" members = some (.array (kinds.map .string)) → HasKinds members kinds

/-- The forms of schemas: a list of values, a reference to a definition of the document, one
value, a combination, or types with the keywords that go with them. -/
inductive Form (document : Json) : Json → Prop
  | enum {members : List (Text × Json)} {values : List Json} :
      find? "enum" members = some (.array values) → Form document (.object members)
  | ref {members : List (Text × Json)} {key : Text} {schema : Json} :
      Lacks (earlier "$ref") members → find? "$ref" members = some (.string (pointer key)) →
      find? key (defsOf document) = some schema → Form document (.object members)
  | const {members : List (Text × Json)} {v : Json} :
      Lacks (earlier "const") members → find? "const" members = some v →
      Form document (.object members)
  | combination {members : List (Text × Json)} {keyword : Text} {schemas : List Json} :
      keyword ∈ combinators → Lacks (earlier keyword) members →
      find? keyword members = some (.array schemas) → Form document (.object members)
  | typed {members : List (Text × Json)} {kinds : List Text} :
      Lacks dispatched members → HasKinds members kinds → (∀ kind ∈ kinds, kind ∈ kindNames) →
      (∀ v, find? "properties" members = some v →
        "object".toList ∈ kinds ∧ ∃ properties, v = .object properties) →
      (∀ v, find? "items" members = some v → "array".toList ∈ kinds) →
      Form document (.object members)

/-- The schemas that a schema is converted by. -/
inductive Child : Json → Json → Prop
  | part {members : List (Text × Json)} {keyword : Text} {schemas : List Json} {schema : Json} :
      keyword ∈ combinators → Lacks (earlier keyword) members →
      find? keyword members = some (.array schemas) → schema ∈ schemas →
      Child schema (.object members)
  | property {members properties : List (Text × Json)} {key : Text} {schema : Json} :
      Lacks dispatched members → find? "properties" members = some (.object properties) →
      (key, schema) ∈ properties → Child schema (.object members)
  | items {members : List (Text × Json)} {schema : Json} :
      Lacks dispatched members → find? "items" members = some schema →
      Child schema (.object members)

/-- The schemas of a document: itself, its definitions and all below them. -/
inductive Node (document : Json) : Json → Prop
  | root : Node document document
  | definition {key : Text} {schema : Json} :
      (key, schema) ∈ defsOf document → Node document schema
  | child {schema parent : Json} :
      Child schema parent → Node document parent → Node document schema

/-- All schemas of the document have one of the forms. -/
def Supported (document : Json) : Prop := ∀ schema, Node document schema → Form document schema

section

variable {defs : List Definition} {members : List (Text × Json)}

/-- There is a type that the schema converts to. -/
def Converts (defs : List Definition) (schema : Json) : Prop :=
  ∃ type, convert defs schema = .ok type

/-- The type that a combinator makes of some types. -/
def combineTypes (keyword : Text) : List TypeExpr → TypeExpr :=
  if keyword = "allOf" then .intersectionOf else .unionOf

theorem convert_combination {keyword : Text} {list : Json} (known : keyword ∈ combinators)
    (lacks : Lacks (earlier keyword) members) (h : find? keyword members = some list) :
    convert defs (.object members) =
      (convertList defs keyword list).map (combineTypes keyword) := by
  simp only [combinators, List.mem_cons, List.not_mem_nil, or_false] at known
  rcases known with rfl | rfl | rfl
  · exact convert_anyOf lacks h
  · exact convert_oneOf lacks h
  · exact convert_allOf lacks h

theorem child_sizeOf_lt {schema parent : Json} (h : Child schema parent) :
    sizeOf schema < sizeOf parent := by
  cases h with
  | part _ _ found member =>
      have list := sizeOf_lt_of_find? found
      have part := List.sizeOf_lt_of_mem member
      simp only [Json.array.sizeOf_spec, Json.object.sizeOf_spec] at list ⊢
      omega
  | property _ found member =>
      have list := sizeOf_lt_of_find? found
      have part := List.sizeOf_lt_of_mem member
      simp only [Json.object.sizeOf_spec, Prod.mk.sizeOf_spec] at list part ⊢
      omega
  | items _ found =>
      have list := sizeOf_lt_of_find? found
      simp only [Json.object.sizeOf_spec]
      omega

theorem form_object {document schema : Json} (h : Form document schema) :
    ∃ members, schema = .object members := by
  cases h <;> exact ⟨_, rfl⟩

theorem convertAll_converts {schemas : List Json}
    (h : ∀ schema ∈ schemas, Converts defs schema) :
    ∃ types, convertAll defs schemas = .ok types := by
  obtain ⟨types, all⟩ := exists_forall₂ h
  exact ⟨types, convertAll_eq_ok.mpr all⟩

theorem convertFields_converts {required : List Text} {properties : List (Text × Json)}
    (h : ∀ key schema, (key, schema) ∈ properties → Converts defs schema) :
    ∃ fields, convertFields defs required properties = .ok fields := by
  have each : ∀ property ∈ properties,
      ∃ field, convertField defs required property = .ok field := by
    intro property member
    obtain ⟨type, converted⟩ := h property.1 property.2 member
    exact ⟨_, map_eq_ok.mpr ⟨type, converted, rfl⟩⟩
  obtain ⟨fields, all⟩ := exists_forall₂ each
  exact ⟨fields, convertFields_eq_ok.mpr all⟩

theorem unionOf_singleton (type : TypeExpr) : TypeExpr.unionOf [type] = type := by
  simp [TypeExpr.unionOf, TypeExpr.distinct, List.eraseDups_cons]

/-- One kind is treated as a list with nothing else in it. -/
theorem convert_hasKinds {kinds : List Text} {type : TypeExpr} (lacks : Lacks dispatched members)
    (h : HasKinds members kinds) :
    convert defs (.object members) = .ok type ↔ ∃ types,
      List.Forall₂ (fun kind type => convertKind defs members (.string kind) = .ok type)
        kinds types ∧ .unionOf types = type := by
  cases h with
  | one found =>
      simp only [convert_typed lacks, convertTypes, found]
      constructor
      · intro converted
        exact ⟨[type], .cons converted .nil, unionOf_singleton type⟩
      · rintro ⟨types, all, rfl⟩
        rcases all with _ | ⟨converted, _ | _⟩
        rw [converted, unionOf_singleton]
  | several found =>
      simp only [convert_typed lacks, convertTypes, found, map_eq_ok, convertKinds_eq_ok,
        List.forall₂_map_left_iff]

/-- The schemas of properties and items are objects with some property. -/
structure Parts (holds : Json → Prop) (members : List (Text × Json)) : Prop where
  properties : ∀ v, find? "properties" members = some v → ∃ properties, v = .object properties ∧
    ∀ key schema, (key, schema) ∈ properties → holds schema
  items : ∀ v, find? "items" members = some v → (∃ items, v = .object items) ∧ holds v

theorem parts_of_below {holds : Json → Prop} (lacks : Lacks dispatched members)
    (record : ∀ v, find? "properties" members = some v → ∃ properties, v = .object properties)
    (below : ∀ child, Child child (.object members) →
      (∃ members, child = .object members) ∧ holds child) : Parts holds members := by
  constructor
  · intro v found
    obtain ⟨properties, rfl⟩ := record v found
    exact ⟨properties, rfl, fun key schema member =>
      (below schema (.property lacks found member)).2⟩
  · intro v found
    exact below v (.items lacks found)

theorem convertArray_converts (parts : Parts (Converts defs) members) :
    ∃ type, convertArray defs members = .ok type := by
  cases found : find? "items" members with
  | none => exact ⟨_, convertArray_none found⟩
  | some v =>
      obtain ⟨⟨items, rfl⟩, type, converted⟩ := parts.items v found
      rw [convertArray_schema found, converted]
      exact ⟨_, rfl⟩

theorem convertObject_converts (parts : Parts (Converts defs) members) :
    ∃ type, convertObject defs members = .ok type := by
  cases found : find? "properties" members with
  | none => exact ⟨_, convertObject_none found⟩
  | some v =>
      obtain ⟨properties, rfl, each⟩ := parts.properties v found
      obtain ⟨fields, converted⟩ := convertFields_converts each
      rw [convertObject_properties found, converted]
      exact ⟨_, rfl⟩

theorem convertKind_converts (parts : Parts (Converts defs) members) (kind : Text) :
    ∃ type, convertKind defs members (.string kind) = .ok type := by
  by_cases array : kind = "array"
  · rw [array, convertKind_array]
    exact convertArray_converts parts
  have other : Json.string kind ≠ .string "array" := fun same => array (Json.string.inj same)
  by_cases object : kind = "object"
  · rw [convertKind_object other (.inl (congrArg _ object))]
    exact convertObject_converts parts
  cases found : find? "properties" members with
  | none => exact ⟨_, convertKind_scalar array object found⟩
  | some v =>
      rw [convertKind_object other (.inr (by rw [found]; rfl))]
      exact convertObject_converts parts

/-- A schema of one of the forms converts when the schemas below it do. -/
theorem form_converts {document schema : Json} (form : Form document schema)
    (below : ∀ child, Child child schema →
      (∃ members, child = .object members) ∧ Converts defs child) : Converts defs schema := by
  cases form with
  | enum found => exact ⟨_, convert_enum found⟩
  | ref lacks found => exact ⟨_, convert_ref lacks found⟩
  | const lacks found => exact ⟨_, convert_const lacks found⟩
  | @combination members keyword schemas known lacks found =>
      have parts (schema : Json) (member : schema ∈ schemas) :=
        below schema (.part known lacks found member)
      obtain ⟨types, all⟩ := convertAll_converts fun schema member => (parts schema member).2
      rw [Converts, convert_combination known lacks found,
        convertList_eq_convertAll fun schema member => (parts schema member).1, all]
      exact ⟨_, rfl⟩
  | @typed members kinds lacks hasKinds _ properties _ =>
      have parts := parts_of_below lacks (fun v found => (properties v found).2) below
      obtain ⟨types, all⟩ := exists_forall₂ fun kind (_ : kind ∈ kinds) =>
        convertKind_converts parts kind
      exact ⟨_, (convert_hasKinds lacks hasKinds).mpr ⟨types, all, rfl⟩⟩

/-- Every schema of a supported document converts. -/
theorem node_converts {document : Json} (supported : Supported document) {schema : Json}
    (node : Node document schema) : Converts defs schema := by
  -- A reference is no step down: the definition it leads to is a node of its own.
  induction size : sizeOf schema using Nat.strongRecOn generalizing schema with
  | ind n ih =>
      subst size
      refine form_converts (supported schema node) fun child h => ⟨?_, ?_⟩
      · exact form_object (supported child (.child h node))
      · exact ih _ (child_sizeOf_lt h) (.child h node) rfl

end

/-! ## The schemas of a document in a list -/

/-- All schemas right below a schema, those that are passed over included. -/
def children : Json → List Json
  | .object members =>
    (combinators.flatMap fun keyword =>
      match find? keyword members with
      | some (.array schemas) => schemas
      | _ => []) ++
    (match find? "properties" members with
      | some (.object properties) => properties.map Prod.snd
      | _ => []) ++
    (find? "items" members).toList
  | _ => []

theorem mem_children {schema parent : Json} (h : Child schema parent) :
    schema ∈ children parent := by
  cases h with
  | part known _ found member =>
      apply List.mem_append_left
      apply List.mem_append_left
      apply List.mem_flatMap_of_mem known
      simpa only [found] using member
  | property _ found member =>
      apply List.mem_append_left
      apply List.mem_append_right
      simp only [found]
      exact List.mem_map_of_mem member
  | items _ found =>
      apply List.mem_append_right
      rw [found]
      exact List.mem_singleton_self _

/-- A list with the document, its definitions and all schemas below has all its schemas. -/
theorem mem_of_node {document : Json} {nodes : List Json} (root : document ∈ nodes)
    (definitions : ∀ definition ∈ defsOf document, definition.2 ∈ nodes)
    (closed : ∀ parent ∈ nodes, ∀ child ∈ children parent, child ∈ nodes) {schema : Json}
    (node : Node document schema) : schema ∈ nodes := by
  induction node with
  | root => exact root
  | definition member => exact definitions _ member
  | child below _ ih => exact closed _ ih _ (mem_children below)

end Recast.Schema
