import Recast.Proofs.Schema.Membership

/-! # What is accepted belongs to the type

Values that a schema accepts belong to the type that it converts to, by induction on the
fuel of the acceptance. The exception are schemas with properties that list a scalar among
their types: each of these types becomes a record, and the scalar belongs to none.
-/

namespace Recast.Schema

open Json

/-- What the schema accepts belongs to its type. -/
def Sound (document schema : Json) : Prop :=
  ∀ type, convert (definitions document) schema = .ok type →
    ∀ v, Valid document schema v → Belongs document type v

/-- The schema has properties and lists a scalar among its types. -/
def Mixed (schema : Json) : Prop :=
  ∃ (members : List (Text × Json)) (kinds : List Text), schema = .object members ∧
    Lacks dispatched members ∧ find? "type" members = some (.array (kinds.map .string)) ∧
    (∃ kind ∈ kinds, kind ∈ scalarKinds) ∧ (find? "properties" members).isSome = true

/-- A checker accepts only what belongs to the type of the schema. -/
def SoundFor (document : Json) (check : Checker) (schema : Json) : Prop :=
  ∀ type, convert (definitions document) schema = .ok type →
    ∀ v, check schema v = some true → Belongs document type v

/-- Every keyword of a schema accepts the value. -/
structure Accepts (document : Json) (check : Checker) (members : List (Text × Json))
    (v : Json) : Prop where
  type : typeHolds members v = true
  enum : enumHolds members v = true
  const : constHolds members v = true
  required : requiredHolds members v = true
  properties : propertiesHold check members v = some true
  items : itemsHold check members v = some true
  reference : referenceHolds document check members v = some true
  anyOf : combinationHolds check "anyOf" any members v = some true
  oneOf : combinationHolds check "oneOf" exactlyOne members v = some true
  allOf : combinationHolds check "allOf" every members v = some true

theorem every_verdicts {document : Json} {check : Checker} {members : List (Text × Json)}
    {v : Json} :
    every (verdicts document check members v) = some true ↔ Accepts document check members v := by
  rw [every_eq_true]
  simp only [verdicts, List.mem_cons, List.not_mem_nil, or_false, forall_eq_or_imp, forall_eq,
    Option.some.injEq]
  constructor
  · rintro ⟨type, enum, const, required, properties, items, reference, anyOf, oneOf, allOf⟩
    exact ⟨type, enum, const, required, properties, items, reference, anyOf, oneOf, allOf⟩
  · rintro ⟨type, enum, const, required, properties, items, reference, anyOf, oneOf, allOf⟩
    exact ⟨type, enum, const, required, properties, items, reference, anyOf, oneOf, allOf⟩

section

variable {document : Json} {check : Checker} {members : List (Text × Json)} {v : Json}
  {type : TypeExpr}

/-! ## Values, references and combinations -/

theorem belongs_enum {values : List Json} (accepts : Accepts document check members v)
    (found : find? "enum" members = some (.array values)) :
    Belongs document (.unionOf (values.map literal)) v := by
  have holds := accepts.enum
  simp only [enumHolds, found, List.any_eq_true] at holds
  obtain ⟨w, member, equal⟩ := holds
  exact belongs_unionOf (List.mem_map_of_mem member) (.literal equal)

theorem belongs_const {w : Json} (accepts : Accepts document check members v)
    (found : find? "const" members = some w) : Belongs document (literal w) v := by
  have holds := accepts.const
  simp only [constHolds, found] at holds
  exact .literal holds

theorem belongs_ref {key : Text} {schema : Json} (accepts : Accepts document check members v)
    (found : find? "$ref" members = some (.string (pointer key)))
    (definition : find? key (defsOf document) = some schema)
    (converts : convert (definitions document) schema = .ok type)
    (sound : SoundFor document check schema) :
    Belongs document (resolve (definitions document) (.string (pointer key))) v := by
  have holds := accepts.reference
  simp only [referenceHolds, found, (target?_pointer definition).1, Option.bind_some] at holds
  obtain ⟨d, member, rfl, resolved⟩ := resolve_pointer definition
  rw [resolved]
  exact .named member converts (sound type converts v holds)

/-- Whatever the combinator, one of the schemas accepts the value, and all do for `allOf`. -/
theorem belongs_combination {keyword : Text} {schemas : List Json} {types : List TypeExpr}
    (accepts : Accepts document check members v) (known : keyword ∈ combinators)
    (found : find? keyword members = some (.array schemas))
    (converts : List.Forall₂ (fun schema type =>
      convert (definitions document) schema = .ok type) schemas types)
    (sound : ∀ schema ∈ schemas, SoundFor document check schema) :
    Belongs document (combineTypes keyword types) v := by
  have belongs {schema : Json} {type : TypeExpr} (member : schema ∈ schemas)
      (converted : convert (definitions document) schema = .ok type)
      (accepted : check schema v = some true) : Belongs document type v :=
    sound schema member type converted v accepted
  have one (accepted : some true ∈ schemas.map fun schema => check schema v) :
      Belongs document (.unionOf types) v := by
    obtain ⟨schema, member, accepted⟩ := List.mem_map.mp accepted
    obtain ⟨type, kept, converted⟩ := exists_of_forall₂_left converts member
    exact belongs_unionOf kept (belongs member converted accepted)
  simp only [combinators, List.mem_cons, List.not_mem_nil, or_false] at known
  rcases known with rfl | rfl | rfl
  · have holds := accepts.anyOf
    simp only [combinationHolds, found] at holds
    exact one (any_eq_true.mp holds)
  · have holds := accepts.oneOf
    simp only [combinationHolds, found] at holds
    exact one (mem_of_exactlyOne holds)
  · have holds := accepts.allOf
    simp only [combinationHolds, found, every_eq_true, List.forall_mem_map] at holds
    apply belongs_intersectionOf
    intro type kept
    obtain ⟨schema, member, converted⟩ := exists_of_forall₂_right converts kept
    exact belongs member converted (holds schema member)

/-! ## Types -/

theorem hasKind_of_hasKinds {kinds : List Text} (accepts : Accepts document check members v)
    (h : HasKinds members kinds) : ∃ kind ∈ kinds, hasKind kind v = true := by
  have holds := accepts.type
  cases h with
  | one found =>
      simp only [typeHolds, found] at holds
      exact ⟨_, List.mem_singleton_self _, holds⟩
  | several found =>
      simp only [typeHolds, found, List.any_map, List.any_eq_true, Function.comp_apply] at holds
      exact holds

theorem belongs_array {items : List Json}
    (accepts : Accepts document check members (.array items))
    (parts : Parts (SoundFor document check) members)
    (converted : convertArray (definitions document) members = .ok type) :
    Belongs document type (.array items) := by
  cases found : find? "items" members with
  | none =>
      rw [convertArray_none found] at converted
      cases converted
      exact .array fun x _ => .unknown
  | some schema =>
      obtain ⟨⟨ms, rfl⟩, sound⟩ := parts.items schema found
      rw [convertArray_schema found, map_eq_ok] at converted
      obtain ⟨item, converted, rfl⟩ := converted
      have holds := accepts.items
      simp only [itemsHold, found, every_eq_true, List.forall_mem_map] at holds
      exact .array fun x member => sound item converted x (holds x member)

/-- A required key that is among the properties is there. -/
theorem isSome_of_required {key : Text} {ms : List (Text × Json)}
    (accepts : Accepts document check members (.object ms)) (h : key ∈ requiredKeys members) :
    (find? key ms).isSome = true := by
  have holds := accepts.required
  unfold requiredKeys at h
  split at h
  · rename_i keys found
    obtain ⟨item, member, same⟩ := List.mem_filterMap.mp h
    simp only [requiredHolds, found, List.all_eq_true] at holds
    split at same
    · cases same
      exact holds _ member
    · cases same
  · cases h

theorem belongs_object {ms : List (Text × Json)}
    (accepts : Accepts document check members (.object ms))
    (parts : Parts (SoundFor document check) members)
    (converted : convertObject (definitions document) members = .ok type) :
    Belongs document type (.object ms) := by
  cases found : find? "properties" members with
  | none =>
      rw [convertObject_none found] at converted
      cases converted
      exact .record nofun nofun
  | some v =>
      obtain ⟨properties, rfl, sound⟩ := parts.properties v found
      rw [convertObject_properties found, map_eq_ok] at converted
      obtain ⟨fields, converted, rfl⟩ := converted
      have each := convertFields_eq_ok.mp converted
      have holds := accepts.properties
      simp only [propertiesHold, found, every_eq_true, List.forall_mem_map] at holds
      constructor
      · intro field member present
        obtain ⟨property, -, made⟩ := exists_of_forall₂_right each member
        obtain ⟨-, known, missing⟩ := convertField_eq_ok.mp made
        rw [missing, decide_eq_false_iff_not, not_not, ← known] at present
        exact isSome_of_required accepts present
      · intro field member x there
        obtain ⟨property, listed, made⟩ := exists_of_forall₂_right each member
        obtain ⟨converted, known, -⟩ := convertField_eq_ok.mp made
        have accepted := holds property listed
        rw [known] at there
        simp only [there] at accepted
        exact sound property.1 property.2 listed field.type converted x accepted

/-- A value of one of the kinds belongs to the type of this kind. -/
theorem belongs_kind {kind : Text} (accepts : Accepts document check members v)
    (parts : Parts (SoundFor document check) members) (known : kind ∈ kindNames)
    (plain : kind ∈ scalarKinds → find? "properties" members = none)
    (has : hasKind kind v = true)
    (converted : convertKind (definitions document) members (.string kind) = .ok type) :
    Belongs document type v := by
  simp only [kindNames, List.mem_cons] at known
  rcases known with rfl | rfl | scalar
  · obtain ⟨ms, rfl⟩ := object_of_hasKind has
    rw [convertKind_object (by decide) (.inl rfl)] at converted
    exact belongs_object accepts parts converted
  · obtain ⟨items, rfl⟩ := array_of_hasKind has
    rw [convertKind_array] at converted
    exact belongs_array accepts parts converted
  · have array : kind ≠ "array" := by rintro rfl; revert scalar; decide
    have object : kind ≠ "object" := by rintro rfl; revert scalar; decide
    rw [convertKind_scalar array object (plain scalar)] at converted
    cases converted
    exact belongs_scalarType scalar has

/-- Without a mixed schema there are no properties beside a scalar kind. -/
theorem lacks_properties {kinds : List Text} {kind : Text} (lacks : Lacks dispatched members)
    (hasKinds : HasKinds members kinds) (pure : ¬ Mixed (.object members))
    (record : ∀ v, find? "properties" members = some v → "object".toList ∈ kinds)
    (member : kind ∈ kinds) (scalar : kind ∈ scalarKinds) :
    find? "properties" members = none := by
  by_contra present
  have present := Option.isSome_iff_ne_none.mpr present
  cases hasKinds with
  | one _ =>
      obtain ⟨v, found⟩ := Option.isSome_iff_exists.mp present
      have object := List.mem_singleton.mp (record v found)
      rw [List.mem_singleton.mp member, ← object] at scalar
      revert scalar
      decide
  | several found => exact pure ⟨members, kinds, rfl, lacks, found, ⟨kind, member, scalar⟩, present⟩

/-- A schema of one of the forms is sound when those that it leads to are. -/
theorem form_sound {schema : Json} (form : Form document schema) (pure : ¬ Mixed schema)
    (below : ∀ child, Child child schema →
      (∃ members, child = .object members) ∧ SoundFor document check child)
    (target : ∀ key child, find? key (defsOf document) = some child →
      Converts (definitions document) child ∧ SoundFor document check child)
    (accepted : ∀ members, schema = .object members → Accepts document check members v)
    (converted : convert (definitions document) schema = .ok type) : Belongs document type v := by
  cases form with
  | enum found =>
      rw [convert_enum found] at converted
      cases converted
      exact belongs_enum (accepted _ rfl) found
  | ref lacks found definition =>
      rw [convert_ref lacks found] at converted
      cases converted
      obtain ⟨⟨type, converts⟩, sound⟩ := target _ _ definition
      exact belongs_ref (accepted _ rfl) found definition converts sound
  | const lacks found =>
      rw [convert_const lacks found] at converted
      cases converted
      exact belongs_const (accepted _ rfl) found
  | @combination members keyword schemas known lacks found =>
      have parts (schema : Json) (member : schema ∈ schemas) :=
        below schema (.part known lacks found member)
      rw [convert_combination known lacks found,
        convertList_eq_convertAll fun schema member => (parts schema member).1,
        map_eq_ok] at converted
      obtain ⟨types, converted, rfl⟩ := converted
      exact belongs_combination (accepted _ rfl) known found (convertAll_eq_ok.mp converted)
        fun schema member => (parts schema member).2
  | @typed members kinds lacks hasKinds known properties _ =>
      have accepts := accepted members rfl
      have parts := parts_of_below lacks (fun v found => (properties v found).2) below
      obtain ⟨types, each, rfl⟩ := (convert_hasKinds lacks hasKinds).mp converted
      obtain ⟨kind, member, has⟩ := hasKind_of_hasKinds accepts hasKinds
      obtain ⟨type, kept, converted⟩ := exists_of_forall₂_left each member
      have plain (scalar : kind ∈ scalarKinds) : find? "properties" members = none :=
        lacks_properties lacks hasKinds pure (fun v found => (properties v found).1) member scalar
      exact belongs_unionOf kept
        (belongs_kind accepts parts (known kind member) plain has converted)

end

/-! ## Documents -/

section

variable {document : Json}

theorem check_sound (supported : Supported document)
    (pure : ∀ schema, Node document schema → ¬ Mixed schema) (fuel : Nat) {schema : Json}
    (node : Node document schema) : SoundFor document (check document fuel) schema := by
  -- Not on the schema, since references may lead in a circle.
  induction fuel generalizing schema with
  | zero => exact fun _ _ _ accepted => nomatch accepted
  | succ fuel ih =>
      intro type converted v accepted
      have form := supported schema node
      apply form_sound form (pure schema node) _ _ _ converted
      · exact check document fuel
      · intro child h
        have inner := Node.child h node
        exact ⟨form_object (supported child inner), ih inner⟩
      · intro key child found
        have inner := Node.definition (target?_pointer found).2
        exact ⟨node_converts supported inner, ih inner⟩
      · rintro members rfl
        exact every_verdicts.mp accepted

/-! ## Mixed schemas -/

theorem convertArray_eq_array {defs : List Definition} {members : List (Text × Json)}
    {type : TypeExpr} (converted : convertArray defs members = .ok type) :
    ∃ item, type = .array item true := by
  rw [convertArray_eq] at converted
  split at converted
  · cases converted
    exact ⟨_, rfl⟩
  · obtain ⟨types, -, rfl⟩ := map_eq_ok.mp converted
    exact ⟨_, rfl⟩
  · obtain ⟨item, -, rfl⟩ := map_eq_ok.mp converted
    exact ⟨item, rfl⟩

theorem convertObject_eq_record {defs : List Definition} {members : List (Text × Json)}
    {type : TypeExpr} (converted : convertObject defs members = .ok type) :
    ∃ fields, type = .record fields := by
  rw [convertObject_eq] at converted
  split at converted
  · obtain ⟨fields, -, rfl⟩ := map_eq_ok.mp converted
    exact ⟨fields, rfl⟩
  · cases converted
    exact ⟨[], rfl⟩

/-- With properties, every kind becomes an array or a record. -/
theorem container_of_properties {defs : List Definition} {members : List (Text × Json)}
    {kind : Text} {type : TypeExpr} (properties : (find? "properties" members).isSome = true)
    (converted : convertKind defs members (.string kind) = .ok type) :
    (∃ item, type = .array item true) ∨ ∃ fields, type = .record fields := by
  by_cases array : kind = "array"
  · rw [array, convertKind_array] at converted
    exact .inl (convertArray_eq_array converted)
  · have other : Json.string kind ≠ .string "array" := fun same => array (Json.string.inj same)
    rw [convertKind_object other (.inr properties)] at converted
    exact .inr (convertObject_eq_record converted)

/-- A scalar is accepted when its kind is listed, whatever the properties and items are. -/
theorem accepts_scalar {check : Checker} {members : List (Text × Json)} {kinds : List Text}
    {kind : Text} {v : Json} (lacks : Lacks dispatched members)
    (listed : find? "type" members = some (.array (kinds.map .string))) (member : kind ∈ kinds)
    (has : hasKind kind v = true) (array : ∀ items, v ≠ .array items)
    (object : ∀ ms, v ≠ .object ms) : Accepts document check members v := by
  have enum := lacks "enum" (by simp [dispatched])
  have ref := lacks "$ref" (by simp [dispatched])
  have const := lacks "const" (by simp [dispatched])
  have anyOf := lacks "anyOf" (by simp [dispatched])
  have oneOf := lacks "oneOf" (by simp [dispatched])
  have allOf := lacks "allOf" (by simp [dispatched])
  constructor
  · simp only [typeHolds, listed, List.any_map, List.any_eq_true, Function.comp_apply]
    exact ⟨kind, member, has⟩
  · simp only [enumHolds, enum]
  · simp only [constHolds, const]
  · unfold requiredHolds
    split
    · exact absurd rfl (object _)
    · rfl
  · unfold propertiesHold
    split
    · exact absurd rfl (object _)
    · rfl
  · unfold itemsHold
    split
    · exact absurd rfl (array _)
    · rfl
  · simp only [referenceHolds, ref]
  · simp only [combinationHolds, anyOf]
  · simp only [combinationHolds, oneOf]
  · simp only [combinationHolds, allOf]

/-- A mixed schema accepts a scalar that does not belong to its type. -/
theorem not_sound_of_mixed {schema : Json} (mixed : Mixed schema)
    (converts : Converts (definitions document) schema) : ¬ Sound document schema := by
  intro sound
  obtain ⟨members, kinds, rfl, lacks, listed, ⟨kind, member, scalar⟩, properties⟩ := mixed
  obtain ⟨type, converted⟩ := converts
  obtain ⟨v, has, array, object⟩ := exists_hasKind scalar
  have accepted : check document 1 (.object members) v = some true :=
    every_verdicts.mpr (accepts_scalar lacks listed member has array object)
  have belongs := sound type converted v ⟨1, accepted⟩
  obtain ⟨types, each, rfl⟩ := (convert_hasKinds lacks (.several listed)).mp converted
  obtain ⟨_, kept, -⟩ := exists_of_forall₂_left each member
  obtain ⟨type, kept, belongs⟩ := belongs_of_unionOf (List.ne_nil_of_mem kept) belongs
  obtain ⟨_, -, converted⟩ := exists_of_forall₂_right each kept
  obtain ⟨item, rfl⟩ | ⟨fields, rfl⟩ := container_of_properties properties converted
  · cases belongs with
    | array _ => exact array _ rfl
  · cases belongs with
    | record _ _ => exact object _ rfl

/-- Every schema of a supported document converts, and the types are sound for all of them
exactly when no schema is mixed. -/
theorem node_sound_iff (supported : Supported document) :
    (∀ schema, Node document schema → Converts (definitions document) schema) ∧
      ((∀ schema, Node document schema → Sound document schema) ↔
        ∀ schema, Node document schema → ¬ Mixed schema) := by
  refine ⟨fun schema node => node_converts supported node, ?_, ?_⟩
  · intro sound schema node mixed
    exact not_sound_of_mixed mixed (node_converts supported node) (sound schema node)
  · rintro pure schema node type converted v ⟨fuel, accepted⟩
    exact check_sound supported pure fuel node type converted v accepted

/-- The name of a person, kept as a definition. -/
def personDocument : Json := .object [
  ("$defs", .object [("name", .object [("type", .string "string")])]),
  ("type", .string "object"),
  ("properties", .object [("first", .object [("$ref", .string "#/$defs/name")])]),
  ("required", .array [.string "first"])]

def personNodes : List Json := [personDocument, .object [("type", .string "string")],
  .object [("$ref", .string "#/$defs/name")]]

theorem mem_personNodes {schema : Json} (node : Node personDocument schema) :
    schema ∈ personNodes :=
  mem_of_node (by decide) (by decide) (by decide) node

theorem supported_personDocument : Supported personDocument := by
  intro schema node
  have listed := mem_personNodes node
  simp only [personNodes, List.mem_cons, List.not_mem_nil, or_false] at listed
  rcases listed with rfl | rfl | rfl
  · refine .typed (by decide) (.one rfl) (by decide) ?_ nofun
    intro v found
    cases found
    exact ⟨by decide, _, rfl⟩
  · exact .typed (by decide) (.one rfl) (by decide) nofun nofun
  · exact @Form.ref _ _ "name" _ (by decide) rfl rfl

theorem not_mixed_personDocument {schema : Json} (node : Node personDocument schema) :
    ¬ Mixed schema := by
  have listed := mem_personNodes node
  simp only [personNodes, List.mem_cons, List.not_mem_nil, or_false] at listed
  rintro ⟨members, kinds, rfl, -, several, -, -⟩
  rcases listed with same | same | same <;> cases same <;> cases several

theorem node_sound_personDocument :
    Supported personDocument ∧
      ∀ schema, Node personDocument schema → Sound personDocument schema :=
  ⟨supported_personDocument,
    (node_sound_iff supported_personDocument).2.mpr fun _ => not_mixed_personDocument⟩

/-- A text or a record with a number. -/
def textOrRecordMembers : List (Text × Json) := [
  ("type", .array [.string "string", .string "object"]),
  ("properties", .object [("a", .object [("type", .string "number")])])]

def textOrRecord : Json := .object textOrRecordMembers

theorem supported_textOrRecord : Supported textOrRecord := by
  intro schema node
  have listed : schema ∈ [textOrRecord, .object [("type", .string "number")]] :=
    mem_of_node (by decide) (by decide) (by decide) node
  simp only [List.mem_cons, List.not_mem_nil, or_false] at listed
  rcases listed with rfl | rfl
  · refine @Form.typed _ _ ["string", "object"] (by decide) (.several rfl) (by decide) ?_ nofun
    intro v found
    cases found
    exact ⟨by decide, _, rfl⟩
  · exact .typed (by decide) (.one rfl) (by decide) nofun nofun

/-- Both types of the list become the same record. -/
theorem convert_textOrRecord {defs : List Definition} :
    convert defs textOrRecord = .ok (.record [⟨"a", .primitive .number, true⟩]) := by
  have number : convert defs (.object [("type", .string "number")]) =
      .ok (.primitive .number) := by
    apply (convert_hasKinds (by decide) (.one rfl)).mpr
    exact ⟨_, .cons (convertKind_scalar (by decide) (by decide) rfl) .nil, unionOf_singleton _⟩
  have fields : convertFields defs (requiredKeys textOrRecordMembers)
      [("a", .object [("type", .string "number")])] = .ok [⟨"a", .primitive .number, true⟩] :=
    convertFields_eq_ok.mpr (.cons (convertField_eq_ok.mpr ⟨number, rfl, rfl⟩) .nil)
  have record (kind : Text) (other : Json.string kind ≠ .string "array") :
      convertKind defs textOrRecordMembers (.string kind) =
        .ok (.record [⟨"a", .primitive .number, true⟩]) := by
    rw [convertKind_object other (.inr rfl), convertObject_properties rfl, fields]
    rfl
  apply (@convert_hasKinds _ _ ["string", "object"] _ (by decide) (.several rfl)).mpr
  exact ⟨_, .cons (record "string" (by decide)) (.cons (record "object" (by decide)) .nil),
    by decide⟩

/-- The type of a list with a text and a record leaves the texts out. -/
theorem textOrRecord_excludes_text :
    Supported textOrRecord ∧ Valid textOrRecord textOrRecord (.string "") ∧
      ∃ type, convert (definitions textOrRecord) textOrRecord = .ok type ∧
        ¬ Belongs textOrRecord type (.string "") := by
  refine ⟨supported_textOrRecord, ⟨1, by decide⟩, _, convert_textOrRecord, ?_⟩
  intro belongs
  cases belongs

end

end Recast.Schema
