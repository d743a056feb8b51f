import Recast.Proofs.Naming.Declared
import Recast.Proofs.Naming.TypeName
import Recast.Proofs.Schema.Closure
import Recast.Proofs.Schema.Form
import Recast.Proofs.Types.Reading

/-! # Reading the types of schemas

Each type that a schema document is converted to has a meaning as a tree, and its text is
read back as that tree unless an intersection has a union directly inside or a constant is a
number that is not finite.
-/

namespace Recast.Schema

open TypeText TypeTree

/-! ## Names of definitions -/

theorem isTypeName_of_mem_bases {document : Json} {base : Text}
    (member : base ∈ documentBases document) : IsTypeName base := by
  rcases List.mem_cons.mp member with rfl | listed
  · exact Name.isTypeName_root
  · obtain ⟨schema, -, rfl⟩ := List.mem_map.mp listed
    exact Name.isTypeName_pascal _

theorem isTypeName_of_mem_definitions {document : Json} {d : Definition}
    (member : d ∈ definitions document) : IsTypeName d.name := by
  have listed : d.name ∈ NamePool.claimAll [] (documentBases document) := by
    rw [← root_cons_map_definitions]
    exact List.mem_cons_of_mem _ (List.mem_map_of_mem member)
  rw [NamePool.claimAll_eq_map, List.mem_map] at listed
  obtain ⟨⟨base, n⟩, issued, same⟩ := listed
  have counted := NamePool.mem_issued.mp issued
  have claimed : base ∈ documentBases document := List.count_pos_iff.mp (by omega)
  rw [← same]
  exact (isTypeName_of_mem_bases claimed).numbered n

/-! ## Reading the types of a document -/

theorem two_le_length {α : Type} {xs : List α} (none : xs = [] → False)
    (one : ∀ x, xs = [x] → False) : 2 ≤ xs.length := by
  match xs with
  | [] => exact (none rfl).elim
  | [x] => exact (one x rfl).elim
  | _ :: _ :: _ => simp

theorem exists_mirrorsAll {types : List TypeExpr} (each : ∀ type ∈ types, ∃ tree, Mirrors type tree) :
    ∃ trees, MirrorsAll types trees := by
  induction types with
  | nil => exact ⟨[], .nil⟩
  | cons type types ih =>
      rw [List.forall_mem_cons] at each
      obtain ⟨tree, here⟩ := each.1
      obtain ⟨trees, later⟩ := ih each.2
      exact ⟨tree :: trees, .cons here later⟩

theorem exists_mirrorsFields {fields : List (Field TypeExpr)}
    (each : ∀ field ∈ fields, ∃ tree, Mirrors field.type tree) :
    ∃ trees, MirrorsFields fields trees := by
  induction fields with
  | nil => exact ⟨[], .nil⟩
  | cons field fields ih =>
      rw [List.forall_mem_cons] at each
      obtain ⟨tree, here⟩ := each.1
      obtain ⟨trees, later⟩ := ih each.2
      exact ⟨⟨field.key, tree, field.optional⟩ :: trees, .cons here later⟩

/-- The members that are left of a combination have trees, and so has the only one of them. -/
theorem exists_mirrors_of_distinct {types : List TypeExpr} {combine : List TypeExpr → TypeExpr}
    (each : ∀ type ∈ types, ∃ tree, Mirrors type tree)
    (several : ∀ members trees, 2 ≤ members.length → MirrorsAll members trees →
      ∃ tree, Mirrors (combine members) tree) :
    ∃ tree, Mirrors (match TypeExpr.distinct types with
      | [] => .unknown
      | [type] => type
      | members => combine members) tree := by
  have kept : ∀ type ∈ TypeExpr.distinct types, ∃ tree, Mirrors type tree :=
    fun type member => each type (List.mem_eraseDups.mp member)
  split
  · exact ⟨_, .unknown⟩
  · rename_i type single
    exact kept type (single ▸ List.mem_singleton_self type)
  · rename_i none one
    obtain ⟨trees, mirrored⟩ := exists_mirrorsAll kept
    exact several _ trees (two_le_length none one) mirrored

/-- Combinations of a document's types keep at least two different members, and its names
are no keywords. -/
theorem closed_mirrors (document : Json) :
    Closed (definitions document) fun type => ∃ tree, Mirrors type tree where
  unknown := ⟨_, .unknown⟩
  primitive kind := ⟨_, .primitive kind⟩
  literal v := ⟨_, .literal v⟩
  named name known := by
    have plain : IsTypeName name := by
      rcases known with rfl | ⟨d, member, rfl⟩
      · exact Name.isTypeName_root
      · exact isTypeName_of_mem_definitions member
    exact ⟨_, .named plain.isWord plain.not_mem_keywords⟩
  array item := by
    rintro ⟨tree, inner⟩
    exact ⟨_, .array true inner⟩
  union types each :=
    exists_mirrors_of_distinct each fun _ _ two mirrored => ⟨_, .union two mirrored⟩
  intersection types each :=
    exists_mirrors_of_distinct each fun _ _ two mirrored => ⟨_, .intersection two mirrored⟩
  record fields each := by
    obtain ⟨trees, mirrored⟩ := exists_mirrorsFields each
    exact ⟨_, .record mirrored⟩

theorem converts_of_codeOfDocument {document : Json} {text : Text}
    (h : codeOfDocument document = .ok text) :
    ∀ schema ∈ document :: (definitions document).map Definition.schema,
      ∃ type, convert (definitions document) schema = .ok type := by
  simp only [codeOfDocument, bind_eq_ok] at h
  obtain ⟨type, main, others, each, -⟩ := h
  rw [mapM_eq_ok] at each
  refine List.forall_mem_cons.mpr ⟨⟨type, main⟩, List.forall_mem_map.mpr fun d member => ?_⟩
  obtain ⟨line, -, here⟩ := exists_of_forall₂_left each member
  rw [bind_eq_ok] at here
  obtain ⟨type, converted, -⟩ := here
  exact ⟨type, converted⟩

/-- The types of a document and of its definitions all have a meaning, and their text is read
back with that meaning exactly when no intersection has a union directly inside and no
constant is a number that is not finite. -/
theorem read_render_iff_of_codeOfDocument {document : Json} {text : Text}
    (h : codeOfDocument document = .ok text) :
    ∀ schema ∈ document :: (definitions document).map Definition.schema,
      ∃ type, convert (definitions document) schema = .ok type ∧
        (∃ tree, Mirrors type tree) ∧
          ∀ tree, Mirrors type tree → ∀ depth,
            read (type.render depth) = some tree.flat ↔ tree.Layered ∧ tree.Finite := by
  intro schema member
  obtain ⟨type, converted⟩ := converts_of_codeOfDocument h schema member
  exact ⟨type, converted, (closed_mirrors document).convert converted,
    fun tree mirrors depth => read_render_eq_flat_iff mirrors depth⟩

section

variable {defs : List Definition}

theorem convertList_of_parts {keyword : Text} {schemas : List Json} {types : List TypeExpr}
    (known : schemas.all isSchema)
    (each : List.Forall₂ (fun schema type => convert defs schema = .ok type) schemas types) :
    convertList defs keyword (.array schemas) = .ok types := by
  rw [convertList, if_pos known]
  exact convertAll_eq_ok.mpr each

/-- A definition together with the root, or a list of constants. -/
def linkDocument : Json := .object [
  ("$defs", .object [("node", .object [("const", .string "end")])]),
  ("anyOf", .array [
    .object [("allOf", .array [
      .object [("$ref", .string "#/$defs/node")], .object [("$ref", .string "#")]])],
    .object [("type", .string "array"),
      ("items", .object [("enum", .array [.string "a", .int 1])])]])]

def linkType : TypeExpr := .union [
  .intersection [.named "Node", .named "Root"],
  .array (.union [literal (.string "a"), literal (.int 1)]) true]

def linkTree : TypeTree := .combination .or [
  .combination .and [.reference "Node", .reference "Root"],
  .array (.combination .or [.literal (Json.quote "a"), .literal (Text.ofInt 1)])]

theorem convert_linkDocument :
    convert (definitions linkDocument) linkDocument = .ok linkType := by
  have node : convert (definitions linkDocument) (.object [("$ref", .string "#/$defs/node")]) =
      .ok (.named "Node") :=
    (convert_ref (by decide) rfl).trans (congrArg Except.ok (by decide))
  have root : convert (definitions linkDocument) (.object [("$ref", .string "#")]) =
      .ok (.named "Root") :=
    (convert_ref (by decide) rfl).trans (congrArg Except.ok (by decide))
  have both : convert (definitions linkDocument) (.object [("allOf", .array [
      .object [("$ref", .string "#/$defs/node")], .object [("$ref", .string "#")]])]) =
      .ok (.intersectionOf [.named "Node", .named "Root"]) :=
    (convert_allOf (by decide) rfl).trans
      (map_eq_ok.mpr ⟨_, convertList_of_parts rfl (.cons node (.cons root .nil)), rfl⟩)
  have list : convert (definitions linkDocument) (.object [("type", .string "array"),
      ("items", .object [("enum", .array [.string "a", .int 1])])]) =
      .ok (.array (.unionOf [literal (.string "a"), literal (.int 1)]) true) :=
    (convert_typed (by decide)).trans (convertKind_array.trans
      ((convertArray_schema rfl).trans (map_eq_ok.mpr ⟨_, convert_enum rfl, rfl⟩)))
  exact (convert_anyOf (by decide) rfl).trans
    (map_eq_ok.mpr ⟨_, convertList_of_parts rfl (.cons both (.cons list .nil)), by decide⟩)

theorem mirrors_linkType : Mirrors linkType linkTree := by
  have name {t : Text} (h : IsTypeName t) : Mirrors (.named t) (.reference t) :=
    .named h.isWord h.not_mem_keywords
  have node : IsTypeName "Node" := ⟨_, _, rfl, by decide⟩
  exact .union (by decide) (.cons
    (.intersection (by decide) (.cons (name node) (.cons (name Name.isTypeName_root) .nil)))
    (.cons (.array true (.union (by decide)
      (.cons (.literal (.string "a")) (.cons (.literal (.int 1)) .nil)))) .nil))

theorem exists_code_linkDocument : ∃ text, codeOfDocument linkDocument = .ok text := by
  have node : convert (definitions linkDocument) (.object [("const", .string "end")]) =
      .ok (literal (.string "end")) := convert_const (by decide) rfl
  refine ⟨_, bind_eq_ok.mpr ⟨_, convert_linkDocument, bind_eq_ok.mpr ⟨_, mapM_eq_ok.mpr
    (.cons (bind_eq_ok.mpr ⟨_, node, rfl⟩) .nil), rfl⟩⟩⟩

/-- `Node & Root | ("a" | 1)[]` is read back as it was meant. -/
theorem read_render_linkDocument :
    ∃ text type, codeOfDocument linkDocument = .ok text ∧
      convert (definitions linkDocument) linkDocument = .ok type ∧ Mirrors type linkTree ∧
        ∀ depth, read (type.render depth) = some linkTree.flat := by
  obtain ⟨text, code⟩ := exists_code_linkDocument
  obtain ⟨type, converted, -, reads⟩ :=
    read_render_iff_of_codeOfDocument code linkDocument List.mem_cons_self
  obtain rfl := Except.ok.inj (converted.symm.trans convert_linkDocument)
  exact ⟨text, linkType, code, converted, mirrors_linkType, fun depth =>
    (reads linkTree mirrors_linkType depth).mpr ⟨by decide, by decide⟩⟩

/-- All of a text or number and a boolean, so no value at all. -/
def mixedDocument : Json := .object [("allOf", .array [
  .object [("type", .array [.string "string", .string "number"])],
  .object [("type", .string "boolean")]])]

def mixedType : TypeExpr :=
  .intersection [.union [.primitive .string, .primitive .number], .primitive .boolean]

def mixedTree : TypeTree := .combination .and [
  .combination .or [.keyword "string", .keyword "number"], .keyword "boolean"]

theorem convert_mixedDocument : convert defs mixedDocument = .ok mixedType := by
  have two : convert defs (.object [("type", .array [.string "string", .string "number"])]) =
      .ok (.unionOf [.primitive .string, .primitive .number]) :=
    (@convert_hasKinds _ _ ["string", "number"] _ (by decide) (.several rfl)).mpr
      ⟨_, .cons (convertKind_scalar (by decide) (by decide) rfl)
        (.cons (convertKind_scalar (by decide) (by decide) rfl) .nil), rfl⟩
  have one : convert defs (.object [("type", .string "boolean")]) =
      .ok (.unionOf [.primitive .boolean]) :=
    (convert_hasKinds (by decide) (.one rfl)).mpr
      ⟨_, .cons (convertKind_scalar (by decide) (by decide) rfl) .nil, rfl⟩
  exact (convert_allOf (by decide) rfl).trans
    (map_eq_ok.mpr ⟨_, convertList_of_parts rfl (.cons two (.cons one .nil)), by decide⟩)

theorem mirrors_mixedType : Mirrors mixedType mixedTree :=
  .intersection (by decide) (.cons
    (.union (by decide) (.cons (.primitive .string) (.cons (.primitive .number) .nil)))
    (.cons (.primitive .boolean) .nil))

/-- `string | number & boolean` is read as a text or a number that is a boolean too. -/
theorem misread_mixedDocument :
    (∃ text, codeOfDocument mixedDocument = .ok text) ∧
      convert (definitions mixedDocument) mixedDocument = .ok mixedType ∧
        Mirrors mixedType mixedTree ∧
          ∀ tree, Mirrors mixedType tree → read (mixedType.render 0) ≠ some tree.flat := by
  have code : ∃ text, codeOfDocument mixedDocument = .ok text :=
    ⟨_, bind_eq_ok.mpr ⟨_, convert_mixedDocument, rfl⟩⟩
  refine ⟨code, convert_mixedDocument, mirrors_mixedType, ?_⟩
  intro tree mirrors same
  have text : mixedType.render 0 = "string | number & boolean" := by decide
  have misread : read "string | number & boolean" = some (.combination .or [.keyword "string",
      .combination .and [.keyword "number", .keyword "boolean"]]) := rfl
  rw [text, misread] at same
  -- an intersection keeps its operator when it is flattened
  have wide := mirrors.wide
  cases mirrors with
  | intersection two each =>
      rw [flat_combination wide] at same
      cases same

example : read ((literal (.float (.infinite false))).render 0) = some (.reference "Infinity") := rfl

end

end Recast.Schema
