import Recast.Proofs.Naming.Property
import Recast.Proofs.Schema.Rendering
import Recast.Proofs.Text.Paragraph
import Recast.Proofs.Types.Depth

/-! # Reading the declarations of a document

The code for a schema document is one paragraph a declaration. Types hold no blank line, not
even inside a constant, so that the paragraphs give back the name and the type of each
definition, in order.
-/

namespace Recast

/-! ## Values on one line -/

namespace Json

theorem single_number (x : Binary64) : '\n' ∉ numberLayout.write x := by
  cases x with
  | finite negative mantissa exponent =>
      intro member
      exact absurd ((numeral_write negative mantissa exponent).atomic _ member) (by decide)
  | infinite negative => cases negative <;> decide
  | nan => decide

mutual
theorem single_spaced (v : Json) (depth : Nat) : '\n' ∉ write .spaced depth v := by
  cases v with
  | null => simp [write]
  | bool b => cases b <;> simp [write]
  | int n =>
      intro member
      exact absurd ((numeral_ofInt n).atomic _ member) (by decide)
  | float x => exact single_number x
  | string s => exact single_quote s
  | array items =>
      cases items with
      | nil => simp [write]
      | cons item items =>
          have first := single_spaced item (depth + 1)
          have later := single_spacedItems items (depth + 1)
          simp [write, Style.lineAt, first, later]
  | object members =>
      cases members with
      | nil => simp [write]
      | cons member members =>
          have first := single_spacedMember member (depth + 1)
          have later := single_spacedMembers members (depth + 1)
          simp [write, Style.lineAt, first, later]
termination_by sizeOf v

theorem single_spacedItems (items : List Json) (depth : Nat) :
    '\n' ∉ writeItems .spaced depth items := by
  cases items with
  | nil => exact List.not_mem_nil
  | cons item items =>
      have first := single_spaced item depth
      have later := single_spacedItems items depth
      simp [writeItems, Style.comma, first, later]
termination_by sizeOf items

theorem single_spacedMember (member : Text × Json) (depth : Nat) :
    '\n' ∉ writeMember .spaced depth member := by
  obtain ⟨key, value⟩ := member
  have name := single_quote key
  have inside := single_spaced value depth
  simp [writeMember, Style.colon, name, inside]
termination_by sizeOf member

theorem single_spacedMembers (members : List (Text × Json)) (depth : Nat) :
    '\n' ∉ writeMembers .spaced depth members := by
  cases members with
  | nil => exact List.not_mem_nil
  | cons member members =>
      have first := single_spacedMember member depth
      have later := single_spacedMembers members depth
      simp [writeMembers, Style.comma, first, later]
termination_by sizeOf members
end

end Json

/-! ## Types without blank lines -/

namespace TypeExpr

open Text

theorem begins_indent (depth : Nat) {rest : Text} (begins : Begins rest) :
    Begins (indent depth ++ rest) := by
  cases depth with
  | zero => exact begins
  | succ depth => exact begins_cons (by decide) _

theorem gapless_renderMembers {depth : Nat} {separator : Text} {members : List TypeExpr}
    (single : '\n' ∉ separator) (each : ∀ member ∈ members, Gapless (render depth member)) :
    Gapless (renderMembers depth separator members) := by
  induction members with
  | nil => trivial
  | cons member members ih =>
      rw [List.forall_mem_cons] at each
      cases members with
      | nil => exact each.1
      | cons next members =>
          rw [renderMembers]
          · exact (each.1.append (gapless_of_not_mem single)).append (ih each.2)
          · simp

/-- The line of a field is not empty. -/
theorem line_renderField {depth : Nat} {field : Field TypeExpr}
    (whole : Gapless (render depth field.type)) :
    Begins (renderField depth field) ∧ Gapless (renderField depth field) := by
  obtain ⟨key, type, optional⟩ := field
  have mark : '\n' ∉ optionalMark optional := by cases optional <;> decide
  have inside : Gapless (':' :: ' ' :: render depth type) :=
    .cons (by decide) (.cons (by decide) whole)
  have name : Begins (indent depth ++ Json.quote key) :=
    begins_indent depth (begins_cons (by decide) _)
  refine ⟨((name.append _).append _).append _, ?_⟩
  apply Gapless.append
  · apply Gapless.append
    · apply Gapless.append
      · apply Gapless.append
        · exact gapless_of_not_mem (single_indent depth)
        · exact gapless_of_not_mem (Json.single_quote key)
      · exact gapless_of_not_mem mark
    · exact inside
  · exact gapless_of_not_mem (by decide)

theorem lines_renderFields {depth : Nat} {field : Field TypeExpr} {fields : List (Field TypeExpr)}
    (each : ∀ field' ∈ field :: fields, Gapless (render depth field'.type)) :
    Begins (renderFields depth (field :: fields)) ∧
      Gapless (renderFields depth (field :: fields)) := by
  induction fields generalizing field with
  | nil => exact line_renderField (each field List.mem_cons_self)
  | cons next fields ih =>
      rw [List.forall_mem_cons] at each
      obtain ⟨begins, here⟩ := line_renderField each.1
      obtain ⟨begins', later⟩ := ih each.2
      exact ⟨begins.append _, here.append (later.line begins')⟩

theorem gapless_record {depth : Nat} {fields : List (Field TypeExpr)}
    (each : ∀ field ∈ fields, Gapless (render (depth + 1) field.type)) :
    Gapless (render depth (.record fields)) := by
  cases fields with
  | nil =>
      show Gapless ['{', '}']
      exact gapless_of_not_mem (by decide)
  | cons field fields =>
      obtain ⟨begins, inside⟩ := lines_renderFields each
      have closing : Gapless ('\n' :: (indent depth ++ ['}'])) := by
        apply Gapless.line (begins_indent depth (begins_cons (by decide) _))
        exact (gapless_of_not_mem (single_indent depth)).append (gapless_of_not_mem (by decide))
      rw [render_record, List.append_assoc]
      exact .cons (by decide) ((inside.line begins).append closing)

end TypeExpr

namespace Schema

open Text TypeExpr

/-- The members that are left of a combination hold no blank line, nor does the only one of
them. -/
theorem gapless_of_distinct {types : List TypeExpr} {combine : List TypeExpr → TypeExpr}
    (each : ∀ type ∈ types, ∀ depth, Gapless (type.render depth))
    (several : ∀ members : List TypeExpr, (∀ type ∈ members, ∀ depth, Gapless (type.render depth)) →
      ∀ depth, Gapless ((combine members).render depth)) (depth : Nat) :
    Gapless (TypeExpr.render depth (match distinct types with
      | [] => .unknown
      | [type] => type
      | members => combine members)) := by
  have kept : ∀ type ∈ distinct types, ∀ depth, Gapless (type.render depth) :=
    fun type member => each type (List.mem_eraseDups.mp member)
  split
  · show Gapless "unknown".toList
    exact gapless_of_not_mem (by decide)
  · rename_i type only
    exact kept type (by simp [only]) depth
  · exact several _ kept depth

theorem not_mem_of_isTypeName {name : Text} (known : IsTypeName name) {c : Char}
    (other : c.isAlphanum = false) (bar : c ≠ '_') : c ∉ name := by
  obtain ⟨first, rest, rfl, start, all⟩ := known
  intro member
  rcases List.mem_cons.mp member with rfl | later
  · rcases start with upper | rfl
    · have letter : c.isAlpha = true := (Bool.or_eq_true _ _).mpr (.inl upper)
      rw [Char.isAlphanum, letter, Bool.true_or] at other
      cases other
    · exact bar rfl
  · rw [all c later] at other
    cases other

theorem isTypeName_of_known {document : Json} {name : Text}
    (known : name = Name.root ∨ ∃ d ∈ definitions document, d.name = name) : IsTypeName name := by
  rcases known with rfl | ⟨d, member, rfl⟩
  · exact Name.isTypeName_root
  · exact isTypeName_of_mem_definitions member

theorem closed_gapless (document : Json) :
    Closed (definitions document) fun type => ∀ depth, Gapless (type.render depth) where
  unknown _ := by
    show Gapless "unknown".toList
    exact gapless_of_not_mem (by decide)
  primitive kind _ := by
    have single : '\n' ∉ kind.keyword := by cases kind <;> decide
    exact gapless_of_not_mem single
  literal v _ := gapless_of_not_mem (Json.single_spaced v 0)
  named name known _ :=
    gapless_of_not_mem (not_mem_of_isTypeName (isTypeName_of_known known) (by decide) (by decide))
  array item whole depth := by
    show Gapless ('(' :: item.render depth ++ [')', '[', ']'])
    exact .cons (by decide) ((whole depth).append (gapless_of_not_mem (by decide)))
  union types each := gapless_of_distinct each fun members kept depth =>
    have single : '\n' ∉ " | ".toList := by decide
    gapless_renderMembers single fun member known => kept member known depth
  intersection types each := gapless_of_distinct each fun members kept depth =>
    have single : '\n' ∉ " & ".toList := by decide
    gapless_renderMembers single fun member known => kept member known depth
  record fields each depth := gapless_record fun field member => each field member (depth + 1)

/-! ## Declarations -/

/-- The name and the type of a declaration of a type. -/
def readDeclaration? (t : Text) : Option (Text × Text) := do
  let rest ← after? "export type " t
  let (name, type) ← cutAtText? " = " rest
  if type.getLast? = some ';' then some (name, type.dropLast) else none

/-- The types that are declared in generated code, in order. -/
def declared (code : Text) : List (Text × Text) :=
  (paragraphs (Name.withoutFinalNewline code)).filterMap readDeclaration?

theorem append_five (a b c d e : Text) : a ++ b ++ c ++ d ++ e = a ++ (b ++ (c ++ (d ++ e))) := by
  simp only [List.append_assoc]

/-- The paragraph of a type. -/
def typeLine (name : Text) (type : TypeExpr) : Text :=
  "export type ".toList ++ (name ++ (" = ".toList ++ (type.render 0 ++ [';'])))

theorem readDeclaration?_typeLine {name : Text} (known : IsTypeName name) (type : TypeExpr) :
    readDeclaration? (typeLine name type) = some (name, type.render 0) := by
  have absent : ' ' ∉ name := not_mem_of_isTypeName known (by decide) (by decide)
  have cut : cutAtText? " = " (name ++ (" = ".toList ++ (type.render 0 ++ [';']))) =
      some (name, type.render 0 ++ [';']) :=
    cutAtText?_append absent (type.render 0 ++ [';'])
  unfold readDeclaration? typeLine
  simp only [after?_append, Option.bind_eq_bind, Option.bind_some, cut, List.getLast?_concat,
    if_true, List.dropLast_concat]

theorem gapless_typeLine {name : Text} (known : IsTypeName name) {type : TypeExpr}
    (whole : Gapless (type.render 0)) : Gapless (typeLine name type) := by
  have single : '\n' ∉ name := not_mem_of_isTypeName known (by decide) (by decide)
  apply Gapless.append (gapless_of_not_mem (by decide))
  apply Gapless.append (gapless_of_not_mem single)
  apply Gapless.append (gapless_of_not_mem (by decide))
  exact whole.append (gapless_of_not_mem (by decide))

/-- The paragraph of the document itself. -/
def mainLine (type : TypeExpr) : Text :=
  match type with
  | .record _ => "export interface Root " ++ type.render 0
  | _ => typeLine Name.root type

theorem gapless_mainLine {type : TypeExpr} (whole : Gapless (type.render 0)) :
    Gapless (mainLine type) := by
  unfold mainLine
  split
  · exact .append (gapless_of_not_mem (by decide)) whole
  · exact gapless_typeLine Name.isTypeName_root whole

theorem name_of_readDeclaration?_mainLine {type : TypeExpr} {pair : Text × Text}
    (h : readDeclaration? (mainLine type) = some pair) : pair.1 = Name.root := by
  unfold mainLine at h
  split at h
  · rename_i fields
    have other : after? "export type " ("export interface Root ".toList ++
        (TypeExpr.record fields).render 0) = none := by
      rw [Option.eq_none_iff_forall_ne_some]
      intro rest found
      have sixth := congrArg (fun t => t[7]?) (after?_eq_some.mp found)
      cases sixth
    rw [readDeclaration?, other] at h
    cases h
  · rw [readDeclaration?_typeLine Name.isTypeName_root] at h
    cases h
    rfl

/-- The paragraph of a definition. -/
def LineOf (document : Json) (d : Definition) (line : Text) : Prop :=
  ∃ type, convert (definitions document) d.schema = .ok type ∧ line = typeLine d.name type

/-- The code of a document is the paragraph of the document and those of its definitions. -/
theorem exists_lines_of_codeOfDocument {document : Json} {text : Text}
    (h : codeOfDocument document = .ok text) :
    ∃ type lines, convert (definitions document) document = .ok type ∧
      List.Forall₂ (LineOf document) (definitions document) lines ∧
      text = join ['\n', '\n'] (mainLine type :: lines) ++ ['\n'] := by
  simp only [codeOfDocument, bind_eq_ok] at h
  obtain ⟨type, main, lines, each, same⟩ := h
  refine ⟨type, lines, main, ?_, ?_⟩
  · refine (mapM_eq_ok.mp each).imp fun d line here => ?_
    obtain ⟨type, converted, spelled⟩ := bind_eq_ok.mp here
    exact ⟨type, converted, (Except.ok.inj spelled).symm.trans (append_five _ _ _ _ _)⟩
  · cases same
    cases type <;> rfl

/-- What a definition is declared as. -/
def Declares (document : Json) (d : Definition) (pair : Text × Text) : Prop :=
  pair.1 = d.name ∧ ∃ type, convert (definitions document) d.schema = .ok type ∧
    pair.2 = type.render 0

theorem exists_pairs_of_lines {document : Json} {defs : List Definition} {lines : List Text}
    (names : ∀ d ∈ defs, IsTypeName d.name) (each : List.Forall₂ (LineOf document) defs lines) :
    List.Forall₂ (Declares document) defs (lines.filterMap readDeclaration?) := by
  induction each with
  | nil => exact .nil
  | cons here later ih =>
      rw [List.forall_mem_cons] at names
      obtain ⟨type, converted, rfl⟩ := here
      rw [List.filterMap_cons_some (readDeclaration?_typeLine names.1 type)]
      exact .cons ⟨rfl, type, converted, rfl⟩ (ih names.2)

/-- The code declares the definitions in order, after the document itself. -/
theorem declared_of_codeOfDocument {document : Json} {text : Text}
    (h : codeOfDocument document = .ok text) :
    ∃ main pairs, declared text = main ++ pairs ∧ (∀ pair ∈ main, pair.1 = Name.root) ∧
      List.Forall₂ (Declares document) (definitions document) pairs := by
  obtain ⟨type, lines, converted, each, rfl⟩ := exists_lines_of_codeOfDocument h
  have names : ∀ d ∈ definitions document, IsTypeName d.name :=
    fun d member => isTypeName_of_mem_definitions member
  have gapless {schema : Json} {type : TypeExpr}
      (here : convert (definitions document) schema = .ok type) : Gapless (type.render 0) :=
    (closed_gapless document).convert here 0
  have whole : ∀ part ∈ mainLine type :: lines, Gapless part := by
    refine List.forall_mem_cons.mpr ⟨gapless_mainLine (gapless converted), ?_⟩
    intro line member
    obtain ⟨d, known, type, here, rfl⟩ := exists_of_forall₂_right each member
    exact gapless_typeLine (names d known) (gapless here)
  rw [declared, Name.withoutFinalNewline_concat, paragraphs_join (List.cons_ne_nil _ _) whole,
    List.filterMap_cons]
  have pairs := exists_pairs_of_lines names each
  cases main : readDeclaration? (mainLine type) with
  | none => exact ⟨[], _, rfl, List.forall_mem_nil _, pairs⟩
  | some pair =>
      refine ⟨[pair], _, rfl, ?_, pairs⟩
      rw [List.forall_mem_singleton]
      exact name_of_readDeclaration?_mainLine main

end Schema

end Recast
