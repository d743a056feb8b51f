import Recast.Proofs.Schema.Declaration

/-! # What references reach

A reference into either container of a document converts to the name of a definition. The code
declares that name once, and as what the schema pointed at converts to, unless another
definition has come to share the name or a schema under `$defs` hides the one pointed at.
-/

namespace Recast.Schema

open Text Json

/-! ## The two containers -/

/-- The schemas under a container. -/
def schemasUnder (container : Text) (document : Json) : List (Text × Json) :=
  match document.get? container with
  | some (.object schemas) => schemas
  | _ => []

theorem definitionSchemas_eq (document : Json) :
    definitionSchemas document =
      addMissing (addMissing [] (schemasUnder "$defs" document))
        (schemasUnder "definitions" document) := by
  have step (found : List (Text × Json)) (container : Text) :
      (match document.get? container with
        | some (.object members) => addMissing found members
        | _ => found) = addMissing found (schemasUnder container document) := by
    unfold schemasUnder
    split <;> rfl
  rw [← step, ← step]
  rfl

theorem lookup_containers (document : Json) (key : Text) :
    (definitionSchemas document).lookup key =
      ((schemasUnder "$defs" document).lookup key).or
        ((schemasUnder "definitions" document).lookup key) := by
  rw [definitionSchemas_eq, lookup_addMissing, lookup_addMissing]
  rfl

theorem nodup_addMissing {found : List (Text × Json)} (members : List (Text × Json))
    (nodup : (found.map Prod.fst).Nodup) : ((addMissing found members).map Prod.fst).Nodup := by
  induction members generalizing found with
  | nil => exact nodup
  | cons member rest ih =>
      obtain ⟨key, schema⟩ := member
      have step : addMissing found ((key, schema) :: rest) =
          addMissing (if (found.lookup key).isSome then found else found ++ [(key, schema)]) rest :=
        rfl
      rw [step]
      apply ih
      split
      · exact nodup
      · rename_i missing
        rw [Bool.not_eq_true, Option.isSome_eq_false_iff, Option.isNone_iff_eq_none,
          List.lookup_eq_none_iff] at missing
        rw [List.map_append, List.nodup_append]
        refine ⟨nodup, List.nodup_singleton _, ?_⟩
        rintro k known _ last rfl
        obtain ⟨pair, member, rfl⟩ := List.mem_map.mp known
        obtain rfl := List.mem_singleton.mp last
        simpa using missing pair member

theorem map_key_nameDefinitions (pool : NamePool) (schemas : List (Text × Json)) :
    (nameDefinitions pool schemas).map Definition.key = schemas.map Prod.fst := by
  induction schemas generalizing pool with
  | nil => rfl
  | cons schema rest ih => exact congrArg (schema.1 :: ·) (ih _)

theorem nodup_keys_definitions (document : Json) :
    ((definitions document).map Definition.key).Nodup := by
  rw [definitions, map_key_nameDefinitions, definitionSchemas_eq]
  exact nodup_addMissing _ (nodup_addMissing _ List.nodup_nil)

/-- A schema of the same key under the container that goes before. -/
def Hides (document : Json) (container key : Text) (other : Json) : Prop :=
  container = "definitions" ∧
    ∃ schemas, document.get? "$defs" = some (.object schemas) ∧ find? key schemas = some other

theorem hides_iff {document : Json} {key : Text} {other : Json} :
    Hides document "definitions" key other ↔
      (schemasUnder "$defs" document).lookup key = some other := by
  constructor
  · rintro ⟨-, schemas, holds, found⟩
    rw [schemasUnder, holds]
    exact found
  · intro found
    unfold schemasUnder at found
    split at found
    · rename_i schemas holds
      exact ⟨rfl, schemas, holds, found⟩
    · cases found

theorem Hides.unique {document first second : Json} {container key : Text}
    (hides : Hides document container key first) (hides' : Hides document container key second) :
    first = second := by
  obtain ⟨-, schemas, holds, found⟩ := hides
  obtain ⟨-, schemas', holds', found'⟩ := hides'
  rw [holds] at holds'
  cases holds'
  exact Option.some.inj (found.symm.trans found')

/-- The schema that a definition has, be it the one pointed at or one that hides it. -/
theorem lookup_of_stored {document schema : Json} {container key : Text}
    {schemas : List (Text × Json)} (known : container ∈ containers)
    (holds : document.get? container = some (.object schemas))
    (stored : find? key schemas = some schema) :
    ∃ first, (definitionSchemas document).lookup key = some first ∧
      (Hides document container key first ∨
        first = schema ∧ ∀ other, ¬ Hides document container key other) := by
  have here : (schemasUnder container document).lookup key = some schema := by
    rw [schemasUnder, holds]
    exact stored
  rw [lookup_containers]
  simp only [containers, List.mem_cons, List.not_mem_nil, or_false] at known
  rcases known with rfl | rfl
  · rw [here]
    refine ⟨schema, rfl, .inr ⟨rfl, ?_⟩⟩
    rintro other ⟨same, -⟩
    exact absurd same (by decide)
  · cases hidden : (schemasUnder "$defs" document).lookup key with
    | some other => exact ⟨other, rfl, .inl (hides_iff.mpr hidden)⟩
    | none =>
        refine ⟨schema, here, .inr ⟨rfl, ?_⟩⟩
        intro other hides
        rw [hides_iff, hidden] at hides
        cases hides

/-! ## References -/

/-- The reference to what a container has under a key. -/
def pointerTo (container key : Text) : Text := "#/".toList ++ (container ++ '/' :: escapeToken key)

theorem resolve_pointerTo {defs : List Definition} {container key : Text} {d : Definition}
    (known : container ∈ containers) (found : defs.find? (fun d => d.key = key) = some d) :
    resolve defs (.string (pointerTo container key)) = .named d.name := by
  have whole : pointerTo container key ≠ "#" :=
    fun same => List.cons_ne_nil _ _ (congrArg List.tail same)
  have path : after? "#/" (pointerTo container key) = some (container ++ '/' :: escapeToken key) :=
    after?_append _ _
  have plain : '/' ∉ container := by
    simp only [containers, List.mem_cons, List.not_mem_nil, or_false] at known
    rcases known with rfl | rfl <;> decide
  have tokens : splitOn '/' (container ++ '/' :: escapeToken key) = [container, escapeToken key] := by
    rw [splitOn_append_cons plain, splitOn_of_not_mem (slash_not_mem_escapeToken key)]
  simp only [resolve, if_neg whole, path, tokens, if_pos known, unescapeToken_escapeToken, found]

/-- Only a list under `enum` goes before a reference. -/
theorem convert_ref_of_no_list {defs : List Definition} {members : List (Text × Json)} {ref : Json}
    (enum : ∀ values, find? "enum" members ≠ some (.array values))
    (h : find? "$ref" members = some ref) :
    convert defs (.object members) = .ok (resolve defs ref) := by
  rw [convert]
  split
  · rename_i values found
    exact absurd found (enum values)
  · simp only [h]

/-! ## Declarations of one name -/

/-- No definition has the name of the document itself. -/
theorem root_not_mem_claimAll (bases : List Text) :
    Name.root ∉ NamePool.claimAll (NamePool.claim Name.root []).2 bases := by
  intro member
  rw [NamePool.claimAll_eq_map] at member
  obtain ⟨⟨base, n⟩, issued, same⟩ := List.mem_map.mp member
  have later := (NamePool.mem_issued.mp issued).1
  by_cases first : n = 1
  · subst first
    simp only [NamePool.numbered_one] at same
    subst same
    exact absurd later (by decide)
  · simp only [NamePool.numbered_of_two_le (show 2 ≤ n by omega)] at same
    rcases List.eq_nil_or_concat (ofNat n) with none | ⟨start, c, spelled⟩
    · exact Nat.toDigits_ne_nil none
    · rw [List.concat_eq_append] at spelled
      have digit := digits_ofNat n c (by rw [spelled]; simp)
      have last := congrArg List.getLast? same
      rw [spelled, ← List.append_assoc, List.getLast?_concat] at last
      cases last
      cases digit

theorem name_ne_root {document : Json} {d : Definition} (member : d ∈ definitions document) :
    d.name ≠ Name.root := by
  intro same
  have listed := List.mem_map_of_mem (f := Definition.name) member
  rw [definitions, map_name_nameDefinitions, same] at listed
  exact root_not_mem_claimAll _ listed

/-- The types that are declared under a name. -/
def typesOf (name : Text) (pairs : List (Text × Text)) : List Text :=
  (pairs.filter fun pair => pair.1 = name).map Prod.snd

theorem typesOf_append (name : Text) (pairs pairs' : List (Text × Text)) :
    typesOf name (pairs ++ pairs') = typesOf name pairs ++ typesOf name pairs' := by
  rw [typesOf, List.filter_append, List.map_append]
  rfl

theorem typesOf_eq_nil_iff {document : Json} {defs : List Definition} {pairs : List (Text × Text)}
    (each : List.Forall₂ (Declares document) defs pairs) (name : Text) :
    typesOf name pairs = [] ↔ ∀ d ∈ defs, d.name ≠ name := by
  simp only [typesOf, List.map_eq_nil_iff, List.filter_eq_nil_iff, decide_eq_true_eq]
  constructor
  · intro none d member same
    obtain ⟨pair, listed, named, -⟩ := exists_of_forall₂_left each member
    exact none pair listed (named.trans same)
  · intro none pair listed same
    obtain ⟨d, member, named, -⟩ := exists_of_forall₂_right each listed
    exact none d member (named.symm.trans same)

theorem exists_split_of_forall₂ {α β : Type} {R : α → β → Prop} {xs : List α} {ys : List β}
    (h : List.Forall₂ R xs ys) {x : α} (member : x ∈ xs) :
    ∃ before after before' y after', xs = before ++ x :: after ∧ ys = before' ++ y :: after' ∧
      List.Forall₂ R before before' ∧ R x y ∧ List.Forall₂ R after after' := by
  induction h with
  | nil => cases member
  | cons here later ih =>
      rcases List.mem_cons.mp member with rfl | member
      · exact ⟨[], _, [], _, _, rfl, rfl, .nil, here, later⟩
      · obtain ⟨before, after, before', y, after', rfl, rfl, left, middle, right⟩ := ih member
        exact ⟨_ :: before, after, _ :: before', y, after', rfl, rfl, .cons here left, middle, right⟩

/-- The text of the type of a schema. -/
def rendered (defs : List Definition) (schema : Json) : Except MalformedCombinator Text :=
  (convert defs schema).map (TypeExpr.render 0)

/-- A name is declared once, and with this text, when no other definition has it and its own
type has the text. -/
theorem typesOf_eq_singleton_iff {document : Json} {pairs : List (Text × Text)}
    (each : List.Forall₂ (Declares document) (definitions document) pairs) {d : Definition}
    (member : d ∈ definitions document) (t : Text) :
    typesOf d.name pairs = [t] ↔
      (∀ other ∈ definitions document, other.name = d.name → other.key = d.key) ∧
        rendered (definitions document) d.schema = .ok t := by
  obtain ⟨before, after, before', pair, after', split, rfl, left, ⟨named, type, converted, spelled⟩,
    right⟩ := exists_split_of_forall₂ each member
  have alone : (∀ other ∈ definitions document, other.name = d.name → other.key = d.key) ↔
      (∀ other ∈ before, other.name ≠ d.name) ∧ ∀ other ∈ after, other.name ≠ d.name := by
    have nodup := nodup_keys_definitions document
    rw [split, List.map_append, List.map_cons, List.nodup_append, List.nodup_cons] at nodup
    obtain ⟨-, ⟨apart, -⟩, apart'⟩ := nodup
    rw [split, List.forall_mem_append, List.forall_mem_cons]
    constructor
    · rintro ⟨earlier, -, later⟩
      constructor
      · intro other known same
        exact apart' _ (List.mem_map_of_mem known) _ List.mem_cons_self (earlier other known same)
      · intro other known same
        apply apart
        rw [← later other known same]
        exact List.mem_map_of_mem known
    · rintro ⟨earlier, later⟩
      exact ⟨fun other known same => absurd same (earlier other known), fun _ => rfl,
        fun other known same => absurd same (later other known)⟩
  have text : rendered (definitions document) d.schema = .ok t ↔ pair.2 = t := by
    rw [rendered, converted, spelled]
    exact ⟨Except.ok.inj, congrArg Except.ok⟩
  have own : typesOf d.name (pair :: after') = pair.2 :: typesOf d.name after' := by
    have here : decide (pair.1 = d.name) = true := decide_eq_true named
    simp only [typesOf, List.filter_cons, here, if_true, List.map_cons]
  rw [alone, text, ← typesOf_eq_nil_iff left, ← typesOf_eq_nil_iff right, typesOf_append, own,
    List.append_eq_singleton_iff]
  simp only [List.cons.injEq, reduceCtorEq, and_false, or_false]
  rw [and_assoc]
  exact and_congr_right fun _ => and_comm

/-! ## Where references lead -/

theorem rendered_eq_iff {document schema first : Json} {container key : Text}
    (reached : Hides document container key first ∨
      first = schema ∧ ∀ other, ¬ Hides document container key other) :
    rendered (definitions document) first = rendered (definitions document) schema ↔
      ∀ other, Hides document container key other →
        rendered (definitions document) other = rendered (definitions document) schema := by
  rcases reached with hides | ⟨rfl, visible⟩
  · constructor
    · intro same other hides'
      rw [hides'.unique hides]
      exact same
    · intro all
      exact all first hides
  · exact ⟨fun _ other hides => absurd hides (visible other), fun _ => rfl⟩

/-- A document with definitions is a schema document. -/
theorem code_eq_codeOfDocument {document : Json} {container : Text} {schemas : List (Text × Json)}
    (known : container ∈ containers) (holds : document.get? container = some (.object schemas)) :
    code document = codeOfDocument document := by
  have keyword : container ∈ keywords := by
    simp only [containers, List.mem_cons, List.not_mem_nil, or_false] at known
    rcases known with rfl | rfl <;> decide
  have schema : looksLikeSchema document = true := by
    cases document with
    | object members =>
        rw [looksLikeSchema, List.any_eq_true]
        exact ⟨container, keyword, Option.isSome_of_eq_some holds⟩
    | _ => cases holds
  rw [code, if_pos schema]

/-- A reference into a container converts to the name of the definition with its key. The code
declares this name once, and as what the schema pointed at converts to, exactly when no other
definition has the name and the schema is not hidden by one with another text. -/
theorem convert_pointerTo {document schema : Json} {container key : Text}
    {schemas members : List (Text × Json)} (known : container ∈ containers)
    (holds : document.get? container = some (.object schemas))
    (stored : find? key schemas = some schema)
    (enum : ∀ values, find? "enum" members ≠ some (.array values))
    (ref : find? "$ref" members = some (.string (pointerTo container key))) :
    ∃ d ∈ definitions document, d.key = key ∧
      convert (definitions document) (.object members) = .ok (.named d.name) ∧
      ∀ text, code document = .ok text →
        ((∃ type, convert (definitions document) schema = .ok type ∧
            typesOf d.name (declared text) = [type.render 0]) ↔
          (∀ other ∈ definitions document, other.name = d.name → other.key = key) ∧
            ∀ other, Hides document container key other →
              rendered (definitions document) other = rendered (definitions document) schema) := by
  obtain ⟨first, found, reached⟩ := lookup_of_stored known holds stored
  obtain ⟨d, member, rfl, same⟩ := find?_nameDefinitions (NamePool.claim Name.root []).2 found
  have named : d.key = key := by simpa using List.find?_some same
  have resolved := resolve_pointerTo known same
  refine ⟨d, member, named, (convert_ref_of_no_list enum ref).trans (congrArg _ resolved), ?_⟩
  intro text written
  rw [code_eq_codeOfDocument known holds] at written
  obtain ⟨main, pairs, spelled, roots, each⟩ := declared_of_codeOfDocument written
  have none : typesOf d.name main = [] := by
    simp only [typesOf, List.map_eq_nil_iff, List.filter_eq_nil_iff, decide_eq_true_eq]
    intro pair listed same
    exact name_ne_root member (same.symm.trans (roots pair listed))
  simp only [spelled, typesOf_append, none, List.nil_append, typesOf_eq_singleton_iff each member,
    named]
  rw [← rendered_eq_iff reached]
  constructor
  · rintro ⟨type, converted, alone, same⟩
    refine ⟨alone, ?_⟩
    rw [same, rendered, converted]
    rfl
  · rintro ⟨alone, same⟩
    obtain ⟨pair, -, -, type, converted, -⟩ := exists_of_forall₂_left each member
    rw [rendered, converted] at same
    obtain ⟨type', converted', text⟩ := map_eq_ok.mp same.symm
    refine ⟨type', converted', alone, ?_⟩
    rw [text, rendered, converted]
    rfl

/-- A schema that only a constant fits. -/
def constant (v : Json) : Json := .object [("const", v)]

theorem convert_constant (defs : List Definition) (v : Json) :
    convert defs (constant v) = .ok (literal v) := by
  apply convert_const _ rfl
  intro key known
  simp only [List.mem_cons, List.not_mem_nil, or_false] at known
  rcases known with rfl | rfl <;> rfl

theorem line_constant (defs : List Definition) (name : Text) (v : Json) :
    (do
      let type ← convert defs (constant v)
      return ("export type " : Text) ++ name ++ " = " ++ type.render 0 ++ [';'] :
        Except MalformedCombinator Text) =
      .ok (("export type " : Text) ++ name ++ " = " ++ v.spaced ++ [';']) := by
  rw [convert_constant]
  rfl

/-- A key with a slash, and another one of the same base. -/
def slashedMembers : List (Text × Json) :=
  [("a/b", constant (.string "x")), ("A B", constant (.int 1))]

def slashedDocument : Json :=
  .object [("definitions", .object slashedMembers), ("$ref", .string "#/definitions/a~1b")]

theorem code_slashedDocument : ∃ text, code slashedDocument = .ok text := by
  have main : convert (definitions slashedDocument) slashedDocument = .ok (.named "AB") :=
    (convert_ref (by decide) rfl).trans (congrArg Except.ok (by decide))
  exact ⟨_, bind_eq_ok.mpr ⟨_, main, bind_eq_ok.mpr ⟨_, mapM_eq_ok.mpr
    (.cons (line_constant _ _ _) (.cons (line_constant _ _ _) .nil)), rfl⟩⟩⟩

theorem convert_pointerTo_slashedDocument :
    ∃ text, code slashedDocument = .ok text ∧
      convert (definitions slashedDocument) slashedDocument = .ok (.named "AB") ∧
      ∃ type, convert (definitions slashedDocument) (constant (.string "x")) = .ok type ∧
        typesOf "AB" (declared text) = [type.render 0] := by
  obtain ⟨text, written⟩ := code_slashedDocument
  have known : "definitions".toList ∈ containers := by decide
  have holds : slashedDocument.get? "definitions" = some (.object slashedMembers) := rfl
  have stored : find? "a/b" slashedMembers = some (constant (.string "x")) := rfl
  obtain ⟨d, member, key, converted, once⟩ := convert_pointerTo known holds stored
    (fun _ found => by cases found) (rfl : find? "$ref"
      [("definitions", .object slashedMembers), ("$ref", .string "#/definitions/a~1b")] = _)
  have name : d.name = "AB" := by
    have names : ∀ d ∈ definitions slashedDocument, d.key = "a/b" → d.name = "AB" := by
      decide
    exact names d member key
  rw [name] at converted once
  refine ⟨text, written, converted, (once text written).mpr ⟨by decide, ?_⟩⟩
  rintro other ⟨-, schemas, none, -⟩
  cases none

/-- Keys whose names meet. -/
def meetingDocument : Json := .object [
  ("$defs", .object [("a", constant (.int 1)), ("A", constant (.int 2)), ("a2", constant (.int 3))]),
  ("$ref", .string "#/$defs/a2")]

/-- A key under both containers. -/
def hidingDocument : Json := .object [
  ("$defs", .object [("n", constant (.int 1))]),
  ("definitions", .object [("n", constant (.int 2))]),
  ("$ref", .string "#/definitions/n")]

/-- A name that is declared twice, and one that is declared as what the reference does not point
at. -/
theorem references_astray :
    (∃ text, code meetingDocument = .ok text ∧
      convert (definitions meetingDocument) meetingDocument = .ok (.named "A2") ∧
      typesOf "A2" (declared text) = ["2".toList, "3".toList]) ∧
    ∃ text type, code hidingDocument = .ok text ∧
      convert (definitions hidingDocument) hidingDocument = .ok (.named "N") ∧
      convert (definitions hidingDocument) (constant (.int 2)) = .ok type ∧
      typesOf "N" (declared text) = ["1".toList] ∧ type.render 0 = "2" := by
  have meeting : convert (definitions meetingDocument) meetingDocument = .ok (.named "A2") :=
    (convert_ref (by decide) rfl).trans (congrArg Except.ok (by decide))
  have hidden : convert (definitions hidingDocument) hidingDocument = .ok (.named "N") :=
    (convert_ref (by decide) rfl).trans (congrArg Except.ok (by decide))
  constructor
  · refine ⟨_, bind_eq_ok.mpr ⟨_, meeting, bind_eq_ok.mpr ⟨_, mapM_eq_ok.mpr
      (.cons (line_constant _ _ _) (.cons (line_constant _ _ _)
        (.cons (line_constant _ _ _) .nil))), rfl⟩⟩, meeting, ?_⟩
    decide
  · refine ⟨_, _, bind_eq_ok.mpr ⟨_, hidden, bind_eq_ok.mpr ⟨_, mapM_eq_ok.mpr
      (.cons (line_constant _ _ _) .nil), rfl⟩⟩, hidden, convert_constant _ _, ?_, rfl⟩
    decide

end Recast.Schema
