import Recast.Proofs.Types.Constants

/-! # Reading what was written

A type expression is read back as the tree that it mirrors, grouped by precedence alone.
So it keeps its meaning exactly when no intersection has a union directly inside and no
constant is a number that is not finite.
-/

namespace Recast

namespace TypeTree

mutual
def ofJson : Json → TypeTree
  | .null => .keyword "null"
  | .bool true => .keyword "true"
  | .bool false => .keyword "false"
  | .int n => .literal (Text.ofInt n)
  | .float x => .literal (Json.numberLayout.write x)
  | .string s => .literal (Json.quote s)
  | .array items => .tuple (ofItems items)
  | .object members => .record (ofMembers members)

def ofItems : List Json → List TypeTree
  | [] => []
  | item :: items => ofJson item :: ofItems items

def ofMembers : List (Text × Json) → List (Field TypeTree)
  | [] => []
  | (key, value) :: members => ⟨key, ofJson value, false⟩ :: ofMembers members
end

theorem numeral_of_finite {x : Binary64}
    (h : Finite (.literal (Json.numberLayout.write x))) :
    Json.Numeral (Json.numberLayout.write x) := by
  rw [Finite, everywhere_literal, finite, decide_eq_true_eq] at h
  cases x with
  | finite negative mantissa exponent => exact Json.numeral_write negative mantissa exponent
  | infinite negative => cases negative <;> exact absurd (by decide) h
  | nan => exact absurd (by decide) h

end TypeTree

namespace TypeText

open TypeTree

section

variable {s : State} {rest : Text} {frames : List Frame} {l : Level}

theorem isWord_of_mem_keywords {word : Text} (member : word ∈ keywords) : IsWord word := by
  simp only [keywords, List.mem_cons, List.not_mem_nil, or_false] at member
  rcases member with rfl | rfl | rfl | rfl | rfl | rfl | rfl <;> exact ⟨_, _, rfl, by decide⟩

theorem runText_keyword {word : Text} (member : word ∈ keywords) (h : delimited rest) :
    runText (word ++ rest) ⟨.operand l, frames⟩ =
      runText rest ⟨.after ⟨l, .keyword word⟩, frames⟩ := by
  rw [runText_word (isWord_of_mem_keywords member) h, step, begin?, Option.bind_some, ofWord,
    if_pos member]

theorem runText_reference {name : Text} (word : IsWord name) (other : name ∉ keywords)
    (h : delimited rest) :
    runText (name ++ rest) ⟨.operand l, frames⟩ =
      runText rest ⟨.after ⟨l, .reference name⟩, frames⟩ := by
  rw [runText_word word h, step, begin?, Option.bind_some, ofWord, if_neg other]

theorem runText_numeral {text : Text} (numeral : Json.Numeral text) (h : delimited rest) :
    runText (text ++ rest) ⟨.operand l, frames⟩ =
      runText rest ⟨.after ⟨l, .literal text⟩, frames⟩ := by
  rw [runText_number numeral h, step, begin?, Option.bind_some]

theorem runText_quoted (value : Text) :
    runText (Json.quote value ++ rest) ⟨.operand l, frames⟩ =
      runText rest ⟨.after ⟨l, .literal (Json.quote value)⟩, frames⟩ := by
  rw [runText_string, step, begin?, Option.bind_some]

theorem runText_blanks {blanks : Text} (all : ∀ c ∈ blanks, Json.isSpace c) :
    runText (blanks ++ rest) s = runText rest s := by
  induction blanks with
  | nil => rfl
  | cons c blanks ih =>
      rw [List.forall_mem_cons] at all
      rw [List.cons_append, runText_space all.1, ih all.2]

theorem runText_indent (depth : Nat) :
    runText (TypeExpr.indent depth ++ rest) s = runText rest s := by
  refine runText_blanks fun c member => ?_
  rw [List.eq_of_mem_replicate member]
  rfl

/-! ## Constants -/

variable {depth : Nat}

theorem delimited_writeItems (items : List Json) :
    delimited (Json.writeItems .spaced depth items ++ ']' :: rest) := by
  cases items <;> rfl

theorem delimited_writeMembers (members : List (Text × Json)) :
    delimited (Json.writeMembers .spaced depth members ++ '}' :: rest) := by
  cases members <;> rfl

end

theorem write_array (item : Json) (items : List Json) :
    Json.write .spaced depth (.array (item :: items)) =
      '[' :: (Json.write .spaced (depth + 1) item ++
        (Json.writeItems .spaced (depth + 1) items ++ [']'])) := by
  have written : Json.write .spaced depth (.array (item :: items)) =
      '[' :: [] ++ Json.write .spaced (depth + 1) item
        ++ Json.writeItems .spaced (depth + 1) items ++ [] ++ [']'] := rfl
  rw [written, List.append_nil, List.append_assoc, List.append_assoc]
  rfl

theorem write_object (member : Text × Json) (members : List (Text × Json)) :
    Json.write .spaced depth (.object (member :: members)) =
      '{' :: (Json.writeMember .spaced (depth + 1) member ++
        (Json.writeMembers .spaced (depth + 1) members ++ ['}'])) := by
  have written : Json.write .spaced depth (.object (member :: members)) =
      '{' :: [] ++ Json.writeMember .spaced (depth + 1) member
        ++ Json.writeMembers .spaced (depth + 1) members ++ [] ++ ['}'] := rfl
  rw [written, List.append_nil, List.append_assoc, List.append_assoc]
  rfl

mutual
/-- The text of a value is read as the type of that value. -/
theorem runText_write (v : Json) (depth : Nat) (known : Finite (ofJson v)) {l : Level}
    {frames : List Frame} {rest : Text} (h : delimited rest) :
    runText (Json.write .spaced depth v ++ rest) ⟨.operand l, frames⟩ =
      runText rest ⟨.after (feed l (ofJson v)), frames⟩ := by
  cases v with
  | null => exact runText_keyword (by decide : "null".toList ∈ keywords) h
  | bool b =>
      cases b with
      | false => exact runText_keyword (by decide : "false".toList ∈ keywords) h
      | true => exact runText_keyword (by decide : "true".toList ∈ keywords) h
  | int n => exact runText_numeral (Json.numeral_ofInt n) h
  | float x => exact runText_numeral (numeral_of_finite known) h
  | string s => exact runText_quoted s
  | array items =>
      cases items with
      | nil => exact runText_emptyTuple
      | cons item items =>
          rw [ofJson, ofItems, finite_tuple, List.forall_mem_cons] at known
          rw [write_array, List.cons_append, List.append_assoc, List.append_assoc,
            List.singleton_append, runText_openTuple,
            runText_write item _ known.1 (delimited_writeItems items),
            runText_writeItems items _ known.2]
          rfl
  | object members =>
      cases members with
      | nil => exact runText_openRecord.trans runText_closeRecord
      | cons member members =>
          rw [ofJson, ofMembers, finite_record, List.forall_mem_cons] at known
          rw [write_object, List.cons_append, List.append_assoc, List.append_assoc,
            List.singleton_append, runText_openRecord,
            runText_writeMember member _ known.1 (delimited_writeMembers members),
            runText_writeMembers members _ known.2]
          rfl
termination_by sizeOf v

theorem runText_writeItems (items : List Json) (depth : Nat)
    (known : ∀ item ∈ ofItems items, Finite item) {l : Level} {done : List TypeTree}
    {r : Reading} {frames : List Frame} {rest : Text} :
    runText (Json.writeItems .spaced depth items ++ ']' :: rest)
        ⟨.after r, .tuple l done :: frames⟩ =
      runText rest
        ⟨.after ⟨l, .tuple (done ++ r.close :: regroupedAll (ofItems items))⟩, frames⟩ := by
  cases items with
  | nil => exact runText_closeTuple
  | cons item items =>
      rw [ofItems, List.forall_mem_cons] at known
      rw [Json.writeItems, show Json.Style.spaced.comma depth = [',', ' '] from rfl]
      simp only [List.append_assoc, List.cons_append, List.nil_append]
      rw [runText_nextItem, runText_space rfl,
        runText_write item _ known.1 (delimited_writeItems items),
        runText_writeItems items _ known.2]
      simp [ofItems, regroupedAll]
termination_by sizeOf items

theorem runText_writeMember (member : Text × Json) (depth : Nat)
    (known : Finite (ofJson member.2)) {l : Level} {done : List (Field TypeTree)}
    {frames : List Frame} {rest : Text} (h : delimited rest) :
    runText (Json.writeMember .spaced depth member ++ rest) ⟨.key l done, frames⟩ =
      runText rest
        ⟨.after (feed {} (ofJson member.2)), .field l done member.1 false :: frames⟩ := by
  cases member with
  | mk key value =>
      rw [Json.writeMember, show Json.Style.spaced.colon = [':', ' '] from rfl]
      simp only [List.append_assoc, List.cons_append, List.nil_append]
      rw [runText_key, runText_colon, runText_space rfl, runText_write value _ known h]
termination_by sizeOf member

theorem runText_writeMembers (members : List (Text × Json)) (depth : Nat)
    (known : ∀ field ∈ ofMembers members, Finite field.type) {l : Level}
    {done : List (Field TypeTree)} {key : Text} {optional : Bool} {r : Reading}
    {frames : List Frame} {rest : Text} :
    runText (Json.writeMembers .spaced depth members ++ '}' :: rest)
        ⟨.after r, .field l done key optional :: frames⟩ =
      runText rest
        ⟨.after ⟨l, .record (done ++
          ⟨key, r.close, optional⟩ :: regroupedFields (ofMembers members))⟩, frames⟩ := by
  cases members with
  | nil => exact runText_lastField
  | cons member members =>
      rw [ofMembers, List.forall_mem_cons] at known
      rw [Json.writeMembers, show Json.Style.spaced.comma depth = [',', ' '] from rfl]
      simp only [List.append_assoc, List.cons_append, List.nil_append]
      rw [runText_nextField (.inr rfl), runText_space rfl,
        runText_writeMember member _ known.1 (delimited_writeMembers members),
        runText_writeMembers members _ known.2]
      simp [ofMembers, regroupedFields]
termination_by sizeOf members
end

/-! ## Type expressions -/

mutual
/-- The tree says what the type expression says. -/
inductive Mirrors : TypeExpr → TypeTree → Prop
  | primitive (kind : Primitive) : Mirrors (.primitive kind) (.keyword kind.keyword)
  | literal (v : Json) : Mirrors (.literal v.spaced) (ofJson v)
  | unknown : Mirrors .unknown (.keyword "unknown")
  | named {name : Text} (word : IsWord name) (other : name ∉ keywords) :
      Mirrors (.named name) (.reference name)
  | array {item : TypeExpr} {tree : TypeTree} (grouped : Bool) (inner : Mirrors item tree) :
      Mirrors (.array item grouped) (.array tree)
  | union {members : List TypeExpr} {trees : List TypeTree} (two : 2 ≤ members.length)
      (each : MirrorsAll members trees) : Mirrors (.union members) (.combination .or trees)
  | intersection {members : List TypeExpr} {trees : List TypeTree} (two : 2 ≤ members.length)
      (each : MirrorsAll members trees) : Mirrors (.intersection members) (.combination .and trees)
  | record {fields : List (Field TypeExpr)} {trees : List (Field TypeTree)}
      (each : MirrorsFields fields trees) : Mirrors (.record fields) (.record trees)

inductive MirrorsAll : List TypeExpr → List TypeTree → Prop
  | nil : MirrorsAll [] []
  | cons {type : TypeExpr} {types : List TypeExpr} {tree : TypeTree} {trees : List TypeTree}
      (here : Mirrors type tree) (later : MirrorsAll types trees) :
      MirrorsAll (type :: types) (tree :: trees)

inductive MirrorsFields : List (Field TypeExpr) → List (Field TypeTree) → Prop
  | nil : MirrorsFields [] []
  | cons {key : Text} {optional : Bool} {type : TypeExpr} {tree : TypeTree}
      {fields : List (Field TypeExpr)} {trees : List (Field TypeTree)}
      (here : Mirrors type tree) (later : MirrorsFields fields trees) :
      MirrorsFields (⟨key, type, optional⟩ :: fields) (⟨key, tree, optional⟩ :: trees)
end

theorem MirrorsAll.length {types : List TypeExpr} {trees : List TypeTree}
    (h : MirrorsAll types trees) : trees.length = types.length := by
  induction types generalizing trees with
  | nil => cases h; rfl
  | cons type types ih =>
      cases h with
      | cons here later => rw [List.length_cons, List.length_cons, ih later]

mutual
theorem wide_ofJson (v : Json) : Wide (ofJson v) := by
  cases v with
  | array items => exact everywhere_tuple.mpr ⟨rfl, wide_ofItems items⟩
  | object members => exact everywhere_record.mpr ⟨rfl, wide_ofMembers members⟩
  | bool b => cases b <;> simp [ofJson, wide]
  | null | int | float | string => simp [ofJson, wide]
termination_by sizeOf v

theorem wide_ofItems (items : List Json) : ∀ item ∈ ofItems items, Wide item := by
  cases items with
  | nil => simp [ofItems]
  | cons item items =>
      exact List.forall_mem_cons.mpr ⟨wide_ofJson item, wide_ofItems items⟩
termination_by sizeOf items

theorem wide_ofMembers (members : List (Text × Json)) :
    ∀ field ∈ ofMembers members, Wide field.type := by
  cases members with
  | nil => simp [ofMembers]
  | cons member members =>
      cases member with
      | mk key value =>
          exact List.forall_mem_cons.mpr ⟨wide_ofJson value, wide_ofMembers members⟩
termination_by sizeOf members
end

mutual
theorem Mirrors.wide {type : TypeExpr} {tree : TypeTree} (h : Mirrors type tree) : Wide tree := by
  cases h with
  | literal v => exact wide_ofJson v
  | array _ inner => exact everywhere_array.mpr ⟨rfl, inner.wide⟩
  | union two each | intersection two each =>
      rw [← each.length] at two
      exact everywhere_combination.mpr ⟨by simpa [TypeTree.wide] using two, each.wide⟩
  | record each => exact everywhere_record.mpr ⟨rfl, each.wide⟩
  | primitive | unknown | named => simp [TypeTree.wide]
termination_by sizeOf type

theorem MirrorsAll.wide {types : List TypeExpr} {trees : List TypeTree}
    (h : MirrorsAll types trees) : ∀ tree ∈ trees, Wide tree := by
  cases h with
  | nil => simp
  | cons here later => exact List.forall_mem_cons.mpr ⟨here.wide, later.wide⟩
termination_by sizeOf types

theorem MirrorsFields.wide {fields : List (Field TypeExpr)} {trees : List (Field TypeTree)}
    (h : MirrorsFields fields trees) : ∀ field ∈ trees, Wide field.type := by
  cases h with
  | nil => simp
  | cons here later => exact List.forall_mem_cons.mpr ⟨here.wide, later.wide⟩
termination_by sizeOf fields
end

/-- What is no combination does not touch what was read before it. -/
theorem feed_of_single {type : TypeExpr} {tree : TypeTree} (h : Mirrors type tree)
    (single : type.isCombination = false) (l : Level) : feed l tree = ⟨l, tree.regrouped⟩ := by
  cases h with
  | literal v => cases v with
    | bool b => cases b <;> rfl
    | _ => rfl
  | union | intersection => exact absurd single (by simp [TypeExpr.isCombination])
  | _ => rfl

def separator (op : Operator) : Text := [' ', operatorSign op, ' ']

theorem runText_separator {op : Operator} {r : Reading} {frames : List Frame} {rest : Text} :
    runText (separator op ++ rest) ⟨.after r, frames⟩ =
      runText rest ⟨.operand (r.push op), frames⟩ := by
  simp only [separator, List.cons_append, List.nil_append]
  rw [runText_space rfl, runText_operator, runText_space rfl]

theorem delimited_separator {op : Operator} {rest : Text} :
    delimited (separator op ++ rest) := rfl

mutual
/-- The text of a type expression is read as its tree, grouped by precedence. -/
theorem runText_render {type : TypeExpr} {tree : TypeTree} (m : Mirrors type tree)
    (known : Finite tree) (depth : Nat) {l : Level} {frames : List Frame} {rest : Text}
    (h : delimited rest) :
    runText (type.render depth ++ rest) ⟨.operand l, frames⟩ =
      runText rest ⟨.after (feed l tree), frames⟩ := by
  cases m with
  | primitive kind =>
      exact runText_keyword (by cases kind <;> decide : kind.keyword ∈ keywords) h
  | literal v => exact runText_write v 0 known h
  | unknown => exact runText_keyword (by decide : "unknown".toList ∈ keywords) h
  | named word other => exact runText_reference word other h
  | @array item tree grouped inner =>
      rw [finite_array] at known
      rw [TypeExpr.render_array]
      split
      · simp only [List.cons_append, List.append_assoc, List.nil_append]
        rw [runText_openGroup, runText_render inner known depth rfl, runText_closeGroup,
          runText_brackets]
        rfl
      · rename_i plain
        rw [Bool.or_eq_true, not_or, Bool.not_eq_true, Bool.not_eq_true] at plain
        simp only [List.append_assoc, List.cons_append, List.nil_append]
        rw [runText_render inner known depth rfl, runText_brackets,
          feed_of_single inner plain.2]
        rfl
  | union two each =>
      rw [finite_combination] at known
      exact runText_renderMembers .or each (by rintro rfl; simp at two) known depth h
  | intersection two each =>
      rw [finite_combination] at known
      exact runText_renderMembers .and each (by rintro rfl; simp at two) known depth h
  | @record fields trees each =>
      rw [finite_record] at known
      cases fields with
      | nil =>
          cases each
          exact runText_openRecord.trans runText_closeRecord
      | cons field fields =>
          rw [TypeExpr.render_record]
          simp only [List.cons_append, List.append_assoc, List.nil_append]
          rw [runText_openRecord, runText_space rfl,
            runText_renderFields each (by simp) known (depth + 1), runText_space rfl,
            runText_indent, runText_closeRecord]
          rfl
termination_by sizeOf type

theorem runText_renderMembers (op : Operator) {types : List TypeExpr} {trees : List TypeTree}
    (m : MirrorsAll types trees) (some : types ≠ []) (known : ∀ tree ∈ trees, Finite tree)
    (depth : Nat) {l : Level} {frames : List Frame} {rest : Text} (h : delimited rest) :
    runText (TypeExpr.renderMembers depth (separator op) types ++ rest) ⟨.operand l, frames⟩ =
      runText rest ⟨.after (feedAll op l trees), frames⟩ := by
  cases m with
  | nil => exact absurd rfl some
  | @cons type types tree trees here later =>
      rw [List.forall_mem_cons] at known
      cases later with
      | nil =>
          rw [TypeExpr.renderMembers]
          exact runText_render here known.1 depth h
      | @cons next types nextTree trees second later =>
          rw [TypeExpr.renderMembers]
          · simp only [List.append_assoc]
            rw [runText_render here known.1 depth delimited_separator, runText_separator,
              runText_renderMembers op (.cons second later) (by simp) known.2 depth h,
              feedAll_cons_cons]
          · simp
termination_by sizeOf types

theorem runText_renderFields {fields : List (Field TypeExpr)} {trees : List (Field TypeTree)}
    (m : MirrorsFields fields trees) (some : fields ≠ [])
    (known : ∀ field ∈ trees, Finite field.type) (depth : Nat) {l : Level}
    {done : List (Field TypeTree)} {frames : List Frame} {rest : Text} :
    runText (TypeExpr.renderFields depth fields ++ rest) ⟨.key l done, frames⟩ =
      runText rest ⟨.key l (done ++ regroupedFields trees), frames⟩ := by
  cases m with
  | nil => exact absurd rfl some
  | @cons key optional type tree fields trees here later =>
      rw [List.forall_mem_cons] at known
      have first {after : Text} :
          runText (TypeExpr.renderField depth ⟨key, type, optional⟩ ++ after)
            ⟨.key l done, frames⟩ =
          runText after ⟨.key l (done ++ [⟨key, (feed {} tree).close, optional⟩]), frames⟩ := by
        rw [TypeExpr.renderField]
        simp only [List.append_assoc, List.cons_append, List.nil_append]
        rw [runText_indent, runText_key, runText_optional, runText_colon, runText_space rfl,
          runText_render here known.1 depth rfl, runText_nextField (.inl rfl)]
      cases later with
      | nil =>
          rw [TypeExpr.renderFields]
          exact first
      | cons second later =>
          rw [TypeExpr.renderFields]
          · simp only [List.append_assoc, List.cons_append]
            rw [first, runText_space rfl,
              runText_renderFields (.cons second later) (by simp) known.2 depth]
            simp [regroupedFields]
          · simp
termination_by sizeOf fields
end

theorem read_render {type : TypeExpr} {tree : TypeTree} (m : Mirrors type tree)
    (known : Finite tree) (depth : Nat) : read (type.render depth) = some tree.regrouped := by
  have reading := @runText_render _ _ m known depth {} [] [] rfl
  rw [List.append_nil] at reading
  rw [read, reading]
  rfl

/-- The text of a type expression is read back as its tree, but for nested combinations with
one operator, exactly when no intersection has a union directly inside and no constant is a
number that is not finite. -/
theorem read_render_eq_flat_iff {type : TypeExpr} {tree : TypeTree} (m : Mirrors type tree)
    (depth : Nat) :
    read (type.render depth) = some tree.flat ↔ Layered tree ∧ Finite tree := by
  constructor
  · intro same
    have known := finite_flat.mp (finite_read same)
    rw [read_render m known depth, Option.some.injEq] at same
    exact ⟨(regrouped_eq_flat_iff m.wide).mp same, known⟩
  · rintro ⟨layered, known⟩
    rw [read_render m known depth, (regrouped_eq_flat_iff m.wide).mpr layered]

end TypeText
end Recast
