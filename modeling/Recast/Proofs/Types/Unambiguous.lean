import Recast.Proofs.Json.Quote
import Recast.TypeExpr.Inference

/-! # Expressions told apart by their text

Two types of samples with the same text are the same. Of a text that starts with such a type,
the type and what follows it can be told, save that brackets after it may belong to either.
-/

namespace Recast

open TypeExpr

theorem Json.quote_append_inj {s s' rest rest' : Text}
    (h : Json.quote s ++ rest = Json.quote s' ++ rest') : s = s' ∧ rest = rest' := by
  have read (s rest : Text) : Json.readString 0 (Json.quote s ++ rest).tail = .ok (s, rest) := by
    have inside : (Json.quote s ++ rest).tail = s.flatMap Json.escapeChar ++ '"' :: rest := by
      simp [Json.quote]
    rw [inside, Json.readString_quoted]
  have same := read s rest
  rw [h, read, Except.ok.injEq, Prod.mk.injEq] at same
  exact ⟨same.1.symm, same.2.symm⟩

namespace TypeExpr

/-- The types of samples written out. Only an array has a union inside, and then directly. -/
inductive Inline : TypeExpr → Prop
  | primitive (kind : Primitive) : Inline (.primitive kind)
  | unknown : Inline .unknown
  | emptyRecord : Inline .emptyRecord
  | array {item : TypeExpr} (inner : Inline item) : Inline (.array item false)
  | choice {members : List TypeExpr} (some : members ≠ [])
      (each : ∀ member ∈ members, Inline member) : Inline (.array (.union members) false)
  | record {fields : List (Field TypeExpr)} (some : fields ≠ [])
      (each : ∀ field ∈ fields, Inline field.type) : Inline (.record fields)

/-! ## Types of samples -/

theorem inline_unionOf {types : List TypeExpr}
    (each : ∀ type ∈ types, Inline type) : Inline (.array (unionOf types) false) := by
  have kept : ∀ type ∈ distinct types, Inline type :=
    fun type member => each type (List.mem_eraseDups.mp member)
  unfold unionOf
  split
  · exact .array .unknown
  · rename_i type single
    exact .array (kept type (by simp [single]))
  · rename_i members several _
    exact .choice several kept

mutual
theorem inline_ofValue (v : Json) : Inline (ofValue v) := by
  cases v with
  | null | bool | int | float | string => exact .primitive _
  | array items =>
      cases items with
      | nil => exact .array .unknown
      | cons item items =>
          rw [ofValue]
          · exact inline_unionOf (inline_ofItems (item :: items))
          · simp
  | object members =>
      cases members with
      | nil => exact .emptyRecord
      | cons member members =>
          rw [ofValue]
          · exact .record (by simp [ofMembers]) (inline_ofMembers (member :: members))
          · simp
termination_by sizeOf v

theorem inline_ofItems (items : List Json) : ∀ type ∈ ofItems items, Inline type := by
  cases items with
  | nil => simp [ofItems]
  | cons item items =>
      exact List.forall_mem_cons.mpr ⟨inline_ofValue item, inline_ofItems items⟩
termination_by sizeOf items

theorem inline_ofMembers (members : List (Text × Json)) :
    ∀ field ∈ ofMembers members, Inline field.type := by
  cases members with
  | nil => simp [ofMembers]
  | cons member members =>
      obtain ⟨key, value⟩ := member
      exact List.forall_mem_cons.mpr ⟨inline_ofValue value, inline_ofMembers members⟩
termination_by sizeOf members
end

/-! ## Brackets after a type -/

/-- The type with the brackets that the text after it begins with, and what is left of the text. -/
def absorb (type : TypeExpr) : Text → TypeExpr × Text
  | '[' :: ']' :: rest => absorb (.array type false) rest
  | rest => (type, rest)

/-- Types whose text does not end in brackets that could as well follow it. -/
def isCore : TypeExpr → Bool
  | .array item _ => item.isCombination
  | _ => true

variable {depth : Nat}

theorem Inline.isCombination {type : TypeExpr} (h : Inline type) : type.isCombination = false := by
  cases h <;> rfl

theorem render_array_append {item : TypeExpr} (inner : Inline item) (rest : Text) :
    render depth (.array item false) ++ rest = render depth item ++ '[' :: ']' :: rest := by
  rw [render_array, inner.isCombination]
  simp

theorem render_choice_append (members : List TypeExpr) (rest : Text) :
    render depth (.array (.union members) false) ++ rest =
      '(' :: (renderMembers depth " | " members ++ ')' :: '[' :: ']' :: rest) := by
  have inside : render depth (.union members) = renderMembers depth " | " members := rfl
  rw [render_array, inside]
  simp [isCombination]

/-- Leading brackets apart, a type is a core with the rest of the text after it. -/
theorem Inline.exists_core {type : TypeExpr} (h : Inline type) (depth : Nat) (rest : Text) :
    ∃ core rest', Inline core ∧ core.isCore ∧
      render depth type ++ rest = render depth core ++ rest' ∧
        absorb type rest = absorb core rest' := by
  induction h generalizing rest with
  | @array item inner ih =>
      obtain ⟨core, rest', known, bare, same, absorbed⟩ := ih ('[' :: ']' :: rest)
      exact ⟨core, rest', known, bare, (render_array_append inner rest).trans same, absorbed⟩
  | primitive kind => exact ⟨_, rest, .primitive kind, rfl, rfl, rfl⟩
  | unknown => exact ⟨_, rest, .unknown, rfl, rfl, rfl⟩
  | emptyRecord => exact ⟨_, rest, .emptyRecord, rfl, rfl, rfl⟩
  | choice some each => exact ⟨_, rest, .choice some each, rfl, rfl, rfl⟩
  | record some each => exact ⟨_, rest, .record some each, rfl, rfl, rfl⟩

theorem render_record_append {fields : List (Field TypeExpr)} (some : fields ≠ []) (rest : Text) :
    render depth (.record fields) ++ rest =
      '{' :: '\n' :: (renderFields (depth + 1) fields ++ '\n' :: (indent depth ++ '}' :: rest)) := by
  obtain ⟨field, fields, rfl⟩ := List.exists_cons_of_ne_nil some
  rw [render_record]
  simp

/-- The character that the text of a core starts with. -/
def first : TypeExpr → Char
  | .primitive .string => 's'
  | .primitive .number | .primitive .null => 'n'
  | .primitive .boolean => 'b'
  | .emptyRecord => 'R'
  | .array _ _ => '('
  | .record _ => '{'
  | _ => 'u'

theorem Inline.exists_first {core : TypeExpr} (h : Inline core) (bare : core.isCore) (depth : Nat)
    (rest : Text) : ∃ more, render depth core ++ rest = core.first :: more := by
  cases h with
  | array inner => simp [isCore, inner.isCombination] at bare
  | primitive kind => cases kind <;> exact ⟨_, rfl⟩
  | unknown | emptyRecord => exact ⟨_, rfl⟩
  | choice => exact ⟨_, render_choice_append _ rest⟩
  | record some => exact ⟨_, render_record_append some rest⟩

/-- The type can be told from any text that starts with it. -/
def Told (depth : Nat) (type : TypeExpr) : Prop :=
  ∀ other, Inline other → ∀ rest rest', render depth type ++ rest = render depth other ++ rest' →
    absorb type rest = absorb other rest'

/-- A core needs to be told only from cores that start in the same way. -/
theorem told_of_core {type : TypeExpr} (known : Inline type) (bare : type.isCore)
    (h : ∀ core, Inline core → core.isCore → core.first = type.first → ∀ rest rest',
      render depth type ++ rest = render depth core ++ rest' → absorb type rest = absorb core rest') :
    Told depth type := by
  intro other known' rest rest' same
  obtain ⟨core, more, inline, bare', spelled, absorbed⟩ := known'.exists_core depth rest'
  have whole := same.trans spelled
  obtain ⟨tail, starts⟩ := known.exists_first bare depth rest
  obtain ⟨tail', starts'⟩ := inline.exists_first bare' depth more
  rw [absorbed]
  apply h core inline bare' _ rest more whole
  rw [starts, starts'] at whole
  exact (List.cons.inj whole).1.symm

/-! ## Members and fields -/

/-- What stands after the first of some members. -/
def laterMembers (depth : Nat) : List TypeExpr → Text
  | [] => []
  | members => " | " ++ renderMembers depth " | " members

theorem renderMembers_cons (member : TypeExpr) (members : List TypeExpr) :
    renderMembers depth " | " (member :: members) =
      render depth member ++ laterMembers depth members := by
  cases members with
  | nil => simp [renderMembers, laterMembers]
  | cons next members => simp [renderMembers, laterMembers]

theorem absorb_laterMembers (type : TypeExpr) (members : List TypeExpr) (rest : Text) :
    absorb type (laterMembers depth members ++ ')' :: rest) =
      (type, laterMembers depth members ++ ')' :: rest) := by
  cases members with
  | nil => rfl
  | cons member members => rfl

theorem renderMembers_append_inj {members others : List TypeExpr} {rest rest' : Text}
    (told : ∀ member ∈ members, Told depth member) (known : ∀ other ∈ others, Inline other)
    (some : members ≠ []) (some' : others ≠ [])
    (h : renderMembers depth " | " members ++ ')' :: rest =
      renderMembers depth " | " others ++ ')' :: rest') : members = others ∧ rest = rest' := by
  induction members generalizing others with
  | nil => exact absurd rfl some
  | cons member members ih =>
      obtain ⟨other, others, rfl⟩ := List.exists_cons_of_ne_nil some'
      rw [List.forall_mem_cons] at told known
      rw [renderMembers_cons, renderMembers_cons, List.append_assoc, List.append_assoc] at h
      have first := told.1 other known.1 _ _ h
      rw [absorb_laterMembers, absorb_laterMembers, Prod.mk.injEq] at first
      obtain ⟨rfl, later⟩ := first
      cases members with
      | nil =>
          cases others with
          | nil => exact ⟨rfl, (List.cons.inj later).2⟩
          | cons next others => simp [laterMembers] at later
      | cons next members =>
          cases others with
          | nil => simp [laterMembers] at later
          | cons next' others =>
              have inside := List.append_cancel_left
                (by simpa only [laterMembers, List.append_assoc] using later)
              obtain ⟨same, left⟩ := ih told.2 known.2 (by simp) (by simp) inside
              exact ⟨by rw [same], left⟩

/-- What stands after the first of some fields. -/
def laterFields (depth : Nat) : List (Field TypeExpr) → Text
  | [] => []
  | fields => '\n' :: renderFields depth fields

theorem renderFields_cons (field : Field TypeExpr) (fields : List (Field TypeExpr)) :
    renderFields depth (field :: fields) =
      renderField depth field ++ laterFields depth fields := by
  cases fields with
  | nil => simp [renderFields, laterFields]
  | cons next fields => simp [renderFields, laterFields]

theorem optionalMark_append_inj {optional optional' : Bool} {t t' : Text}
    (h : optionalMark optional ++ ':' :: t = optionalMark optional' ++ ':' :: t') :
    optional = optional' ∧ t = t' := by
  cases optional <;> cases optional'
  · exact ⟨rfl, (List.cons.inj h).2⟩
  · cases (List.cons.inj h).1
  · cases (List.cons.inj h).1
  · exact ⟨rfl, (List.cons.inj (List.cons.inj h).2).2⟩

theorem renderField_append_inj {field other : Field TypeExpr} {rest rest' : Text}
    (told : Told depth field.type) (known : Inline other.type)
    (h : renderField depth field ++ rest = renderField depth other ++ rest') :
    field = other ∧ rest = rest' := by
  obtain ⟨key, type, optional⟩ := field
  obtain ⟨key', type', optional'⟩ := other
  simp only [renderField, List.append_assoc, List.cons_append, List.nil_append] at h
  obtain ⟨rfl, marked⟩ := Json.quote_append_inj (List.append_cancel_left h)
  obtain ⟨rfl, types⟩ := optionalMark_append_inj marked
  have inside : (type, ';' :: rest) = (type', ';' :: rest') :=
    told type' known _ _ (List.cons.inj types).2
  obtain ⟨rfl, left⟩ := Prod.mk.inj inside
  exact ⟨rfl, (List.cons.inj left).2⟩

/-- The closing line of a record does not start like one of its fields. -/
theorem indent_ne_field (field : Field TypeExpr) (more rest : Text) :
    indent depth ++ '}' :: rest ≠ renderField (depth + 1) field ++ more := by
  obtain ⟨key, type, optional⟩ := field
  have deeper : indent (depth + 1) = indent depth ++ [' ', ' '] := by
    rw [indent, Nat.mul_succ, Text.copies, List.replicate_add]
    rfl
  simp [renderField, deeper]

theorem renderFields_append_inj {fields others : List (Field TypeExpr)} {rest rest' : Text}
    (told : ∀ field ∈ fields, Told (depth + 1) field.type)
    (known : ∀ other ∈ others, Inline other.type) (some : fields ≠ []) (some' : others ≠ [])
    (h : renderFields (depth + 1) fields ++ '\n' :: (indent depth ++ '}' :: rest) =
      renderFields (depth + 1) others ++ '\n' :: (indent depth ++ '}' :: rest')) :
    fields = others ∧ rest = rest' := by
  induction fields generalizing others with
  | nil => exact absurd rfl some
  | cons field fields ih =>
      obtain ⟨other, others, rfl⟩ := List.exists_cons_of_ne_nil some'
      rw [List.forall_mem_cons] at told known
      rw [renderFields_cons, renderFields_cons, List.append_assoc, List.append_assoc] at h
      obtain ⟨rfl, later⟩ := renderField_append_inj told.1 known.1 h
      cases fields with
      | nil =>
          cases others with
          | nil =>
              have closing := List.append_cancel_left (List.cons.inj later).2
              exact ⟨rfl, (List.cons.inj closing).2⟩
          | cons next others =>
              simp only [laterFields, renderFields_cons, List.cons_append, List.nil_append,
                List.append_assoc, List.cons.injEq, true_and] at later
              exact absurd later (indent_ne_field next _ _)
      | cons next fields =>
          cases others with
          | nil =>
              simp only [laterFields, renderFields_cons, List.cons_append, List.nil_append,
                List.append_assoc, List.cons.injEq, true_and] at later
              exact absurd later.symm (indent_ne_field next _ _)
          | cons next' others =>
              obtain ⟨same, left⟩ :=
                ih told.2 known.2 (by simp) (by simp) (List.cons.inj later).2
              exact ⟨by rw [same], left⟩

/-! ## All types of samples -/

theorem keyword_append_inj {kind kind' : Primitive} {rest rest' : Text}
    (h : kind.keyword ++ rest = kind'.keyword ++ rest') : kind = kind' ∧ rest = rest' := by
  have long (kind : Primitive) : 3 ≤ kind.keyword.length := by cases kind <;> decide
  have apart (kind kind' : Primitive) (other : kind ≠ kind') :
      kind.keyword.take 3 ≠ kind'.keyword.take 3 := by
    revert other
    cases kind <;> cases kind' <;> decide
  have same : kind = kind' := by
    by_contra other
    apply apart kind kind' other
    rw [← List.take_append_of_le_length (long kind), h, List.take_append_of_le_length (long kind')]
  subst same
  exact ⟨rfl, List.append_cancel_left h⟩

theorem told_primitive (kind : Primitive) : Told depth (.primitive kind) := by
  apply told_of_core (.primitive kind) rfl
  intro core known bare sign rest rest' same
  cases known with
  | primitive kind' =>
      obtain ⟨rfl, rfl⟩ := keyword_append_inj same
      rfl
  | _ => cases kind <;> cases sign

/-- No other core starts like a type that is always written the same. -/
theorem told_of_constant {type : TypeExpr} (constant : type = .unknown ∨ type = .emptyRecord) :
    Told depth type := by
  have known : Inline type := by
    rcases constant with rfl | rfl
    · exact .unknown
    · exact .emptyRecord
  have bare : type.isCore := by
    rcases constant with rfl | rfl <;> rfl
  apply told_of_core known bare
  intro core known' bare' sign rest rest' same
  have whole : core = type := by
    rcases constant with rfl | rfl <;> cases known' with
      | primitive kind => cases kind <;> cases sign
      | unknown | emptyRecord => first | rfl | cases sign
      | _ => cases sign
  subst whole
  rw [List.append_cancel_left same]

theorem told_choice {members : List TypeExpr} (some : members ≠ [])
    (each : ∀ member ∈ members, Inline member) (told : ∀ member ∈ members, Told depth member) :
    Told depth (.array (.union members) false) := by
  apply told_of_core (.choice some each) rfl
  intro core known bare sign rest rest' same
  cases known with
  | array inner => simp [isCore, inner.isCombination] at bare
  | @choice others some' each' =>
      rw [render_choice_append, render_choice_append] at same
      obtain ⟨rfl, later⟩ :=
        renderMembers_append_inj told each' some some' (List.cons.inj same).2
      rw [(List.cons.inj (List.cons.inj later).2).2]
  | primitive kind => cases kind <;> cases sign
  | _ => cases sign

theorem told_record {fields : List (Field TypeExpr)} (some : fields ≠ [])
    (each : ∀ field ∈ fields, Inline field.type)
    (told : ∀ field ∈ fields, Told (depth + 1) field.type) : Told depth (.record fields) := by
  apply told_of_core (.record some each) rfl
  intro core known bare sign rest rest' same
  cases known with
  | @record others some' each' =>
      rw [render_record_append some, render_record_append some'] at same
      obtain ⟨rfl, rfl⟩ := renderFields_append_inj told each' some some'
        (List.cons.inj (List.cons.inj same).2).2
      rfl
  | primitive kind => cases kind <;> cases sign
  | _ => cases sign

theorem told_of_inline {type : TypeExpr} (h : Inline type) (depth : Nat) : Told depth type := by
  induction h generalizing depth with
  | primitive kind => exact told_primitive kind
  | unknown => exact told_of_constant (.inl rfl)
  | emptyRecord => exact told_of_constant (.inr rfl)
  | @array item inner ih =>
      intro other known rest rest' same
      rw [render_array_append inner] at same
      exact ih depth other known _ _ same
  | choice some each ih => exact told_choice some each fun member inside => ih member inside depth
  | record some each ih =>
      exact told_record some each fun field inside => ih field inside (depth + 1)

/-- Types of samples have the same text only when they are the same. -/
theorem render_ofValue_inj (v w : Json) (depth : Nat) :
    (ofValue v).render depth = (ofValue w).render depth ↔ ofValue v = ofValue w := by
  constructor
  · intro same
    have told := told_of_inline (inline_ofValue v) depth (ofValue w) (inline_ofValue w) [] []
      (by rw [same])
    exact (Prod.mk.inj told).1
  · intro same
    rw [same]

end TypeExpr
end Recast
