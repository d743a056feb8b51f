import Recast.Proofs.Json.Quote
import Recast.TypeExpr.Render

/-! # The depth of a type

A type that stands deeper is written on the same lines, all but the first of which start
further to the right. Line feeds in keys are escaped, so only a name or a constant can have
lines of its own, and those stay where they are.
-/

namespace Recast.TypeExpr

/-- The text with all lines but the first moved to the right by some levels. -/
def shiftLines (depth : Nat) (t : Text) : Text :=
  t.flatMap fun c => if c = '\n' then '\n' :: indent depth else [c]

/-- No name and no constant inside goes beyond its line. -/
inductive Unbroken : TypeExpr → Prop
  | primitive {kind : Primitive} (single : '\n' ∉ kind.keyword) : Unbroken (.primitive kind)
  | literal {text : Text} (single : '\n' ∉ text) : Unbroken (.literal text)
  | unknown : Unbroken .unknown
  | emptyRecord : Unbroken .emptyRecord
  | named {name : Text} (single : '\n' ∉ name) : Unbroken (.named name)
  | array {item : TypeExpr} {grouped : Bool} (inner : Unbroken item) :
      Unbroken (.array item grouped)
  | union {members : List TypeExpr} (each : ∀ member ∈ members, Unbroken member) :
      Unbroken (.union members)
  | intersection {members : List TypeExpr} (each : ∀ member ∈ members, Unbroken member) :
      Unbroken (.intersection members)
  | record {fields : List (Field TypeExpr)} (each : ∀ field ∈ fields, Unbroken field.type) :
      Unbroken (.record fields)

/-! ## Moving lines -/

section

variable {depth : Nat} {s t : Text}

theorem shiftLines_append (s t : Text) :
    shiftLines depth (s ++ t) = shiftLines depth s ++ shiftLines depth t :=
  List.flatMap_append ..

theorem shiftLines_newLine (t : Text) :
    shiftLines depth ('\n' :: t) = '\n' :: (indent depth ++ shiftLines depth t) :=
  rfl

theorem shiftLines_cons {c : Char} (solid : c ≠ '\n') (t : Text) :
    shiftLines depth (c :: t) = c :: shiftLines depth t := by
  simp [shiftLines, solid]

theorem shiftLines_of_not_mem (single : '\n' ∉ t) : shiftLines depth t = t := by
  induction t with
  | nil => rfl
  | cons c t ih =>
      rw [List.mem_cons, not_or] at single
      rw [shiftLines_cons (Ne.symm single.1), ih single.2]

theorem shiftLines_zero (t : Text) : shiftLines 0 t = t := by
  induction t with
  | nil => rfl
  | cons c t ih =>
      by_cases feed : c = '\n'
      · subst feed
        exact congrArg ('\n' :: ·) ih
      · rw [shiftLines_cons feed, ih]

theorem length_shiftLines (t : Text) :
    (shiftLines depth t).length = t.length + 2 * depth * t.count '\n' := by
  induction t with
  | nil => rfl
  | cons c t ih =>
      by_cases feed : c = '\n'
      · subst feed
        have width : (indent depth).length = 2 * depth := List.length_replicate
        rw [shiftLines_newLine, List.length_cons, List.length_append, width, ih, List.length_cons,
          List.count_cons_self, Nat.mul_succ]
        omega
      · rw [shiftLines_cons feed, List.length_cons, ih, List.length_cons,
          List.count_cons_of_ne feed]
        omega

theorem length_le_shiftLines (t : Text) : t.length ≤ (shiftLines depth t).length :=
  length_shiftLines t ▸ Nat.le_add_right _ _

theorem single_indent (depth : Nat) : '\n' ∉ indent depth := by
  intro member
  exact absurd (List.eq_of_mem_replicate member) (by decide)

theorem indent_add (base depth : Nat) : indent (base + depth) = indent depth ++ indent base := by
  simp only [indent, Text.copies, List.replicate_append_replicate]
  congr 1
  omega

/-! ## Texts at two depths -/

/-- The first text is the second one with its lines moved exactly when `p` holds, and is else
too short for that. -/
structure Moves (depth : Nat) (s t : Text) (p : Prop) : Prop where
  -- Texts that are equal as a whole may still differ part by part; lengths add up.
  le : s.length ≤ (shiftLines depth t).length
  eq : p → s = shiftLines depth t
  holds : s.length = (shiftLines depth t).length → p

variable {s' t' : Text} {p q : Prop}

theorem Moves.congr (h : Moves depth s t p) (same : p ↔ q) : Moves depth s t q :=
  propext same ▸ h

theorem Moves.append (h : Moves depth s t p) (h' : Moves depth s' t' q) :
    Moves depth (s ++ s') (t ++ t') (p ∧ q) := by
  have first := h.le
  have second := h'.le
  constructor
  · rw [shiftLines_append, List.length_append, List.length_append]
    omega
  · rintro ⟨left, right⟩
    rw [shiftLines_append, h.eq left, h'.eq right]
  · rw [shiftLines_append, List.length_append, List.length_append]
    intro same
    exact ⟨h.holds (by omega), h'.holds (by omega)⟩

theorem moves_self (deep : 0 < depth) (t : Text) : Moves depth t t ('\n' ∉ t) where
  le := length_le_shiftLines t
  eq single := (shiftLines_of_not_mem single).symm
  holds same := by
    have none : 2 * depth * t.count '\n' = 0 := by
      rw [length_shiftLines] at same
      omega
    rw [← List.count_eq_zero]
    exact (Nat.mul_eq_zero.mp none).resolve_left (by omega)

theorem Moves.of_eq (same : s = shiftLines depth t) (known : p) : Moves depth s t p where
  le := Nat.le_of_eq (congrArg List.length same)
  eq _ := same
  holds _ := known

theorem moves_of_not_mem (single : '\n' ∉ t) (known : p) : Moves depth t t p :=
  .of_eq (shiftLines_of_not_mem single).symm known

theorem Moves.around (h : Moves depth s t p) {before after : Text} (left : '\n' ∉ before)
    (right : '\n' ∉ after) : Moves depth (before ++ s ++ after) (before ++ t ++ after) p := by
  have start : Moves depth before before True := moves_of_not_mem left trivial
  have ending : Moves depth after after True := moves_of_not_mem right trivial
  exact ((start.append h).append ending).congr (by rw [true_and, and_true])

end

/-! ## Types at two depths -/

section

variable {base depth : Nat}

/-- The start of a line, with the end of the line before. -/
theorem moves_indent (base : Nat) :
    Moves depth ('\n' :: indent (base + depth)) ('\n' :: indent base) True := by
  refine .of_eq ?_ trivial
  rw [shiftLines_newLine, shiftLines_of_not_mem (single_indent base), indent_add]

theorem moves_renderMembers {separator : Text} (single : '\n' ∉ separator)
    {members : List TypeExpr} (each : ∀ member ∈ members,
      Moves depth (render (base + depth) member) (render base member) (Unbroken member)) :
    Moves depth (renderMembers (base + depth) separator members)
      (renderMembers base separator members) (∀ member ∈ members, Unbroken member) := by
  induction members with
  | nil => exact moves_of_not_mem List.not_mem_nil (List.forall_mem_nil _)
  | cons member members ih =>
      rw [List.forall_mem_cons] at each
      cases members with
      | nil => exact each.1.congr (by simp)
      | cons next members =>
          have first := each.1.around List.not_mem_nil single
          have whole := (first.append (ih each.2)).congr List.forall_mem_cons.symm
          simpa [renderMembers] using whole

/-- The line of a field, with the end of the line before. -/
theorem moves_renderField {field : Field TypeExpr}
    (h : Moves depth (render (base + depth) field.type) (render base field.type)
      (Unbroken field.type)) :
    Moves depth ('\n' :: renderField (base + depth) field) ('\n' :: renderField base field)
      (Unbroken field.type) := by
  obtain ⟨key, type, optional⟩ := field
  have name : '\n' ∉ Json.quote key ++ optionalMark optional ++ [':', ' '] := by
    have mark : '\n' ∉ optionalMark optional := by cases optional <;> decide
    simp [Json.single_quote, mark]
  have line := (moves_indent base).append (h.around name (by decide : '\n' ∉ [';']))
  simpa [renderField] using line.congr (iff_of_eq (true_and _))

theorem moves_renderFields {fields : List (Field TypeExpr)}
    (each : ∀ field ∈ fields, Moves depth (render (base + depth) field.type)
      (render base field.type) (Unbroken field.type)) (some : fields ≠ []) :
    Moves depth ('\n' :: renderFields (base + depth) fields) ('\n' :: renderFields base fields)
      (∀ field ∈ fields, Unbroken field.type) := by
  induction fields with
  | nil => exact absurd rfl some
  | cons field fields ih =>
      rw [List.forall_mem_cons] at each
      have first := moves_renderField each.1
      cases fields with
      | nil => exact first.congr (by simp)
      | cons next fields =>
          have both := first.append (ih each.2 (by simp))
          have all : (∀ inner ∈ field :: next :: fields, Unbroken inner.type) ↔ _ :=
            List.forall_mem_cons
          simpa [renderFields] using both.congr all.symm

theorem sizeOf_type_lt {field : Field TypeExpr} {fields : List (Field TypeExpr)}
    (listed : field ∈ fields) : sizeOf field.type < sizeOf fields := by
  have smaller := List.sizeOf_lt_of_mem listed
  obtain ⟨key, type, optional⟩ := field
  simp only [Field.mk.sizeOf_spec] at smaller ⊢
  omega

theorem moves_render (deep : 0 < depth) (base : Nat) (type : TypeExpr) :
    Moves depth (render (base + depth) type) (render base type) (Unbroken type) := by
  cases type with
  | primitive kind =>
      exact (moves_self deep kind.keyword).congr ⟨.primitive, fun | .primitive single => single⟩
  | literal text => exact (moves_self deep text).congr ⟨.literal, fun | .literal single => single⟩
  | named name => exact (moves_self deep name).congr ⟨.named, fun | .named single => single⟩
  | unknown => exact moves_of_not_mem (by decide : '\n' ∉ "unknown".toList) .unknown
  | emptyRecord =>
      exact moves_of_not_mem (by decide : '\n' ∉ "Record<string, unknown>".toList) .emptyRecord
  | array item grouped =>
      have unbroken : Unbroken item ↔ Unbroken (.array item grouped) :=
        ⟨.array, fun | .array inner => inner⟩
      have inside := (moves_render deep base item).congr unbroken
      rw [render_array, render_array]
      split
      · exact inside.around (by decide : '\n' ∉ ['(']) (by decide : '\n' ∉ [')', '[', ']'])
      · exact inside.around List.not_mem_nil (by decide : '\n' ∉ ['[', ']'])
  | union members =>
      exact (moves_renderMembers (by decide) fun member _ => moves_render deep base member).congr
        ⟨.union, fun | .union each => each⟩
  | intersection members =>
      exact (moves_renderMembers (by decide) fun member _ => moves_render deep base member).congr
        ⟨.intersection, fun | .intersection each => each⟩
  | record fields =>
      cases fields with
      | nil =>
          exact moves_of_not_mem (by decide : '\n' ∉ ['{', '}']) (.record (List.forall_mem_nil _))
      | cons field fields =>
          have each : ∀ inner ∈ field :: fields, Moves depth (render (base + 1 + depth) inner.type)
              (render (base + 1) inner.type) (Unbroken inner.type) := by
            intro inner listed
            have smaller : sizeOf inner.type < 1 + sizeOf field + sizeOf fields :=
              sizeOf_type_lt listed
            exact moves_render deep (base + 1) inner.type
          have lines := moves_renderFields each (by simp)
          have body := (lines.append (moves_indent base)).around
            (by decide : '\n' ∉ ['{']) (by decide : '\n' ∉ ['}'])
          have unbroken : (∀ inner ∈ field :: fields, Unbroken inner.type) ∧ True ↔
              Unbroken (.record (field :: fields)) :=
            ⟨fun each => .record each.1, fun | .record each => ⟨each, trivial⟩⟩
          rw [render_record, render_record, Nat.add_right_comm]
          simpa using body.congr unbroken
termination_by sizeOf type

/-- A type is written the same at every depth, with its lines moved, exactly when no name and no
constant inside goes beyond its line. Keys may be any texts. -/
theorem render_eq_shiftLines_iff {type : TypeExpr} :
    (∀ depth, render depth type = shiftLines depth (render 0 type)) ↔ Unbroken type := by
  constructor
  · intro same
    have moves := moves_render Nat.one_pos 0 type
    exact moves.holds (congrArg List.length (same 1))
  · intro unbroken depth
    cases depth with
    | zero => exact (shiftLines_zero _).symm
    | succ depth =>
        have moves := moves_render (Nat.succ_pos depth) 0 type
        rw [Nat.zero_add] at moves
        exact moves.eq unbroken

end
end Recast.TypeExpr
