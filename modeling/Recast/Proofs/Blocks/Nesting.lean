import Mathlib.Data.List.Forall2
import Recast.Proofs.Blocks.Brace
import Recast.Proofs.Blocks.Indent

/-! # Where indented lines stand

The level of a line is counted up by each colon and down by each lone closing brace.
It is the number of open blocks plus a drift, which never shrinks: a continuation
closes a block that is not counted down, and a statement may end in a colon before its
semicolon.
-/

namespace Recast.Blocks

open Text

/-! ## Roles -/

/-- What a line is for the nesting of blocks. -/
inductive Role
  | blank
  | statement
  /-- A statement that ends in a colon before its final semicolon. -/
  | label
  | header
  | continuation
  | closing
  deriving DecidableEq

/-- A colon and white space before a final semicolon. -/
def Label (line : Text) : Prop :=
  ∃ start spaces, Spaces spaces ∧ line = start ++ ':' :: spaces ++ [';']

/-- The role of a trimmed line. -/
inductive HasRole : Text → Role → Prop
  | blank : HasRole [] .blank
  | statement {line} (some : line ≠ []) (free : Braceless line)
      (last : line.getLast? ≠ Option.some ':') (plain : ¬ Label line) : HasRole line .statement
  | label {line} (free : Braceless line) (colon : Label line) : HasRole line .label
  | function {line} (h : FunctionBlock line) : HasRole line .header
  | if {rest} (h : ConditionBlock rest) : HasRole ("if" ++ rest) .header
  | while {rest} (h : ConditionBlock rest) : HasRole ("while" ++ rest) .header
  | counted {line} (h : CountedBlock line) : HasRole line .header
  | elseIf {line} (h : ElseIfBlock line) : HasRole line .continuation
  | else {line} (h : ElseBlock line) : HasRole line .continuation
  | closing : HasRole ['}'] .closing

/-- The blocks open around a line, when `depth` are open before it. -/
def Role.around (depth : Nat) : Role → Nat
  | .continuation | .closing => depth - 1
  | _ => depth

/-- The blocks open after a line, when `depth` are open before it. -/
def Role.next (depth : Nat) : Role → Nat
  | .header => depth + 1
  | .continuation => depth - 1 + 1
  | .closing => depth - 1
  | _ => depth

/-- Each closing brace and each continuation has an open block to close. -/
def Matched (depth : Nat) : List Role → Prop
  | [] => True
  | role :: rest =>
    (role = .continuation ∨ role = .closing → 0 < depth) ∧ Matched (role.next depth) rest

/-- A line of the input and its role. -/
abbrev Row := Text × Role

/-- What is written for a row at a level: nothing for a closing brace. -/
def Row.written (level : Nat) (row : Row) : List Text :=
  match row.2 with
  | .blank => [[]]
  | .closing => []
  | _ => [indent level ++ toIndentation (withoutSemicolon (trim row.1))]

/-- Each line at the level of the blocks open around it. -/
def nested (depth : Nat) : List Row → List Text
  | [] => []
  | row :: rest => row.written (row.2.around depth) ++ nested (row.2.next depth) rest

/-- How far a line of the role moves itself in. -/
def Role.shift : Role → Nat
  | .continuation => 1
  | _ => 0

/-- How far a line of the role moves the lines after it in. -/
def Role.drift : Role → Nat
  | .continuation | .label => 1
  | _ => 0

/-- Each line further in than the blocks open around it: by one for each continuation up to
    and with it, and by one for each label before it. -/
def drifted (drift depth : Nat) : List Row → List Text
  | [] => []
  | row :: rest =>
    row.written (row.2.around depth + drift + row.2.shift)
      ++ drifted (drift + row.2.drift) (row.2.next depth) rest

/-! ## One line -/

theorem ConditionBlock.last {rest : Text} (h : ConditionBlock rest) (keyword : Text) :
    (keyword ++ rest).getLast? = some '{' := by
  obtain ⟨before, condition, spaces, -, -, -, -, rfl⟩ := h
  rw [← List.append_assoc, List.getLast?_concat]

theorem LoopStep.last {name step : Text} (h : LoopStep name step) (start : Text) :
    (start ++ step).getLast? = some '{' := by
  obtain ⟨s₁, s₂, s₃, s₄, -, -, -, -, rfl⟩ := h
  rw [← List.append_assoc, List.getLast?_concat]

/-- Headers and continuations end in a brace, and a rule recognises them. -/
theorem HasRole.opening {line : Text} {role : Role} (h : HasRole line role)
    (opens : role = .header ∨ role = .continuation) :
    line.getLast? = some '{' ∧ ∃ rule ∈ indentHeaders, (rule line).isSome := by
  cases h with
  | blank => simp at opens
  | statement => simp at opens
  | label => simp at opens
  | closing => simp at opens
  | function h =>
      refine ⟨?_, bracedFunction, by simp [indentHeaders], isSome_bracedFunction h⟩
      obtain ⟨blanks, name, parameters, spaces, -, -, -, -, -, rfl⟩ := h
      rw [List.getLast?_concat]
  | «if» h => exact ⟨h.last _, bracedIf, by simp [indentHeaders], isSome_bracedIf h⟩
  | «while» h => exact ⟨h.last _, bracedWhile, by simp [indentHeaders], isSome_bracedWhile h⟩
  | counted h =>
      refine ⟨?_, bracedCounted, by simp [indentHeaders], isSome_bracedCounted h⟩
      obtain ⟨s₁, s₂, name, s₃, s₄, s₅, s₆, s₇, bound, step, -, -, -, -, -, -, -, -, -, -, -, -,
        stepped, rfl⟩ := h
      exact stepped.last _
  | elseIf h =>
      refine ⟨?_, bracedElseIf, by simp [indentHeaders], isSome_bracedElseIf h⟩
      obtain ⟨spaces, rest, -, block, rfl⟩ := h
      exact block.last _
  | «else» h =>
      refine ⟨?_, bracedElse, by simp [indentHeaders], isSome_bracedElse h⟩
      obtain ⟨before, spaces, -, -, rfl⟩ := h
      rw [List.getLast?_concat]

/-- Only blank lines are empty, and only closing lines are a lone brace. -/
theorem HasRole.apart {line : Text} {role : Role} (h : HasRole line role) (solid : role ≠ .blank)
    (stays : role ≠ .closing) : line ≠ [] ∧ line ≠ ['}'] := by
  by_cases opens : role = .header ∨ role = .continuation
  · obtain ⟨last, -⟩ := h.opening opens
    constructor <;> rintro rfl <;> simp at last
  · cases h with
    | blank => exact absurd rfl solid
    | closing => exact absurd rfl stays
    | statement some free => exact ⟨some, fun same => free.2 (by simp [same])⟩
    | label free colon =>
        obtain ⟨start, spaces, -, rfl⟩ := colon
        exact ⟨by simp, fun same => free.2 (by simp [same])⟩
    | _ => simp at opens

theorem withoutSemicolon_of_last {line : Text} (single : '\n' ∉ line)
    (last : line.getLast? ≠ some ';') : withoutSemicolon line = line := by
  have none : before? [';'] line = none := by
    rw [Option.eq_none_iff_forall_ne_some]
    intro start h
    rw [before?_eq_some.mp h, List.getLast?_concat] at last
    exact last rfl
  rw [withoutSemicolon, applyRule_eq single, none, Option.getD_none]

theorem withoutSemicolon_concat {line : Text} (single : '\n' ∉ line) :
    withoutSemicolon (line ++ [';']) = line := by
  have some : before? [';'] (line ++ [';']) = some line := before?_eq_some.mpr rfl
  rw [withoutSemicolon, applyRule_eq (by simpa using single), some, Option.getD_some]

theorem mem_withoutSemicolon {line : Text} (single : '\n' ∉ line) {c : Char}
    (member : c ∈ withoutSemicolon line) : c ∈ line := by
  by_cases ended : line.getLast? = some ';'
  · obtain ⟨start, rfl⟩ := List.getLast?_eq_some_iff.mp ended
    rw [withoutSemicolon_concat fun here => single (List.mem_append_left _ here)] at member
    exact List.mem_append_left _ member
  · rwa [withoutSemicolon_of_last single ended] at member

/-- A statement is left without a colon at its end, a label with one. -/
theorem opensColon_withoutSemicolon {line : Text} (single : '\n' ∉ line)
    (trimmed : ∀ c, line.getLast? = some c → isBlank c = false) (last : line.getLast? ≠ some ':') :
    opensColon (withoutSemicolon line) = true ↔ Label line := by
  rw [opensColon_iff]
  constructor
  · rintro ⟨start, spaces, space, spelled⟩
    by_cases ended : line.getLast? = some ';'
    · obtain ⟨body, rfl⟩ := List.getLast?_eq_some_iff.mp ended
      rw [withoutSemicolon_concat fun here => single (List.mem_append_left _ here)] at spelled
      exact ⟨start, spaces, space, by rw [spelled]⟩
    · rw [withoutSemicolon_of_last single ended] at spelled
      subst spelled
      rcases List.eq_nil_or_concat spaces with rfl | ⟨more, c, rfl⟩
      · exact absurd List.getLast?_concat last
      · have solid : isBlank c = false := trimmed c (by
          rw [List.concat_eq_append, ← List.cons_append, ← List.append_assoc, List.getLast?_concat])
        rw [space c (by simp)] at solid
        exact absurd solid (by decide)
  · rintro ⟨start, spaces, space, rfl⟩
    rw [withoutSemicolon_concat fun here => single (List.mem_append_left _ here)]
    exact ⟨start, spaces, space, rfl⟩

/-- A trimmed line of text opens a block unless it is a statement. -/
theorem HasRole.opensColon {line : Text} {role : Role} (h : HasRole line role)
    (single : '\n' ∉ line) (trimmed : ∀ c, line.getLast? = some c → isBlank c = false)
    (solid : role ≠ .blank) (stays : role ≠ .closing) :
    opensColon (toIndentation (withoutSemicolon line)) = decide (role ≠ .statement) := by
  by_cases opens : role = .header ∨ role = .continuation
  · obtain ⟨last, rule, member, known⟩ := h.opening opens
    have same : withoutSemicolon line = line := withoutSemicolon_of_last single (by simp [last])
    rw [same, opensColon_of_header single member last known]
    rcases opens with rfl | rfl <;> rfl
  have plain (free : Braceless line) : Blocks.opensColon (toIndentation (withoutSemicolon line)) =
      Blocks.opensColon (withoutSemicolon line) :=
    opensColon_of_braceless (fun here => single (mem_withoutSemicolon single here))
      fun here => free.1 (mem_withoutSemicolon single here)
  cases h with
  | blank => exact absurd rfl solid
  | closing => exact absurd rfl stays
  | statement some free last other =>
      rw [plain free, decide_eq_false (by simp), Bool.eq_false_iff]
      exact fun colon => other ((opensColon_withoutSemicolon single trimmed last).mp colon)
  | label free colon =>
      have last : line.getLast? ≠ some ':' := by
        obtain ⟨start, spaces, -, rfl⟩ := colon
        rw [List.getLast?_concat]
        decide
      rw [plain free, decide_eq_true (by simp)]
      exact (opensColon_withoutSemicolon single trimmed last).mpr colon
  | _ => simp at opens

theorem HasRole.nil_of_blank {line : Text} (h : HasRole line .blank) : line = [] := by
  cases h
  rfl

theorem HasRole.brace_of_closing {line : Text} (h : HasRole line .closing) : line = ['}'] := by
  cases h
  rfl

/-! ## Runs -/

/-- What one line writes, and the level after it. -/
theorem indentLines_cons {raw : Text} {role : Role} (h : HasRole (trim raw) role)
    (single : '\n' ∉ raw) {depth : Nat}
    (matched : role = .continuation ∨ role = .closing → 0 < depth) (drift : Nat)
    (rest : List Text) :
    indentLines (depth + drift) (raw :: rest) =
      Row.written (role.around depth + drift + role.shift) (raw, role)
        ++ indentLines (role.next depth + (drift + role.drift)) rest := by
  by_cases blank : role = .blank
  · subst blank
    simp [indentLines, h.nil_of_blank, Row.written, Role.next, Role.drift]
  by_cases closing : role = .closing
  · subst closing
    have some : 0 < depth := matched (.inr rfl)
    have level : depth + drift - 1 = depth - 1 + drift := by omega
    simp [indentLines, h.brace_of_closing, Row.written, Role.next, Role.drift, level]
  obtain ⟨solid, stays⟩ := h.apart blank closing
  have opens := h.opensColon (fun here => single (mem_of_mem_trim here)) (fun c => last_trim)
    blank closing
  have line : indentLines (depth + drift) (raw :: rest) =
      (indent (depth + drift) ++ toIndentation (withoutSemicolon (trim raw)))
        :: indentLines (if role ≠ .statement then depth + drift + 1 else depth + drift) rest := by
    simp only [indentLines, List.isEmpty_iff, solid, if_false, stays, opens, decide_eq_true_eq]
  rw [line]
  cases role with
  | blank => exact absurd rfl blank
  | closing => exact absurd rfl closing
  | continuation =>
      have some : 0 < depth := matched (.inl rfl)
      have here : depth - 1 + drift + 1 = depth + drift := by omega
      have after : depth - 1 + 1 + (drift + 1) = depth + drift + 1 := by omega
      simp only [Row.written, Role.around, Role.shift, Role.next, Role.drift, here, after]
      rfl
  | statement => rfl
  | label => rfl
  | header =>
      have after : depth + 1 + drift = depth + drift + 1 := by omega
      simp only [Row.written, Role.around, Role.shift, Role.next, Role.drift, Nat.add_zero, after]
      rfl

theorem indentLines_eq_drifted {raws : List Text} {roles : List Role} {depth drift : Nat}
    (known : List.Forall₂ (fun raw role => HasRole (trim raw) role) raws roles)
    (single : ∀ raw ∈ raws, '\n' ∉ raw) (matched : Matched depth roles) :
    indentLines (depth + drift) raws = drifted drift depth (raws.zip roles) := by
  -- The level of the writer is the true depth and the drift so far, before every line.
  induction known generalizing depth drift with
  | nil => rfl
  | @cons raw role raws roles here later ih =>
      rw [List.forall_mem_cons] at single
      obtain ⟨closes, rest⟩ := matched
      rw [indentLines_cons here single.1 closes, ih single.2 rest]
      rfl

/-! ## When the layout is right -/

/-- Nothing is written with text in it. -/
def Still (roles : List Role) : Prop := ∀ role ∈ roles, role = .blank ∨ role = .closing

/-- No continuation occurs, and nothing but blank and closing lines follows a label. -/
def Steady : List Role → Prop
  | [] => True
  | .continuation :: _ => False
  | .label :: rest => Still rest
  | _ :: rest => Steady rest

theorem indent_inj {a b : Nat} : indent a = indent b ↔ a = b := by
  constructor
  · intro same
    have long := congrArg List.length same
    simp only [indent, Text.copies, List.length_replicate] at long
    omega
  · rintro rfl
    rfl

theorem Row.length_written (row : Row) (a b : Nat) :
    (row.written a).length = (row.written b).length := by
  obtain ⟨raw, role⟩ := row
  cases role <;> rfl

theorem Row.written_inj {row : Row} {a b : Nat} :
    row.written a = row.written b ↔ a = b ∨ row.2 = .blank ∨ row.2 = .closing := by
  obtain ⟨raw, role⟩ := row
  cases role <;> simp [Row.written, indent_inj]

theorem length_drifted (rows : List Row) (drift depth : Nat) :
    (drifted drift depth rows).length = (nested depth rows).length := by
  induction rows generalizing drift depth with
  | nil => rfl
  | cons row rest ih =>
      simp only [drifted, nested, List.length_append, ih]
      rw [row.length_written]

theorem drifted_cons_eq_nested {row : Row} {rest : List Row} {drift depth : Nat} :
    drifted drift depth (row :: rest) = nested depth (row :: rest) ↔
      (drift + row.2.shift = 0 ∨ row.2 = .blank ∨ row.2 = .closing) ∧
        drifted (drift + row.2.drift) (row.2.next depth) rest = nested (row.2.next depth) rest := by
  simp only [drifted, nested]
  constructor
  · intro same
    obtain ⟨here, later⟩ := List.append_inj same (row.length_written _ _)
    refine ⟨(Row.written_inj.mp here).imp_left fun level => ?_, later⟩
    omega
  · rintro ⟨here, later⟩
    rw [later, Row.written_inj.mpr (here.imp_left fun level => ?_)]
    omega

/-- What has drifted stays away from its place. -/
theorem drifted_eq_nested_iff_still {rows : List Row} {drift depth : Nat} (some : 0 < drift) :
    drifted drift depth rows = nested depth rows ↔ Still (rows.map Prod.snd) := by
  induction rows generalizing drift depth with
  | nil => simp [drifted, nested, Still]
  | cons row rest ih =>
      have away : drift + row.2.shift ≠ 0 := by omega
      rw [drifted_cons_eq_nested, ih (by omega), or_iff_right away]
      simp only [Still, List.map_cons, List.forall_mem_cons]

theorem drifted_eq_nested_iff_steady {rows : List Row} {depth : Nat} :
    drifted 0 depth rows = nested depth rows ↔ Steady (rows.map Prod.snd) := by
  induction rows generalizing depth with
  | nil => simp [drifted, nested, Steady]
  | cons row rest ih =>
      obtain ⟨raw, role⟩ := row
      rw [drifted_cons_eq_nested]
      cases role with
      | continuation => simp [Steady, Role.shift]
      | label => simp [Steady, Role.shift, Role.drift, drifted_eq_nested_iff_still]
      | _ => simp [Steady, Role.shift, Role.drift, ih]

/-! ## Texts -/

theorem single_written {row : Row} (single : '\n' ∉ row.1) (level : Nat) :
    ∀ line ∈ row.written level, '\n' ∉ line := by
  obtain ⟨raw, role⟩ := row
  have margin : '\n' ∉ indent level := by simp [indent, Text.copies]
  have kept : '\n' ∉ toIndentation (withoutSemicolon (trim raw)) := by
    have trimmed := single_trim single
    exact single_toIndentation fun here => trimmed (mem_withoutSemicolon trimmed here)
  cases role <;> simp [Row.written, margin, kept]

theorem single_drifted {rows : List Row} (single : ∀ row ∈ rows, '\n' ∉ row.1)
    (drift depth : Nat) : ∀ line ∈ drifted drift depth rows, '\n' ∉ line := by
  induction rows generalizing drift depth with
  | nil => simp [drifted]
  | cons row rest ih =>
      rw [List.forall_mem_cons] at single
      exact List.forall_mem_append.mpr ⟨single_written single.1 _, ih single.2 _ _⟩

theorem single_nested {rows : List Row} (single : ∀ row ∈ rows, '\n' ∉ row.1) (depth : Nat) :
    ∀ line ∈ nested depth rows, '\n' ∉ line := by
  induction rows generalizing depth with
  | nil => simp [nested]
  | cons row rest ih =>
      rw [List.forall_mem_cons] at single
      exact List.forall_mem_append.mpr ⟨single_written single.1 _, ih single.2 _⟩

/-- Where every line has a role and the braces match, each line stands further in than it should
    by the continuations up to it and the labels before it, so the layout is right exactly
    when there is no continuation and nothing follows a label. -/
theorem indentText_of_hasRole {t : Text} {roles : List Role}
    (known : List.Forall₂ (fun raw role => HasRole (trim raw) role) (lines t) roles)
    (matched : Matched 0 roles) :
    indentText t = join ['\n'] (drifted 0 0 ((lines t).zip roles)) ∧
      (indentText t = join ['\n'] (nested 0 ((lines t).zip roles)) ↔ Steady roles) := by
  have single : ∀ raw ∈ lines t, '\n' ∉ raw := fun raw => single_of_mem_lines
  have whole : indentText t = join ['\n'] (drifted 0 0 ((lines t).zip roles)) :=
    congrArg (join ['\n']) (@indentLines_eq_drifted _ _ 0 0 known single matched)
  refine ⟨whole, ?_⟩
  have rows : ∀ row ∈ (lines t).zip roles, '\n' ∉ row.1 := fun row member =>
    single row.1 (List.of_mem_zip member).1
  have long : ((lines t).zip roles).map Prod.snd = roles :=
    List.map_snd_zip known.length_eq.ge
  rw [whole, join_inj (length_drifted _ 0 0) (single_drifted rows 0 0) (single_nested rows 0),
    drifted_eq_nested_iff_steady, long]

/-- A condition with two branches and a line after it. -/
def branches : Text := "if (a) \x7b\n  b();\n\x7d else \x7b\n  c();\n\x7d\nd();"

/-- The roles of its lines. -/
def branchRoles : List Role :=
  [.header, .statement, .continuation, .statement, .closing, .statement]

/-- A line without a brace or a colon is a statement. -/
theorem hasRole_statement {line : Text} (some : line ≠ []) (free : Braceless line)
    (plain : ':' ∉ line) : HasRole line .statement :=
  .statement some free (fun last => plain (List.mem_of_getLast? last))
    fun ⟨_, _, _, spelled⟩ => plain (by simp [spelled])

theorem hasRole_branches :
    List.Forall₂ (fun raw role => HasRole (trim raw) role) (lines branches) branchRoles := by
  have spelled : lines branches =
      ["if (a) \x7b".toList, "  b();".toList, "\x7d else \x7b".toList, "  c();".toList,
        "\x7d".toList, "d();".toList] := by decide
  have block : ConditionBlock " (a) \x7b" :=
    ⟨[' '], ['a'], [' '], by decide, by decide, by decide, by decide, rfl⟩
  have other : ElseBlock "\x7d else \x7b" := ⟨[' '], [' '], by decide, by decide, rfl⟩
  rw [spelled]
  refine .cons ?_ (.cons ?_ (.cons ?_ (.cons ?_ (.cons ?_ (.cons ?_ .nil)))))
  · exact .if block
  · exact hasRole_statement (by decide) (by decide) (by decide)
  · exact .else other
  · exact hasRole_statement (by decide) (by decide) (by decide)
  · exact .closing
  · exact hasRole_statement (by decide) (by decide) (by decide)

theorem indentText_branches :
    indentText branches = join ['\n'] (drifted 0 0 ((lines branches).zip branchRoles)) ∧
      (indentText branches = join ['\n'] (nested 0 ((lines branches).zip branchRoles)) ↔
        Steady branchRoles) :=
  indentText_of_hasRole hasRole_branches (by simp [Matched, branchRoles, Role.next])

/-- The `else` and all that follows it stand one block too deep. -/
theorem indentText_branches_ne_nested :
    List.Forall₂ (fun raw role => HasRole (trim raw) role) (lines branches) branchRoles ∧
      Matched 0 branchRoles ∧
        indentText branches = "if a:\n  b()\n  else:\n    c()\n  d()".toList ∧
          indentText branches ≠ join ['\n'] (nested 0 ((lines branches).zip branchRoles)) := by
  refine ⟨hasRole_branches, by simp [Matched, branchRoles, Role.next], ?_, ?_⟩
  · decide
  · decide

end Recast.Blocks
