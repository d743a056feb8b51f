import Recast.Proofs.Blocks.Balance
import Recast.Proofs.Blocks.Translation

/-! # Programs forth and back

A program is a tree of statements. Written with four spaces for each level, it comes
back from the language of braces with two. The way to braces expects four, so going
there again does not find the blocks any more.
-/

namespace Recast.Blocks

open Text

mutual
inductive Statement
  | assignment (name : Identifier) (value : Expression)
  | output (argument : Expression)
  | result (value : Expression)
  | function (name : Identifier) (parameters : Parameters) (body : Program)
  | loop (condition : Expression) (body : Program)
  | count (counter : Identifier) (bound : Expression) (body : Program)
  | choice (condition : Expression) (body : Program) (others : Branches)

/-- Statements one after the other, at least one. -/
inductive Program
  | last (statement : Statement)
  | more (statement : Statement) (rest : Program)

/-- What follows the first branch of a choice. -/
inductive Branches
  | done
  | otherwise (body : Program)
  | alternative (condition : Expression) (body : Program) (others : Branches)
end

/-- A line and the number of blocks around it. -/
abbrev Placed := Nat × Line

mutual
def Statement.rows (depth : Nat) : Statement → List Placed
  | .assignment n e => [(depth, .assignment n e)]
  | .output e => [(depth, .output e)]
  | .result e => [(depth, .result e)]
  | .function n ps body => (depth, .function n ps) :: body.rows (depth + 1)
  | .loop e body => (depth, .loop e) :: body.rows (depth + 1)
  | .count n e body => (depth, .count n e) :: body.rows (depth + 1)
  | .choice e body others => (depth, .choice e) :: (body.rows (depth + 1) ++ others.rows depth)

def Program.rows (depth : Nat) : Program → List Placed
  | .last s => s.rows depth
  | .more s rest => s.rows depth ++ rest.rows depth

def Branches.rows (depth : Nat) : Branches → List Placed
  | .done => []
  | .otherwise body => (depth, .otherwise) :: body.rows (depth + 1)
  | .alternative e body others =>
    (depth, .alternative e) :: (body.rows (depth + 1) ++ others.rows depth)
end

/-- Each line behind `width` spaces for each block around it. -/
def layout (width : Nat) (rows : List Placed) : List Text :=
  rows.map fun row => copies (width * row.1) ' ' ++ row.2.text

def Program.text (width : Nat) (p : Program) : Text :=
  join ['\n'] (layout width (p.rows 0))

/-- The blocks around the next line may be those around this one, with the one it opens. -/
def Nested (depth : Nat) : List Placed → Prop
  | [] => True
  | (d, l) :: rest => d ≤ depth ∧ Nested (d + l.opens.toNat) rest

mutual
theorem Statement.nested (s : Statement) {depth level : Nat} {rest : List Placed}
    (inside : depth ≤ level) (later : ∀ h, depth ≤ h → Nested h rest) :
    Nested level (s.rows depth ++ rest) := by
  cases s with
  | assignment n e => exact ⟨inside, later _ (Nat.le_add_right _ _)⟩
  | output e => exact ⟨inside, later _ (Nat.le_add_right _ _)⟩
  | result e => exact ⟨inside, later _ (Nat.le_add_right _ _)⟩
  | function n ps body =>
      exact ⟨inside, body.nested le_rfl fun h deep => later h (Nat.le_of_succ_le deep)⟩
  | loop e body =>
      exact ⟨inside, body.nested le_rfl fun h deep => later h (Nat.le_of_succ_le deep)⟩
  | count n e body =>
      exact ⟨inside, body.nested le_rfl fun h deep => later h (Nat.le_of_succ_le deep)⟩
  | choice e body others =>
      rw [Statement.rows, List.cons_append, List.append_assoc]
      refine ⟨inside, ?_⟩
      exact body.nested le_rfl fun h deep => others.nested (Nat.le_of_succ_le deep) later

theorem Program.nested (p : Program) {depth level : Nat} {rest : List Placed}
    (inside : depth ≤ level) (later : ∀ h, depth ≤ h → Nested h rest) :
    Nested level (p.rows depth ++ rest) := by
  cases p with
  | last s => exact s.nested inside later
  | more s more =>
      rw [Program.rows, List.append_assoc]
      exact s.nested inside fun h deep => more.nested deep later

theorem Branches.nested (b : Branches) {depth level : Nat} {rest : List Placed}
    (inside : depth ≤ level) (later : ∀ h, depth ≤ h → Nested h rest) :
    Nested level (b.rows depth ++ rest) := by
  cases b with
  | done => exact later _ inside
  | otherwise body =>
      exact ⟨inside, body.nested le_rfl fun h deep => later h (Nat.le_of_succ_le deep)⟩
  | alternative e body others =>
      rw [Branches.rows, List.cons_append, List.append_assoc]
      refine ⟨inside, ?_⟩
      exact body.nested le_rfl fun h deep => others.nested (Nat.le_of_succ_le deep) later
end

theorem Program.rows_nested (p : Program) : Nested 0 (p.rows 0) := by
  have whole : Nested 0 (p.rows 0 ++ []) := p.nested (Nat.le_refl 0) fun _ _ => trivial
  rwa [List.append_nil] at whole

/-! ## Toward braces -/

/-- The columns of `depth` open blocks. -/
def columnsAt : Nat → Columns
  | 0 => []
  | depth + 1 => blockWidth * (depth + 1) :: columnsAt depth

/-- The lines that close `n` blocks inside `depth` others. -/
def closers (depth : Nat) : Nat → List Text
  | 0 => []
  | n + 1 => (indent (depth + n) ++ ['}']) :: closers depth n

/-- The lines in braces, when `level` blocks are open before them. -/
def bracedRows (level : Nat) : List Placed → List Text
  | [] => closers 0 level
  | (d, l) :: rest =>
    closers d (level - d) ++ (indent d ++ l.braced) :: bracedRows (d + l.opens.toNat) rest

def renameRows {f : Text → Text} (h : Renaming f) (rows : List Placed) : List Placed :=
  rows.map fun row => (row.1, row.2.rename h)

theorem length_columnsAt (depth : Nat) : (columnsAt depth).length = depth := by
  induction depth with
  | zero => rfl
  | succ depth ih => rw [columnsAt, List.length_cons, ih]

theorem closeTo_columnsAt (depth n : Nat) :
    closeTo (blockWidth * depth) (columnsAt (depth + n)) = (closers depth n, columnsAt depth) := by
  induction n with
  | zero =>
      cases depth with
      | zero => rfl
      | succ depth => simp [columnsAt, closeTo, closers]
  | succ n ih =>
      have further : blockWidth * depth < blockWidth * (depth + n + 1) :=
        Nat.mul_lt_mul_of_pos_left (by omega) (by decide)
      rw [← Nat.add_assoc, columnsAt, closeTo, if_pos further, ih, length_columnsAt]
      rfl

theorem closeAll_columnsAt (depth : Nat) :
    braceLines.closeAll (columnsAt depth) = closers 0 depth := by
  induction depth with
  | zero => rfl
  | succ depth ih =>
      rw [columnsAt, braceLines.closeAll, ih, length_columnsAt, closers, Nat.zero_add]

theorem braceLine_eq {raw : Text} (solid : trim raw ≠ []) (columns : Columns) :
    braceLine columns raw =
      ((closed columns raw).1
          ++ [indent (closed columns raw).2.length ++ ended (toBraces (trim raw))],
        if opensBrace (toBraces (trim raw)) then
          (raw.length - (trimLeft raw).length + blockWidth) :: (closed columns raw).2
        else (closed columns raw).2) := by
  cases opens : opensBrace (toBraces (trim raw)) with
  | true => simp [braceLine_of_opens solid columns opens, ended, opens]
  | false =>
      by_cases terminates : terminated (toBraces (trim raw)) = true
      · simp [braceLine, solid, closed, ended, opens, terminates]
      · simp [braceLine, solid, closed, ended, opens, terminates]

theorem braceLine_text (columns : Columns) (column : Nat) (l : Line) :
    braceLine columns (copies column ' ' ++ l.text) =
      ((closeTo column columns).1
          ++ [indent (closeTo column columns).2.length ++ (l.rename renaming_bracedConstants).braced],
        if l.opens then (column + blockWidth) :: (closeTo column columns).2
        else (closeTo column columns).2) := by
  have trimmed := l.solid_text.trim_margin column
  have solid : trim (copies column ' ' ++ l.text) ≠ [] := by
    rw [trimmed]
    exact l.solid_text.ne_nil
  have start : (copies column ' ' ++ l.text).length
      - (trimLeft (copies column ' ' ++ l.text)).length = column := by
    rw [l.solid_text.trimLeft_margin, List.length_append, List.length_replicate,
      Nat.add_sub_cancel_right]
  rw [braceLine_eq solid, closed, start, trimmed, ended_toBraces, opensBrace_toBraces]

theorem braceLines_layout {rows : List Placed} {level : Nat} (nested : Nested level rows) :
    braceLines (columnsAt level) (layout blockWidth rows) =
      bracedRows level (renameRows renaming_bracedConstants rows) := by
  induction rows generalizing level with
  | nil => exact closeAll_columnsAt level
  | cons row rest ih =>
      obtain ⟨d, l⟩ := row
      obtain ⟨inside, later⟩ := nested
      obtain ⟨n, rfl⟩ := Nat.exists_eq_add_of_le inside
      have columns : (if l.opens then (blockWidth * d + blockWidth) :: columnsAt d else columnsAt d)
          = columnsAt (d + l.opens.toNat) := by
        cases l.opens <;> rfl
      have here := braceLine_text (columnsAt (d + n)) (blockWidth * d) l
      rw [closeTo_columnsAt, length_columnsAt, columns] at here
      simp only [layout, List.map_cons, braceLines, here]
      rw [← layout, ih later]
      simp [bracedRows, renameRows]

/-! ## Toward indentation -/

theorem indentLines_closers (depth n : Nat) (rest : List Text) :
    indentLines (depth + n) (closers depth n ++ rest) = indentLines depth rest := by
  induction n with
  | zero => rfl
  | succ n ih =>
      have brace : Solid ['}'] := ⟨⟨'}', rfl, by decide⟩, ⟨'}', rfl, by decide⟩⟩
      have trimmed : trim (indent (depth + n) ++ ['}']) = ['}'] := brace.trim_margin _
      rw [closers, List.cons_append, indentLines]
      simpa [trimmed, ← Nat.add_assoc] using ih

theorem indentLines_braced (level column : Nat) (l : Line) (rest : List Text) :
    indentLines level ((copies column ' ' ++ l.braced) :: rest) =
      (indent level ++ (l.rename renaming_indentedConstants).text)
        :: indentLines (level + l.opens.toNat) rest := by
  have trimmed := l.solid_braced.trim_margin column
  have solid : l.braced.isEmpty = false := by simpa using l.solid_braced.ne_nil
  have other : l.braced ≠ ['}'] := by
    intro same
    have last := l.last_braced
    rw [same] at last
    cases opens : l.opens <;> simp [opens] at last
  have next : (if l.opens then level + 1 else level) = level + l.opens.toNat := by
    cases l.opens <;> rfl
  simp only [indentLines, trimmed, solid, other, if_false, Bool.false_eq_true,
    toIndentation_withoutSemicolon, opensColon_text, Line.opens_rename, next]

theorem indentLines_bracedRows {rows : List Placed} {level : Nat} (nested : Nested level rows) :
    indentLines level (bracedRows level rows) =
      layout 2 (renameRows renaming_indentedConstants rows) := by
  induction rows generalizing level with
  | nil =>
      have closing := indentLines_closers 0 level []
      rwa [List.append_nil, Nat.zero_add] at closing
  | cons row rest ih =>
      obtain ⟨d, l⟩ := row
      obtain ⟨inside, later⟩ := nested
      obtain ⟨n, rfl⟩ := Nat.exists_eq_add_of_le inside
      rw [bracedRows, Nat.add_sub_cancel_left, indentLines_closers, indent, indentLines_braced,
        ih later]
      rfl

/-! ## Toward braces once more -/

/-- Each line at the margin, and the block that it opens closed at once. -/
def scattered (rows : List Placed) : List Text :=
  rows.flatMap fun row => row.2.braced :: if row.2.opens then [['}']] else []

theorem closeTo_of_lt {column : Nat} {columns : Columns} (further : ∀ top ∈ columns, column < top) :
    closeTo column columns = (braceLines.closeAll columns, []) := by
  induction columns with
  | nil => rfl
  | cons top rest ih =>
      rw [List.forall_mem_cons] at further
      rw [closeTo, if_pos further.1, ih further.2, braceLines.closeAll]

theorem braceLines_narrow {rows : List Placed} {level : Nat} (nested : Nested level rows)
    {columns : Columns} (further : ∀ top ∈ columns, 2 * level < top) :
    braceLines columns (layout 2 rows) =
      braceLines.closeAll columns ++ scattered (renameRows renaming_bracedConstants rows) := by
  induction rows generalizing level columns with
  | nil => simp [layout, braceLines, scattered, renameRows]
  | cons row rest ih =>
      obtain ⟨d, l⟩ := row
      obtain ⟨inside, later⟩ := nested
      -- the lines in a block stand two columns in, where four are expected
      have missed : ∀ top ∈ columns, 2 * d < top := fun top member =>
        Nat.lt_of_le_of_lt (Nat.mul_le_mul_left 2 inside) (further top member)
      have here := braceLine_text columns (2 * d) l
      rw [closeTo_of_lt missed] at here
      simp only [layout, List.map_cons, braceLines, here]
      rw [← layout]
      cases opens : l.opens with
      | false =>
          rw [opens] at later
          rw [if_neg (by simp), ih later (by simp)]
          simp [scattered, renameRows, braceLines.closeAll, opens, indent]
      | true =>
          rw [opens] at later
          rw [if_pos rfl, ih later (by simp [blockWidth]; omega)]
          simp [scattered, renameRows, braceLines.closeAll, opens, indent]

end Recast.Blocks
