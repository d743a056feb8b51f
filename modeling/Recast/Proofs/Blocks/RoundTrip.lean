import Mathlib.Logic.Function.Iterate
import Recast.Proofs.Blocks.Program

/-! # Texts forth and back

The run lemmas for the two line machines, put together for whole texts: the way to
braces and back keeps a program, and the same way once more scatters its blocks.
-/

namespace Recast.Blocks

open Text

/-! ## Lines of a joined text -/

theorem replace_crlf {line : Text} (single : '\n' ∉ line) (plain : line.getLast? ≠ some '\r')
    (rest : Text) :
    replace ['\r', '\n'] ['\n'] (line ++ '\n' :: rest) =
      line ++ '\n' :: replace ['\r', '\n'] ['\n'] rest := by
  induction line with
  | nil =>
      rw [List.nil_append, replace_cons (by simp)]
      rfl
  | cons c line ih =>
      have miss : ¬ ['\r', '\n'] <+: c :: (line ++ '\n' :: rest) := by
        rintro ⟨tail, spelled⟩
        cases line with
        | nil =>
            obtain rfl : '\r' = c := (List.cons.inj spelled).1
            exact plain rfl
        | cons d line =>
            obtain ⟨-, same⟩ := List.cons.inj spelled
            obtain rfl : '\n' = d := (List.cons.inj same).1
            exact single (by simp)
      have last : line.getLast? ≠ some '\r' := by
        intro ends
        cases line with
        | nil => simp at ends
        | cons d line => exact plain (by rwa [List.getLast?_cons_cons])
      rw [List.cons_append, replace_cons miss, ih (fun later => single (by simp [later])) last]
      rfl

theorem lines_join {ls : List Text} (some : ls ≠ []) (single : ∀ l ∈ ls, '\n' ∉ l)
    (plain : ∀ l ∈ ls, l.getLast? ≠ Option.some '\r') : lines (join ['\n'] ls) = ls := by
  suffices replace ['\r', '\n'] ['\n'] (join ['\n'] ls) = join ['\n'] ls by
    rw [lines, this, splitOn_join some single]
  induction ls with
  | nil => exact absurd rfl some
  | cons l ls ih =>
      rw [List.forall_mem_cons] at single plain
      cases ls with
      | nil => exact replace_of_not_mem (by simp) _ single.1
      | cons next others =>
          have later := ih (List.cons_ne_nil next others) single.2 plain.2
          simp only [join, List.append_assoc, List.singleton_append]
          rw [replace_crlf single.1 plain.1, later]

/-- A line that `lines` gives back. -/
structure Whole (line : Text) : Prop where
  single : '\n' ∉ line
  plain : line.getLast? ≠ some '\r'

theorem whole_margin {t : Text} (single : '\n' ∉ t) (solid : Solid t) (n : Nat) :
    Whole (copies n ' ' ++ t) where
  single := by simp [single]
  plain := by
    obtain ⟨c, last, blank⟩ := solid.last
    rw [List.getLast?_append, last]
    rintro same
    obtain rfl := Option.some.inj same
    exact absurd blank (by decide)

theorem whole_layout (width : Nat) (rows : List Placed) : ∀ line ∈ layout width rows, Whole line := by
  intro line member
  obtain ⟨row, -, rfl⟩ := List.mem_map.mp member
  exact whole_margin row.2.single_text row.2.solid_text _

theorem whole_brace (n : Nat) : Whole (indent n ++ ['}']) :=
  whole_margin (by decide) ⟨⟨'}', rfl, by decide⟩, ⟨'}', rfl, by decide⟩⟩ _

theorem whole_closers (depth n : Nat) : ∀ line ∈ closers depth n, Whole line := by
  induction n with
  | zero => simp [closers]
  | succ n ih => exact List.forall_mem_cons.mpr ⟨whole_brace (depth + n), ih⟩

theorem whole_bracedRows (level : Nat) (rows : List Placed) :
    ∀ line ∈ bracedRows level rows, Whole line := by
  induction rows generalizing level with
  | nil => exact whole_closers 0 level
  | cons row rest ih =>
      obtain ⟨d, l⟩ := row
      rw [bracedRows, List.forall_mem_append, List.forall_mem_cons]
      exact ⟨whole_closers d (level - d), whole_margin l.single_braced l.solid_braced _, ih _⟩

theorem lines_layout {width : Nat} {rows : List Placed} (some : rows ≠ []) :
    lines (join ['\n'] (layout width rows)) = layout width rows :=
  lines_join (by simpa [layout] using some) (fun l member => (whole_layout width rows l member).single)
    fun l member => (whole_layout width rows l member).plain

theorem lines_bracedRows {level : Nat} {rows : List Placed} (some : rows ≠ []) :
    lines (join ['\n'] (bracedRows level rows)) = bracedRows level rows := by
  refine lines_join ?_ (fun l member => (whole_bracedRows level rows l member).single)
    fun l member => (whole_bracedRows level rows l member).plain
  obtain ⟨row, rest, rfl⟩ := List.exists_cons_of_ne_nil some
  simp [bracedRows]

/-! ## One trip -/

theorem braceText_layout {rows : List Placed} (some : rows ≠ []) (nested : Nested 0 rows) :
    braceText (join ['\n'] (layout 4 rows)) =
      join ['\n'] (bracedRows 0 (renameRows renaming_bracedConstants rows)) := by
  rw [braceText, lines_layout some]
  exact congrArg _ (braceLines_layout nested)

theorem indentText_bracedRows {rows : List Placed} (some : rows ≠ []) (nested : Nested 0 rows) :
    indentText (join ['\n'] (bracedRows 0 rows)) =
      join ['\n'] (layout 2 (renameRows renaming_indentedConstants rows)) := by
  rw [indentText, lines_bracedRows some, indentLines_bracedRows nested]

theorem braceText_narrow {rows : List Placed} (some : rows ≠ []) (nested : Nested 0 rows) :
    braceText (join ['\n'] (layout 2 rows)) =
      join ['\n'] (scattered (renameRows renaming_bracedConstants rows)) := by
  have narrow : braceLines [] (layout 2 rows) = _ := braceLines_narrow nested (by simp)
  rw [braceText, lines_layout some, narrow]
  rfl

theorem nested_renameRows {f : Text → Text} (h : Renaming f) {rows : List Placed} {level : Nat}
    (nested : Nested level rows) : Nested level (renameRows h rows) := by
  induction rows generalizing level with
  | nil => exact trivial
  | cons row rest ih =>
      obtain ⟨inside, later⟩ := nested
      refine ⟨inside, ?_⟩
      rw [Line.opens_rename]
      exact ih later

theorem renameRows_ne_nil {f : Text → Text} (h : Renaming f) {rows : List Placed}
    (some : rows ≠ []) : renameRows h rows ≠ [] := by
  simpa [renameRows] using some

theorem Statement.exists_row (s : Statement) (depth : Nat) : ∃ row ∈ s.rows depth, row.1 = depth := by
  cases s <;> exact ⟨_, List.mem_cons_self, rfl⟩

theorem Program.exists_row (p : Program) (depth : Nat) : ∃ row ∈ p.rows depth, row.1 = depth := by
  cases p with
  | last s => exact s.exists_row depth
  | more s rest =>
      obtain ⟨row, member, level⟩ := s.exists_row depth
      exact ⟨row, List.mem_append_left _ member, level⟩

theorem Program.rows_ne_nil (p : Program) : p.rows 0 ≠ [] := by
  obtain ⟨row, member, -⟩ := p.exists_row 0
  exact List.ne_nil_of_mem member

/-- There and back again, with the constants renamed twice. -/
theorem Program.indentText_braceText (p : Program) :
    indentText (braceText (p.text 4)) =
      join ['\n'] (layout 2 (renameRows renaming_indentedConstants
        (renameRows renaming_bracedConstants (p.rows 0)))) := by
  have nested := nested_renameRows renaming_bracedConstants p.rows_nested
  rw [Program.text, braceText_layout p.rows_ne_nil p.rows_nested,
    indentText_bracedRows (renameRows_ne_nil _ p.rows_ne_nil) nested]

theorem Program.occurs_line {p : Program} {width : Nat} {row : Placed} (member : row ∈ p.rows 0)
    {word : Text} (occurs : Occurs word row.2.text) : Occurs word (p.text width) := by
  have starts : startsWord (copies (width * row.1) ' ').getLast? = true := by
    rw [List.getLast?_replicate]
    split
    · rfl
    · decide
  have line : Occurs word (copies (width * row.1) ' ' ++ row.2.text) := by
    simpa using occurs.append _ [] starts rfl
  exact Occurs.join (List.mem_map_of_mem member) line

/-- A program comes back with half the indentation. -/
theorem Program.round_trip (p : Program)
    (fresh : ∀ word ∈ [("true" : Text), "false", "null"], ¬ Occurs word (p.text 4)) :
    indentText (braceText (p.text 4)) = p.text 2 := by
  have same : layout 2 (renameRows renaming_indentedConstants
      (renameRows renaming_bracedConstants (p.rows 0))) = layout 2 (p.rows 0) := by
    simp only [layout, renameRows, List.map_map]
    refine List.map_congr_left fun row member => ?_
    have settled := indentedConstants_bracedConstants (t := row.2.text) fun word known occurs =>
      fresh word known (p.occurs_line member occurs)
    simp only [Function.comp_apply]
    rw [← Line.rename_text, ← Line.rename_text, settled]
  rw [p.indentText_braceText, same, Program.text]

/-- A function of a number with a choice of three branches and a loop in the second one. -/
def sign : Program :=
  let n : Expression :=
    ⟨"n", ⟨⟨'n', rfl, by decide⟩, ⟨'n', rfl, by decide⟩⟩, by decide, by decide⟩
  let below : Expression :=
    ⟨"n < 0", ⟨⟨'n', rfl, by decide⟩, ⟨'0', rfl, by decide⟩⟩, by decide, by decide⟩
  let nothing : Expression :=
    ⟨"None", ⟨⟨'N', rfl, by decide⟩, ⟨'e', rfl, by decide⟩⟩, by decide, by decide⟩
  .last (.function ⟨"sign", 's', "ign", rfl, by decide, by decide⟩ ⟨"n", by decide, by decide⟩
    (.more (.choice below (.last (.result nothing))
      (.alternative n (.last (.count ⟨"i", 'i', [], rfl, by decide, by decide⟩ n (.last (.output n))))
        (.otherwise (.last (.assignment ⟨"n", 'n', [], rfl, by decide, by decide⟩ nothing)))))
      (.last (.result n))))

theorem sign_round_trip :
    (∀ word ∈ [("true" : Text), "false", "null"], ¬ Occurs word (sign.text 4)) ∧
      indentText (braceText (sign.text 4)) = sign.text 2 := by
  have fresh : ∀ word ∈ [("true" : Text), "false", "null"], ¬ Occurs word (sign.text 4) := by
    have absent : ∀ word ∈ [("true" : Text), "false", "null"], ¬ word <:+: sign.text 4 := by
      decide +kernel
    exact fun word member occurs => absent word member occurs.infix
  exact ⟨fresh, sign.round_trip fresh⟩

/-! ## More trips -/

theorem scattered_settled (rows : List Placed) :
    scattered (renameRows renaming_bracedConstants (renameRows renaming_indentedConstants
      (renameRows renaming_bracedConstants rows))) =
        scattered (renameRows renaming_bracedConstants rows) := by
  simp only [scattered, renameRows, List.map_map, List.flatMap_map]
  refine List.flatMap_congr fun row _ => ?_
  simp only [Function.comp_apply, Line.opens_rename]
  rw [← Line.rename_braced, ← Line.rename_braced, ← Line.rename_braced,
    bracedConstants_indentedConstants]

theorem braceText_indentText_bracedRows {rows : List Placed} (some : rows ≠ [])
    (nested : Nested 0 rows) :
    braceText (indentText (join ['\n'] (bracedRows 0 (renameRows renaming_bracedConstants rows)))) =
      join ['\n'] (scattered (renameRows renaming_bracedConstants rows)) := by
  have filled := renameRows_ne_nil renaming_bracedConstants some
  have inner := nested_renameRows renaming_bracedConstants nested
  rw [indentText_bracedRows filled inner,
    braceText_narrow (renameRows_ne_nil _ filled) (nested_renameRows _ inner), scattered_settled]

/-- The same lines outside all blocks. -/
def flattened (rows : List Placed) : List Placed := rows.map fun row => (0, row.2)

theorem nested_flattened (rows : List Placed) (level : Nat) : Nested level (flattened rows) := by
  induction rows generalizing level with
  | nil => exact trivial
  | cons row rest ih => exact ⟨Nat.zero_le level, ih _⟩

theorem bracedRows_flattened (rows : List Placed) (level : Nat) :
    bracedRows level (flattened rows) = closers 0 level ++ scattered rows := by
  induction rows generalizing level with
  | nil => simp [bracedRows, flattened, scattered]
  | cons row rest ih =>
      have later := ih row.2.opens.toNat
      rw [flattened] at later ⊢
      simp only [List.map_cons, bracedRows, Nat.zero_add, later, scattered, List.flatMap_cons]
      cases row.2.opens <;> simp [closers, indent]

/-- From braces to indentation and to braces again. -/
def swapped (t : Text) : Text := braceText (indentText t)

theorem Program.iterate_swapped (p : Program) (n : Nat) :
    swapped^[n + 1] (braceText (p.text 4)) =
      join ['\n'] (scattered (renameRows renaming_bracedConstants (p.rows 0))) := by
  induction n with
  | zero =>
      rw [Nat.zero_add, Function.iterate_one, swapped, Program.text,
        braceText_layout p.rows_ne_nil p.rows_nested]
      exact braceText_indentText_bracedRows p.rows_ne_nil p.rows_nested
  | succ n ih =>
      have some : flattened (p.rows 0) ≠ [] := by simpa [flattened] using p.rows_ne_nil
      have again := braceText_indentText_bracedRows some (nested_flattened (p.rows 0) 0)
      have flat : renameRows renaming_bracedConstants (flattened (p.rows 0)) =
          flattened (renameRows renaming_bracedConstants (p.rows 0)) := by
        simp [renameRows, flattened]
      have margin : scattered (flattened (renameRows renaming_bracedConstants (p.rows 0))) =
          scattered (renameRows renaming_bracedConstants (p.rows 0)) := by
        simp [scattered, flattened, List.flatMap_map]
      rw [flat, bracedRows_flattened, margin] at again
      rw [Function.iterate_succ_apply', ih]
      exact again

/-! ## Programs that stay -/

theorem mem_bracedRows {rows : List Placed} {row : Placed} (member : row ∈ rows) (level : Nat) :
    indent row.1 ++ row.2.braced ∈ bracedRows level rows := by
  induction rows generalizing level with
  | nil => simp at member
  | cons first rest ih =>
      rw [bracedRows]
      refine List.mem_append_right _ ?_
      rcases List.mem_cons.mp member with rfl | later
      · exact List.mem_cons_self
      · exact List.mem_cons_of_mem _ (ih later _)

theorem solid_scattered {rows : List Placed} {line : Text} (member : line ∈ scattered rows) :
    Solid line := by
  obtain ⟨row, -, inside⟩ := List.mem_flatMap.mp member
  rcases List.mem_cons.mp inside with rfl | closing
  · exact row.2.solid_braced
  · split at closing
    · obtain rfl := List.mem_singleton.mp closing
      exact ⟨⟨'}', rfl, by decide⟩, ⟨'}', rfl, by decide⟩⟩
    · simp at closing

theorem single_scattered {rows : List Placed} {line : Text} (member : line ∈ scattered rows) :
    '\n' ∉ line := by
  obtain ⟨row, -, inside⟩ := List.mem_flatMap.mp member
  rcases List.mem_cons.mp inside with rfl | closing
  · exact row.2.single_braced
  · split at closing
    · obtain rfl := List.mem_singleton.mp closing
      decide
    · simp at closing

theorem bracedRows_eq_scattered_iff (p : Program) {f : Text → Text} (h : Renaming f) :
    bracedRows 0 (renameRows h (p.rows 0)) = scattered (renameRows h (p.rows 0)) ↔
      ∀ row ∈ p.rows 0, row.1 = 0 := by
  constructor
  · intro same row member
    by_contra deep
    have line := mem_bracedRows (List.mem_map_of_mem
      (f := fun row : Placed => (row.1, row.2.rename h)) member) 0
    have scattered := solid_scattered (same ▸ line)
    obtain ⟨c, first, blank⟩ := scattered.first
    obtain ⟨n, level⟩ := Nat.exists_eq_succ_of_ne_zero deep
    have space : c = ' ' := by
      simpa [level, indent, Nat.mul_succ, List.replicate_succ, eq_comm] using first
    subst space
    exact absurd blank (by decide)
  · intro outside
    have flat : flattened (renameRows h (p.rows 0)) = renameRows h (p.rows 0) := by
      simp only [flattened, renameRows, List.map_map]
      refine List.map_congr_left fun row member => ?_
      rw [Function.comp_apply, outside row member]
    have whole := bracedRows_flattened (renameRows h (p.rows 0)) 0
    rwa [flat] at whole

/-- However often a program goes back and comes again, its lines stand at the margin with their
    blocks closed before them; the first text stays only if it has no line in a block. -/
theorem Program.swaps_scatter (p : Program) :
    (∀ n, swapped^[n + 1] (braceText (p.text 4)) =
        join ['\n'] (scattered (renameRows renaming_bracedConstants (p.rows 0)))) ∧
      (swapped (braceText (p.text 4)) = braceText (p.text 4) ↔ ∀ row ∈ p.rows 0, row.1 = 0) := by
  refine ⟨p.iterate_swapped, ?_⟩
  have once := p.iterate_swapped 0
  rw [Nat.zero_add, Function.iterate_one] at once
  rw [once, Program.text, braceText_layout p.rows_ne_nil p.rows_nested, eq_comm,
    ← bracedRows_eq_scattered_iff p renaming_bracedConstants]
  constructor
  · intro same
    have some := renameRows_ne_nil renaming_bracedConstants p.rows_ne_nil
    generalize renameRows renaming_bracedConstants (p.rows 0) = rows at same some ⊢
    obtain ⟨row, rest, rfl⟩ := List.exists_cons_of_ne_nil some
    have left : splitOn '\n' (join ['\n'] (bracedRows 0 (row :: rest))) = _ :=
      splitOn_join (by simp [bracedRows]) fun l member => (whole_bracedRows 0 _ l member).single
    rw [← left, same]
    exact splitOn_join (by simp [scattered]) fun l => single_scattered
  · intro same
    rw [same]

/-- A function that returns its argument. -/
def identity : Program :=
  .last (.function ⟨"f", 'f', [], rfl, by decide, by decide⟩ ⟨"x", by decide, by decide⟩
    (.last (.result ⟨"x", ⟨⟨'x', rfl, by decide⟩, ⟨'x', rfl, by decide⟩⟩, by decide, by decide⟩)))

/-- The second time around, the statement has left the function. -/
theorem swapped_identity :
    identity.text 4 = "def f(x):\n    return x".toList ∧
      braceText (identity.text 4) = "function f(x) \x7b\n  return x;\n\x7d".toList ∧
        swapped (braceText (identity.text 4)) = "function f(x) \x7b\n\x7d\nreturn x;".toList ∧
          swapped (braceText (identity.text 4)) ≠ braceText (identity.text 4) := by
  refine ⟨?_, ?_, ?_, ?_⟩
  · rfl
  · rfl
  · rfl
  · decide

end Recast.Blocks
