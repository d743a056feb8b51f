import Mathlib.Logic.Relation
import Recast.Proofs.Blocks.Program

/-! # Open blocks

The run from indentation to braces, one step at a time: a frame is pushed by a header, popped
by a line that does not reach its column, and drained at the end. Each frame but the lowest
belongs to the written header that pushed it, and all that is written inside it is closed.
-/

namespace Recast.Blocks

open Text

/-! ## Steps -/

/-- The column of the first character that is no white space. -/
def column (line : Text) : Nat := line.length - (trimLeft line).length

/-- Does the line, once it is rewritten, open a block? -/
def opensBlock (raw : Text) : Bool := opensBrace (toBraces (trim raw))

/-- A line that is written: for a blank line or another one of the text, or to close a block. -/
inductive Emitted
  | blank (raw : Text)
  | line (depth : Nat) (raw : Text)
  | closing (depth : Nat)

namespace Emitted

def text : Emitted → Text
  | blank _ => []
  | line depth raw => indent depth ++ ended (toBraces (trim raw))
  | closing depth => indent depth ++ ['}']

/-- The line of the text that it is written for. -/
def source? : Emitted → Option Text
  | blank raw | line _ raw => some raw
  | closing _ => none

end Emitted

/-- The columns of the frames, the last one pushed first, what is written and the lines left. -/
structure Progress where
  stack : List Nat
  written : List Emitted
  left : List Text

inductive Step : Progress → Progress → Prop
  | blank {stack : List Nat} {written : List Emitted} {raw : Text} {left : List Text} :
      trim raw = [] → Step ⟨stack, written, raw :: left⟩ ⟨stack, written ++ [.blank raw], left⟩
  | pop {top : Nat} {below : List Nat} {written : List Emitted} {raw : Text} {left : List Text} :
      trim raw ≠ [] → column raw < top →
      Step ⟨top :: below, written, raw :: left⟩
        ⟨below, written ++ [.closing (below.length - 1)], raw :: left⟩
  | push {top : Nat} {below : List Nat} {written : List Emitted} {raw : Text} {left : List Text} :
      trim raw ≠ [] → top ≤ column raw → opensBlock raw = true →
      Step ⟨top :: below, written, raw :: left⟩
        ⟨(column raw + blockWidth) :: top :: below, written ++ [.line below.length raw], left⟩
  | stay {top : Nat} {below : List Nat} {written : List Emitted} {raw : Text} {left : List Text} :
      trim raw ≠ [] → top ≤ column raw → opensBlock raw = false →
      Step ⟨top :: below, written, raw :: left⟩
        ⟨top :: below, written ++ [.line below.length raw], left⟩
  | drain {top next : Nat} {below : List Nat} {written : List Emitted} :
      Step ⟨top :: next :: below, written, []⟩
        ⟨next :: below, written ++ [.closing below.length], []⟩

/-- Some steps, one after the other. -/
abbrev Steps : Progress → Progress → Prop := Relation.ReflTransGen Step

/-- Before the first line there is the lowest frame alone. -/
def Progress.start (t : Text) : Progress := ⟨[0], [], lines t⟩

theorem Step.unique {s s₁ s₂ : Progress} (first : Step s s₁) (second : Step s s₂) : s₁ = s₂ := by
  cases first with
  | blank empty =>
      cases second with
      | blank => rfl
      | pop solid | push solid | stay solid => exact absurd empty solid
  | pop solid further =>
      cases second with
      | blank empty => exact absurd empty solid
      | pop => rfl
      | push _ reached | stay _ reached => omega
  | push solid reached opens =>
      cases second with
      | blank empty => exact absurd empty solid
      | pop _ further => omega
      | push => rfl
      | stay _ _ stays => simp [opens] at stays
  | stay solid reached stays =>
      cases second with
      | blank empty => exact absurd empty solid
      | pop _ further => omega
      | push _ _ opens => simp [opens] at stays
      | stay => rfl
  | drain =>
      cases second with
      | drain => rfl

/-- Where a run ends, all its states lead. -/
theorem Steps.confluent {s middle final : Progress} (whole : Steps s final)
    (stuck : ∀ s', ¬ Step final s') (part : Steps s middle) : Steps middle final := by
  induction part with
  | refl => exact whole
  | tail _ step ih =>
      rcases Relation.ReflTransGen.cases_head ih with rfl | ⟨next, step', later⟩
      · exact absurd step (stuck _)
      · rwa [step.unique step']

/-! ## Closed blocks -/

/-- Lines inside `depth` blocks, where every block that is opened is closed again. -/
inductive Paired : Nat → List Emitted → Prop
  | nil {depth : Nat} : Paired depth []
  | blank {depth : Nat} {raw : Text} {rest : List Emitted} :
      trim raw = [] → Paired depth rest → Paired depth (.blank raw :: rest)
  | line {depth : Nat} {raw : Text} {rest : List Emitted} :
      trim raw ≠ [] → opensBlock raw = false → Paired depth rest →
      Paired depth (.line depth raw :: rest)
  | block {depth : Nat} {raw : Text} {body rest : List Emitted} :
      trim raw ≠ [] → opensBlock raw = true → Paired (depth + 1) body → Paired depth rest →
      Paired depth (.line depth raw :: (body ++ .closing depth :: rest))

theorem Paired.append {depth : Nat} {first second : List Emitted} (h : Paired depth first)
    (h' : Paired depth second) : Paired depth (first ++ second) := by
  induction h with
  | nil => exact h'
  | blank empty _ ih => exact .blank empty (ih h')
  | line solid stays _ ih => exact .line solid stays (ih h')
  | block solid opens inside _ _ ih =>
      rw [List.cons_append, List.append_assoc, List.cons_append]
      exact .block solid opens inside (ih h')

/-- The frames of a stack and the lines that are written: what stands in front of a frame, the
header that pushed it, and lines inside its block. -/
inductive Opened : List Nat → List Emitted → Prop
  | bottom {done : List Emitted} : Paired 0 done → Opened [0] done
  | frame {top : Nat} {below : List Nat} {before done : List Emitted} {raw : Text} :
      Opened (top :: below) before → trim raw ≠ [] → opensBlock raw = true → top ≤ column raw →
      Paired (below.length + 1) done →
      Opened ((column raw + blockWidth) :: top :: below) (before ++ .line below.length raw :: done)

section

variable {top : Nat} {below : List Nat} {written : List Emitted}

/-- More lines inside the innermost block. -/
theorem Opened.append {stack : List Nat} (opened : Opened stack written) {more : List Emitted}
    (closed : Paired (stack.length - 1) more) : Opened stack (written ++ more) := by
  cases opened with
  | bottom done => exact .bottom (done.append closed)
  | frame outside solid opens reached done =>
      rw [List.append_assoc, List.cons_append]
      exact .frame outside solid opens reached (done.append closed)

/-- Closing the innermost block leaves a closed block inside the next one. -/
theorem Opened.close {next : Nat} (opened : Opened (top :: next :: below) written) :
    Opened (next :: below) (written ++ [.closing below.length]) := by
  cases opened with
  | frame outside solid opens reached done =>
      rw [List.append_assoc, List.cons_append]
      exact outside.append (.block solid opens done .nil)

/-- Only the lowest frame starts at zero, so it is not popped. -/
theorem Opened.exists_next (opened : Opened (top :: below) written) (high : 0 < top) :
    ∃ next deeper, below = next :: deeper := by
  cases opened with
  | bottom => omega
  | frame => exact ⟨_, _, rfl⟩

theorem Opened.stack {stack : List Nat} (opened : Opened stack written) :
    stack.getLast? = some 0 ∧ stack.Pairwise (· > ·) := by
  induction opened with
  | bottom => exact ⟨rfl, List.pairwise_singleton _ _⟩
  | @frame top below before done raw outside _ _ reached _ ih =>
      have wider : 0 < blockWidth := by decide
      refine ⟨by rw [List.getLast?_cons_cons]; exact ih.1, List.pairwise_cons.mpr ⟨?_, ih.2⟩⟩
      intro lower member
      rcases List.mem_cons.mp member with rfl | deeper
      · omega
      · have := List.rel_of_pairwise_cons ih.2 deeper
        omega

end

theorem Step.opened {s s' : Progress} (step : Step s s') (opened : Opened s.stack s.written) :
    Opened s'.stack s'.written := by
  cases step with
  | blank empty => exact opened.append (.blank empty .nil)
  | pop solid further =>
      obtain ⟨next, deeper, rfl⟩ := opened.exists_next (by omega)
      exact opened.close
  | push solid reached opens => exact .frame opened solid opens reached .nil
  | stay solid reached stays => exact opened.append (.line solid stays .nil)
  | drain => exact opened.close

theorem Steps.opened {s s' : Progress} (run : Steps s s') (opened : Opened s.stack s.written) :
    Opened s'.stack s'.written := by
  induction run with
  | refl => exact opened
  | tail _ step ih => exact step.opened ih

/-! ## Lines in order -/

/-- The lines written so far and those that are left. -/
def Progress.sources (s : Progress) : List Text := s.written.filterMap Emitted.source? ++ s.left

theorem Step.sources {s s' : Progress} (step : Step s s') : s'.sources = s.sources := by
  cases step <;> simp [Progress.sources, Emitted.source?]

theorem Steps.sources {s s' : Progress} (run : Steps s s') : s'.sources = s.sources := by
  induction run with
  | refl => rfl
  | tail _ step ih => exact step.sources.trans ih

/-! ## Whole runs -/

/-- The columns above the lowest frame make a stack with as many frames below its top. -/
theorem exists_stack (columns : Columns) : ∃ top below, columns ++ [0] = top :: below ∧
    below.length = columns.length ∧ top = columns.head?.getD 0 := by
  cases columns with
  | nil => exact ⟨0, [], rfl, rfl, rfl⟩
  | cons top rest => exact ⟨top, rest ++ [0], rfl, by simp, rfl⟩

section

variable {raw : Text} (solid : trim raw ≠ []) (columns : Columns) (written : List Emitted)
  (left : List Text)

include solid

/-- Frames that a line does not reach are popped, until it reaches one. -/
theorem steps_closeTo :
    ∃ more, Steps ⟨columns ++ [0], written, raw :: left⟩
        ⟨(closeTo (column raw) columns).2 ++ [0], written ++ more, raw :: left⟩ ∧
      more.map Emitted.text = (closeTo (column raw) columns).1 ∧
      (closeTo (column raw) columns).2.head?.getD 0 ≤ column raw := by
  induction columns generalizing written with
  | nil => exact ⟨[], by simpa [closeTo] using Relation.ReflTransGen.refl, rfl, Nat.zero_le _⟩
  | cons top rest ih =>
      rw [closeTo]
      split
      · rename_i further
        obtain ⟨more, run, spelled, reached⟩ := ih (written ++ [.closing rest.length])
        refine ⟨.closing rest.length :: more, ?_, by simp [spelled, Emitted.text], reached⟩
        have first : Step ⟨top :: (rest ++ [0]), written, raw :: left⟩
            ⟨rest ++ [0], written ++ [.closing ((rest ++ [0]).length - 1)], raw :: left⟩ :=
          .pop solid further
        rw [List.length_append, List.length_singleton, Nat.add_sub_cancel] at first
        rw [List.append_assoc] at run
        exact .head first run
      · rename_i reached
        exact ⟨[], by simpa using Relation.ReflTransGen.refl, rfl, Nat.le_of_not_lt reached⟩

/-- A line that reaches its block is written in it, whether it opens another one or not. -/
theorem step_line (reached : columns.head?.getD 0 ≤ column raw) :
    Step ⟨columns ++ [0], written, raw :: left⟩
      ⟨(if opensBlock raw then (column raw + blockWidth) :: columns else columns) ++ [0],
        written ++ [.line columns.length raw], left⟩ := by
  obtain ⟨top, below, stack, size, rfl⟩ := exists_stack columns
  cases opens : opensBlock raw with
  | true =>
      rw [if_pos rfl, List.cons_append, stack, ← size]
      exact .push solid reached opens
  | false =>
      rw [if_neg Bool.false_ne_true, stack, ← size]
      exact .stay solid reached opens

end

theorem braceLine_of_solid {raw : Text} (solid : trim raw ≠ []) (columns : Columns) :
    braceLine columns raw =
      ((closeTo (column raw) columns).1
          ++ [Emitted.text (.line (closeTo (column raw) columns).2.length raw)],
        if opensBlock raw then (column raw + blockWidth) :: (closeTo (column raw) columns).2
        else (closeTo (column raw) columns).2) := by
  rw [braceLine_eq solid, closed]
  unfold column opensBlock Emitted.text
  rfl

theorem steps_braceLine (columns : Columns) (raw : Text) (written : List Emitted)
    (left : List Text) :
    ∃ more, Steps ⟨columns ++ [0], written, raw :: left⟩
        ⟨(braceLine columns raw).2 ++ [0], written ++ more, left⟩ ∧
      more.map Emitted.text = (braceLine columns raw).1 := by
  by_cases empty : trim raw = []
  · rw [braceLine_of_blank empty]
    exact ⟨[.blank raw], .single (.blank empty), rfl⟩
  · obtain ⟨closers, closing, spelled, reached⟩ := steps_closeTo empty columns written left
    have step := step_line empty _ (written ++ closers) left reached
    rw [List.append_assoc] at step
    simp only [braceLine_of_solid empty columns]
    have whole := closing.tail step
    refine ⟨_, whole, ?_⟩
    rw [List.map_append, spelled, List.map_singleton]

/-- The columns of the blocks that are open after some lines. -/
def columnsAfter (columns : Columns) (raws : List Text) : Columns :=
  raws.foldl (fun columns raw => (braceLine columns raw).2) columns

/-- The run up to some line: the stack holds the open blocks and what is written is the
output so far. -/
theorem steps_columnsAfter (columns : Columns) (before after : List Text)
    (written : List Emitted) :
    ∃ more, Steps ⟨columns ++ [0], written, before ++ after⟩
        ⟨columnsAfter columns before ++ [0], written ++ more, after⟩ ∧
      braceLines columns (before ++ after) =
        more.map Emitted.text ++ braceLines (columnsAfter columns before) after := by
  induction before generalizing columns written with
  | nil => exact ⟨[], by simpa [columnsAfter] using Relation.ReflTransGen.refl, rfl⟩
  | cons raw rest ih =>
      obtain ⟨here, first, spelled⟩ := steps_braceLine columns raw written (rest ++ after)
      obtain ⟨later, run, spelled'⟩ := ih (braceLine columns raw).2 (written ++ here)
      rw [List.append_assoc] at run
      refine ⟨here ++ later, first.trans run, ?_⟩
      calc braceLines columns (raw :: rest ++ after)
          = (braceLine columns raw).1 ++ braceLines (braceLine columns raw).2 (rest ++ after) := rfl
        _ = (here ++ later).map Emitted.text ++
              braceLines (columnsAfter columns (raw :: rest)) after := by
            rw [spelled', ← spelled, List.map_append, List.append_assoc]
            rfl

theorem steps_closeAll (columns : Columns) (written : List Emitted) :
    ∃ more, Steps ⟨columns ++ [0], written, []⟩ ⟨[0], written ++ more, []⟩ ∧
      more.map Emitted.text = braceLines.closeAll columns := by
  induction columns generalizing written with
  | nil => exact ⟨[], by simpa using Relation.ReflTransGen.refl, rfl⟩
  | cons top rest ih =>
      obtain ⟨more, run, spelled⟩ := ih (written ++ [.closing rest.length])
      refine ⟨.closing rest.length :: more, ?_, by simp [braceLines.closeAll, spelled, Emitted.text]⟩
      have first : Step ⟨top :: (rest ++ [0]), written, []⟩
          ⟨rest ++ [0], written ++ [.closing rest.length], []⟩ := by
        obtain ⟨next, below, stack, size, -⟩ := exists_stack rest
        rw [stack, ← size]
        exact .drain
      rw [List.append_assoc] at run
      exact .head first run

/-- The run writes the lines in braces and drains the stack. -/
theorem steps_braceLines (raws : List Text) :
    ∃ written, Steps ⟨[0], [], raws⟩ ⟨[0], written, []⟩ ∧
      written.map Emitted.text = braceLines [] raws := by
  obtain ⟨written, run, spelled⟩ := steps_columnsAfter [] raws [] []
  obtain ⟨closers, drained, spelled'⟩ := steps_closeAll (columnsAfter [] raws) written
  rw [List.append_nil] at run spelled
  refine ⟨written ++ closers, run.trans drained, ?_⟩
  rw [List.map_append, spelled', spelled]
  rfl

end Recast.Blocks
