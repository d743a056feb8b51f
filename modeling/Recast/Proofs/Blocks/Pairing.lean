import Recast.Proofs.Blocks.Frames

/-! # Headers and their closing lines

Each line of a text gives one line of the output, and each header one more that closes its
block. Which header a closing line belongs to can be read off the margins: all that stands
between the two is further in.
-/

namespace Recast.Blocks

open Text

/-! ## Rewritten lines -/

theorem solid_trim {raw : Text} (visible : trim raw ≠ []) : Solid (trim raw) where
  first := by
    obtain ⟨c, rest, spelled⟩ := List.exists_cons_of_ne_nil visible
    have head : (trim raw).head? = some c := by rw [spelled, List.head?_cons]
    exact ⟨c, head, head_trim head⟩
  last := by
    have last := List.getLast?_eq_some_getLast visible
    exact ⟨_, last, last_trim last⟩

theorem Written.solid {line mark out : Text} {close : Char} (h : Written line mark close out)
    (visible : isBlank close = false) : Solid out where
  first := by
    obtain ⟨c, listed, head⟩ := h.head
    have known : ∀ c ∈ ['f', 'i', 'w', 'c', '}'], isBlank c = false := by decide
    exact ⟨c, head, known c listed⟩
  last := ⟨close, h.last, visible⟩

/-- A line that has no white space at its ends, and is one line. -/
structure Clean (t : Text) : Prop where
  solid : Solid t
  single : '\n' ∉ t

theorem clean_headers {line : Text} (clean : Clean line) :
    Clean (braceHeaders.foldl applyRule line) := by
  have settled := braceHeaders_settled clean.single
  rcases foldl_applyRule clean.single settled with ⟨same, -⟩ | ⟨rule, member, h⟩
  · rwa [same]
  · refine ⟨?_, (settled rule member _ h).1⟩
    rcases (written_of_braceHeader member h).2 with ⟨-, w⟩ | ⟨-, w | w⟩
    · exact w.solid (by decide)
    · exact w.solid (by decide)
    · exact w.solid (by decide)

theorem clean_returnValue {line : Text} (clean : Clean line) :
    Clean (applyRule line returnValue) := by
  rw [applyRule_eq clean.single]
  cases result : returnValue line with
  | none => exact clean
  | some out =>
      obtain ⟨blanks, value, spelled, rfl⟩ := returnValue_eq_some result
      refine ⟨⟨⟨'r', by simp, by decide⟩, ⟨';', List.getLast?_concat, by decide⟩⟩, ?_⟩
      have inside : '\n' ∉ value := by
        intro member
        apply clean.single
        rw [spelled]
        exact List.mem_append_right _ member
      simp [inside]

theorem clean_toBraces {line : Text} (clean : Clean line) : Clean (toBraces line) := by
  have headed := clean_headers clean
  rw [toBraces_eq]
  exact clean_returnValue
    ⟨renaming_bracedConstants.solid headed.solid, single_bracedConstants headed.single⟩

theorem exists_ending (t : Text) : ∃ ending, (ending = [] ∨ ending = [';']) ∧
    ended t = t ++ ending := by
  unfold ended
  split
  · exact ⟨[], .inl rfl, (List.append_nil t).symm⟩
  · exact ⟨[';'], .inr rfl, rfl⟩

theorem last_ended {t : Text} (clean : Clean t) :
    ∃ c ∈ [';', '{', '}'], (ended t).getLast? = some c := by
  obtain ⟨c, last, solid⟩ := clean.solid.last
  have opens := opensBrace_of_last last solid
  unfold ended
  split
  · rename_i enough
    rcases (Bool.or_eq_true _ _).mp enough with brace | terminates
    · rw [opens, beq_iff_eq] at brace
      exact ⟨'{', by decide, brace ▸ last⟩
    · exact (terminated_eq clean.single).mp terminates
  · exact ⟨';', by decide, List.getLast?_concat⟩

theorem last_ended_iff {t : Text} (clean : Clean t) :
    (ended t).getLast? = some '{' ↔ opensBrace t = true := by
  obtain ⟨c, last, solid⟩ := clean.solid.last
  have opens := opensBrace_of_last last solid
  unfold ended
  split
  · rw [last, opens, beq_iff_eq, Option.some.injEq]
  · rename_i missing
    simp only [Bool.or_eq_true, not_or, Bool.not_eq_true] at missing
    simp [missing.1]

theorem clean_ended {t : Text} (clean : Clean t) : Clean (ended t) where
  solid := by
    obtain ⟨c, listed, last⟩ := last_ended clean
    have known : ∀ c ∈ [';', '{', '}'], isBlank c = false := by decide
    refine ⟨?_, c, last, known c listed⟩
    obtain ⟨ending, -, spelled⟩ := exists_ending t
    obtain ⟨first, head, visible⟩ := clean.solid.first
    obtain ⟨rest, rfl⟩ := List.head?_eq_some_iff.mp head
    exact ⟨first, by rw [spelled]; rfl, visible⟩
  single := by
    obtain ⟨ending, known, spelled⟩ := exists_ending t
    rw [spelled]
    rcases known with rfl | rfl <;> simp [clean.single]

/-! ## Written lines -/

theorem column_indent {t : Text} (solid : Solid t) (depth : Nat) :
    column (indent depth ++ t) = 2 * depth := by
  rw [column, indent, solid.trimLeft_margin, List.length_append, Nat.add_sub_cancel_right]
  exact List.length_replicate

theorem last_indent {t : Text} (solid : Solid t) (depth : Nat) :
    (indent depth ++ t).getLast? = t.getLast? := by
  obtain ⟨c, last, -⟩ := solid.last
  rw [List.getLast?_append, last, Option.some_or]

theorem single_indent {t : Text} (single : '\n' ∉ t) (depth : Nat) : '\n' ∉ indent depth ++ t := by
  simp [indent, single]

namespace Emitted

/-- The number of blocks around the line; none is counted for a blank line. -/
def depth? : Emitted → Option Nat
  | blank _ => none
  | line depth _ | closing depth => some depth

/-- Does the line open a block? -/
def opens : Emitted → Bool
  | line _ raw => opensBlock raw
  | _ => false

/-- Nothing but a blank line is written as one. -/
def Fits : Emitted → Prop
  | blank raw => trim raw = []
  | line _ raw => trim raw ≠ []
  | closing _ => True

/-- What a run writes. -/
structure Proper (e : Emitted) : Prop where
  fits : e.Fits
  single : ∀ raw, e.source? = some raw → '\n' ∉ raw

variable {e : Emitted}

theorem Proper.clean {depth : Nat} {raw : Text} (proper : Proper (.line depth raw)) :
    Clean (toBraces (trim raw)) :=
  clean_toBraces ⟨solid_trim proper.fits, single_trim (proper.single raw rfl)⟩

theorem Proper.last (proper : Proper e) :
    e.text.getLast? = some '{' ↔ e.opens = true := by
  cases e with
  | blank raw => simp [text, opens]
  | closing depth => simp [text, opens]
  | line depth raw =>
      rw [text, opens, opensBlock, last_indent (clean_ended proper.clean).solid]
      exact last_ended_iff proper.clean

theorem Proper.column (proper : Proper e) {depth : Nat} (inside : e.depth? = some depth) :
    column e.text = 2 * depth := by
  cases e with
  | blank raw => cases inside
  | line depth raw =>
      cases inside
      exact column_indent (clean_ended proper.clean).solid _
  | closing depth =>
      cases inside
      exact column_indent ⟨⟨'}', rfl, by decide⟩, '}', rfl, by decide⟩ _

theorem Proper.single_text (proper : Proper e) : '\n' ∉ e.text := by
  cases e with
  | blank raw => exact List.not_mem_nil
  | line depth raw => exact single_indent (clean_ended proper.clean).single depth
  | closing depth => exact single_indent (by decide) depth

theorem Proper.form {depth : Nat} {raw : Text} (proper : Proper (.line depth raw)) :
    ∃ ending, (ending = [] ∨ ending = [';']) ∧
      (line depth raw).text = indent depth ++ toBraces (trim raw) ++ ending ∧
      ∃ c ∈ [';', '{', '}'], (line depth raw).text.getLast? = some c := by
  obtain ⟨ending, known, spelled⟩ := exists_ending (toBraces (trim raw))
  obtain ⟨c, listed, last⟩ := last_ended proper.clean
  refine ⟨ending, known, by rw [text, spelled, List.append_assoc], c, listed, ?_⟩
  rw [text, last_indent (clean_ended proper.clean).solid, last]

end Emitted

/-! ## Closing lines -/

section

variable {depth level : Nat} {raw : Text} {written before after : List Emitted}

theorem Paired.fits (paired : Paired depth written) : ∀ e ∈ written, e.Fits := by
  induction paired with
  | nil => exact List.forall_mem_nil _
  | blank empty _ ih => exact List.forall_mem_cons.mpr ⟨empty, ih⟩
  | line solid _ _ ih => exact List.forall_mem_cons.mpr ⟨solid, ih⟩
  | block solid _ _ _ ihBody ih =>
      exact List.forall_mem_cons.mpr ⟨solid,
        List.forall_mem_append.mpr ⟨ihBody, List.forall_mem_cons.mpr ⟨trivial, ih⟩⟩⟩

/-- All lines inside some blocks are that far in. -/
theorem Paired.inside (paired : Paired depth written) :
    ∀ e ∈ written, ∀ level, e.depth? = some level → depth ≤ level := by
  induction paired with
  | nil => simp
  | blank _ _ ih => exact List.forall_mem_cons.mpr ⟨nofun, ih⟩
  | line _ _ _ ih =>
      refine List.forall_mem_cons.mpr ⟨?_, ih⟩
      rintro level ⟨⟩
      exact Nat.le_refl _
  | block _ _ _ _ ihBody ih =>
      intro e member level known
      simp only [List.mem_cons, List.mem_append] at member
      rcases member with rfl | inside | rfl | later
      · cases known
        exact Nat.le_refl _
      · exact Nat.le_of_succ_le (ihBody e inside level known)
      · cases known
        exact Nat.le_refl _
      · exact ih e later level known

/-- A header is followed by the lines of its block and its closing line. -/
theorem Paired.exists_closing (paired : Paired depth written) (opens : opensBlock raw = true)
    (split : written = before ++ .line level raw :: after) :
    ∃ body rest, after = body ++ .closing level :: rest ∧ Paired (level + 1) body := by
  induction paired generalizing before after with
  | nil => simp at split
  | blank _ _ ih =>
      cases before with
      | nil => cases split
      | cons e before => exact ih (List.cons.inj split).2
  | line _ stays _ ih =>
      cases before with
      | nil =>
          cases split
          simp [opens] at stays
      | cons e before => exact ih (List.cons.inj split).2
  | @block depth raw' body rest _ _ inside _ ihBody ih =>
      cases before with
      | nil =>
          cases split
          exact ⟨body, rest, rfl, inside⟩
      | cons e before =>
          -- The header stands behind the block or inside it.
          rcases List.append_eq_append_iff.mp (List.cons.inj split).2 with
            ⟨more, -, later⟩ | ⟨more, within, later⟩
          · cases more with
            | nil => cases later
            | cons e more => exact ih (List.cons.inj later).2
          · cases more with
            | nil => cases later
            | cons e more =>
                obtain ⟨rfl, rfl⟩ := List.cons.inj later
                obtain ⟨body', rest', rfl, inside'⟩ := ihBody within
                exact ⟨body', rest' ++ .closing depth :: rest, by simp, inside'⟩

/-- One line is written for each line of the text, and one more for each header. -/
theorem Paired.length (paired : Paired depth written) :
    written.length = (written.filterMap Emitted.source?).length + written.countP Emitted.opens := by
  induction paired with
  | nil => rfl
  | blank _ _ ih =>
      simp only [List.length_cons, List.filterMap_cons, Emitted.source?, List.countP_cons,
        Emitted.opens, Bool.false_eq_true, if_false]
      omega
  | line _ stays _ ih =>
      simp only [List.length_cons, List.filterMap_cons, Emitted.source?, List.countP_cons,
        Emitted.opens, stays, Bool.false_eq_true, if_false]
      omega
  | block _ opens _ _ ihBody ih =>
      simp only [List.length_cons, List.length_append, List.filterMap_cons, List.filterMap_append,
        Emitted.source?, List.countP_cons, List.countP_append, Emitted.opens, opens, if_true,
        Bool.false_eq_true, if_false]
      omega

end

/-- What stands in front of the first line that a condition fails for. -/
theorem eq_of_append_cons {α : Type} {p : α → Prop} {xs ys xs' ys' : List α} {x y : α}
    (same : xs ++ x :: xs' = ys ++ y :: ys') (holds : ∀ a ∈ xs, p a) (holds' : ∀ a ∈ ys, p a)
    (fails : ¬ p x) (fails' : ¬ p y) : xs = ys := by
  classical
  have cut {zs rest : List α} {z : α} (holds : ∀ a ∈ zs, p a) (fails : ¬ p z) :
      (zs ++ z :: rest).takeWhile (fun a => decide (p a)) = zs := by
    rw [List.takeWhile_append_of_pos (by simpa using holds),
      List.takeWhile_cons_of_neg (by simpa using fails), List.append_nil]
  rw [← cut holds fails, same, cut holds' fails']

/-- The lines further in than a header, up to the line that closes its block. -/
def Encloses (header : Emitted) (after body : List Emitted) : Prop :=
  ∃ close rest, after = body ++ close :: rest ∧ close.source? = none ∧
    column close.text = column header.text ∧
      ∀ e ∈ body, e.text = [] ∨ column header.text < column e.text

theorem exists_closing_of_source? {e : Emitted} (h : e.source? = none) :
    ∃ depth, e = .closing depth := by
  cases e with
  | closing depth => exact ⟨depth, rfl⟩
  | _ => cases h

theorem Encloses.unique {header : Emitted} {after body body' : List Emitted}
    (h : Encloses header after body) (h' : Encloses header after body') : body = body' := by
  obtain ⟨close, rest, split, closing, level, deeper⟩ := h
  obtain ⟨close', rest', split', closing', level', deeper'⟩ := h'
  have stops {close : Emitted} (closing : close.source? = none)
      (level : column close.text = column header.text) :
      ¬ (close.text = [] ∨ column header.text < column close.text) := by
    obtain ⟨depth, rfl⟩ := exists_closing_of_source? closing
    rintro (empty | further)
    · simp [Emitted.text] at empty
    · omega
  exact eq_of_append_cons (split.symm.trans split') deeper deeper' (stops closing level)
    (stops closing' level')

theorem exists_encloses {written before after : List Emitted} {header : Emitted} {depth : Nat}
    (paired : Paired depth written) (proper : ∀ e ∈ written, e.Proper)
    (split : written = before ++ header :: after) (brace : header.text.getLast? = some '{') :
    ∃ body level, Encloses header after body ∧ Paired level body := by
  have proper' := proper header (by simp [split])
  cases header with
  | blank raw => simp [Emitted.text] at brace
  | closing level => simp [Emitted.text] at brace
  | line level raw =>
      have opens : opensBlock raw = true := proper'.last.mp brace
      obtain ⟨body, rest, rfl, inside⟩ := paired.exists_closing opens split
      have margin : column (Emitted.line level raw).text = 2 * level := proper'.column rfl
      refine ⟨body, level + 1, ⟨.closing level, rest, rfl, rfl, ?_, ?_⟩, inside⟩
      · rw [margin]
        exact (proper (.closing level) (by simp [split])).column rfl
      · intro e member
        cases known : e.depth? with
        | none =>
            cases e with
            | blank raw => exact .inl rfl
            | _ => cases known
        | some level' =>
            have deeper := inside.inside e member level' known
            rw [margin, (proper e (by simp [split, member])).column known]
            exact .inr (by omega)

/-! ## Whole texts -/

/-- The lines of the output for a text: one for each line of the text, of the form that belongs
to it, and for each header one that closes its block. -/
structure Bracketed (t : Text) (written : List Emitted) : Prop where
  output : splitOn '\n' (braceText t) = written.map Emitted.text
  sources : written.filterMap Emitted.source? = lines t
  blank : ∀ raw, .blank raw ∈ written → trim raw = []
  line : ∀ depth raw, .line depth raw ∈ written → trim raw ≠ [] ∧
    ∃ ending, (ending = [] ∨ ending = [';']) ∧
      (Emitted.line depth raw).text = indent depth ++ toBraces (trim raw) ++ ending ∧
      ∃ c ∈ [';', '{', '}'], (Emitted.line depth raw).text.getLast? = some c
  paired : Paired 0 written
  closed : ∀ before header after, written = before ++ header :: after →
    header.text.getLast? = some '{' → ∃! body, Encloses header after body
  nested : ∀ before header after body, written = before ++ header :: after →
    header.text.getLast? = some '{' → Encloses header after body → ∃ depth, Paired depth body
  length : (splitOn '\n' (braceText t)).length =
    (lines t).length + (splitOn '\n' (braceText t)).countP fun line => line.getLast? = some '{'

theorem splitOn_braceText {t : Text} {written : List Emitted}
    (spelled : written.map Emitted.text = braceLines [] (lines t))
    (sources : written.filterMap Emitted.source? = lines t)
    (proper : ∀ e ∈ written, e.Proper) :
    splitOn '\n' (braceText t) = written.map Emitted.text := by
  have filled : written ≠ [] := by
    rintro rfl
    exact splitOn_ne_nil '\n' _ sources.symm
  rw [braceText, ← spelled]
  apply splitOn_join
  · simpa using filled
  · intro line member
    obtain ⟨e, listed, rfl⟩ := List.mem_map.mp member
    exact (proper e listed).single_text

theorem bracketed_of_paired {t : Text} {written : List Emitted}
    (spelled : written.map Emitted.text = braceLines [] (lines t))
    (sources : written.filterMap Emitted.source? = lines t) (paired : Paired 0 written) :
    Bracketed t written := by
  have proper : ∀ e ∈ written, e.Proper := by
    intro e member
    refine ⟨paired.fits e member, ?_⟩
    intro raw source
    apply single_of_mem_lines (t := t)
    rw [← sources]
    exact List.mem_filterMap.mpr ⟨e, member, source⟩
  have output := splitOn_braceText spelled sources proper
  refine ⟨output, sources, ?_, ?_, paired, ?_, ?_, ?_⟩
  · intro raw member
    exact (proper _ member).fits
  · intro depth raw member
    exact ⟨(proper _ member).fits, (proper _ member).form⟩
  · intro before header after split brace
    obtain ⟨body, -, encloses, -⟩ := exists_encloses paired proper split brace
    exact ⟨body, encloses, fun _ other => other.unique encloses⟩
  · intro before header after body split brace other
    obtain ⟨body', depth, encloses, inside⟩ := exists_encloses paired proper split brace
    obtain rfl := other.unique encloses
    exact ⟨depth, inside⟩
  · rw [output, List.length_map, paired.length, sources, List.countP_map]
    congr 1
    apply List.countP_congr
    intro e member
    simp [(proper e member).last]

/-- The run of a text, step by step: it comes past every line with the blocks that are open
there and the output so far. On the way the stack stands on its lowest frame and its columns
grow, and at the end the lines are matched with those of the text. -/
theorem run_bracketed (t : Text) :
    ∃ final, Steps (.start t) final ∧ final.left = [] ∧ final.stack = [0] ∧
      Bracketed t final.written ∧
      (∀ s, Steps (.start t) s →
        Steps s final ∧ s.stack.getLast? = some 0 ∧ s.stack.Pairwise (· > ·)) ∧
      ∀ before after, lines t = before ++ after → ∃ s, Steps (.start t) s ∧ s.left = after ∧
        s.stack = columnsAfter [] before ++ [0] ∧
        braceLines [] (lines t) =
          s.written.map Emitted.text ++ braceLines (columnsAfter [] before) after := by
  obtain ⟨written, run, spelled⟩ := steps_braceLines (lines t)
  have start : Opened (Progress.start t).stack (Progress.start t).written := .bottom .nil
  have stuck : ∀ s', ¬ Step ⟨[0], written, []⟩ s' := fun _ step => nomatch step
  refine ⟨_, run, rfl, rfl, ?_, ?_, ?_⟩
  · have sources : written.filterMap Emitted.source? = lines t := by
      simpa [Progress.sources, Progress.start] using Steps.sources run
    have opened : Opened [0] written := Steps.opened run start
    cases opened with
    | bottom paired => exact bracketed_of_paired spelled sources paired
  · intro s part
    exact ⟨Steps.confluent run stuck part, (Steps.opened part start).stack⟩
  · intro before after split
    obtain ⟨written, part, spelled⟩ := steps_columnsAfter [] before after []
    rw [Progress.start, split]
    exact ⟨_, part, rfl, rfl, spelled⟩

end Recast.Blocks
