import Mathlib.Data.List.SplitBy
import Recast.Proofs.Number.Shortest
import Recast.Proofs.Yaml.Scanning

/-! # Plain scalars

A scalar without quotes is a row of words. It is read to its end also where it was folded,
since no word begins or ends in a way that is an indicator.
-/

namespace Recast.Yaml

open Text Cursor

/-! ## Words -/

/-- A word that can stand in a plain scalar. -/
structure IsWord (w : Text) : Prop where
  nonempty : w ≠ []
  solid : ∀ c ∈ w, isSpecial c = false ∧ isLoose c = false
  comment : w.head? ≠ some '#'
  colon : w.getLast? ≠ some ':'

/-- Words with spaces between them. -/
inductive Words : List Text → Prop where
  | last {w : Text} (word : IsWord w) : Words [w]
  | more {w : Text} {k : Nat} {rs : List Text} (word : IsWord w) (some : 0 < k) (later : Words rs) :
      Words (w :: copies k ' ' :: rs)

theorem solid_char {c : Char} (h : isSpecial c = false ∧ isLoose c = false) :
    isGap c = false ∧ endsLine c = false ∧ isParting c = false := by
  obtain ⟨special, loose⟩ := h
  have no (d : Char) (known : isSpecial d = true) : c ≠ d := by
    rintro rfl
    rw [known] at special
    cases special
  simp only [isLoose, Bool.or_eq_false_iff, beq_eq_false_iff_ne] at loose
  simp [isGap, endsLine, isParting, no '\t' rfl, no '\r' rfl, no '\x00' rfl, loose]

theorem IsWord.solid_append {w : Text} (word : IsWord w) (rest : Text) : Solid (w ++ rest) := by
  intro c first
  rw [List.head?_append_of_ne_nil _ word.nonempty] at first
  obtain ⟨-, line, -⟩ := solid_char (word.solid c (List.mem_of_head? first))
  refine ⟨?_, ?_, ?_, line⟩
  · rintro rfl
    exact absurd (word.solid ' ' (List.mem_of_head? first)).2 (by decide)
  · rintro rfl
    exact word.comment first
  · rintro rfl
    exact absurd (word.solid '\uFEFF' (List.mem_of_head? first)).1 (by decide)

/-- A word ends before it. -/
inductive EndsWord : Text → Prop where
  | finish : EndsWord []
  | loose {c : Char} (loose : isLoose c = true) (rest : Text) : EndsWord (c :: rest)
  | colon {rest : Text} (parted : isParted rest = true) : EndsWord (':' :: rest)

theorem plainWord_eq_nil {rest : Text} (ends : EndsWord rest) : plainWord false rest = [] := by
  cases ends with
  | finish => rfl
  | @loose c loose rest =>
      rcases isGap_or_endsLine loose with gap | line
      · simp [plainWord, gap]
      · simp [plainWord, line]
  | colon parted => simp [plainWord, parted]

theorem plainWord_append {w : Text} (solid : ∀ c ∈ w, isSpecial c = false ∧ isLoose c = false)
    (colon : w.getLast? ≠ some ':') {rest : Text} (ends : EndsWord rest) :
    plainWord false (w ++ rest) = w := by
  induction w with
  | nil => exact plainWord_eq_nil ends
  | cons c w ih =>
      obtain ⟨here, later⟩ := List.forall_mem_cons.mp solid
      obtain ⟨gap, line, -⟩ := solid_char here
      have inside : (c == ':' && isParted (w ++ rest)) = false := by
        cases w with
        | nil =>
            have other : c ≠ ':' := fun same => colon (by rw [same]; rfl)
            simp [other]
        | cons d w =>
            have solid' := (solid_char (later d List.mem_cons_self)).2.2
            simp [isParted, solid']
      have colon' : w.getLast? ≠ some ':' := by
        intro last
        exact colon (by rw [List.getLast?_cons, last]; rfl)
      rw [List.cons_append, plainWord, ih later colon']
      simp [gap, line, inside]

/-- No mark begins with a word that is no mark. -/
theorem isAtMark_eq_false {w mark : Text} (known : ∀ c ∈ mark, isLoose c = false ∧ c ≠ ':')
    (other : mark.isPrefixOf w = false) {rest : Text} (ends : EndsWord rest) {c : Cursor}
    (h : c.rest = w ++ rest) : c.isAtMark mark = false := by
  have no : after? mark (w ++ rest) = none := by
    clear h
    induction mark generalizing w with
    | nil => simp at other
    | cons m mark ih =>
        obtain ⟨here, later⟩ := List.forall_mem_cons.mp known
        cases w with
        | nil =>
            cases ends with
            | finish => rfl
            | @loose d loose rest =>
                have apart : m ≠ d := by
                  rintro rfl
                  rw [loose] at here
                  cases here.1
                simp [after?, List.isPrefixOf?, apart]
            | colon => simp [after?, List.isPrefixOf?, here.2]
        | cons d w =>
            by_cases same : m = d
            · subst same
              have below := ih later (by simpa using other)
              simpa [after?, List.isPrefixOf?] using below
            · simp [after?, List.isPrefixOf?, same]
  rw [isAtMark, h, no]

/-! ## Gaps -/

section

variable {c : Cursor} {k fuel : Nat} {rest : Text}

theorem isAtSeparator_spaces (some : 0 < k) (h : c.rest = copies k ' ' ++ rest) :
    c.isAtSeparator = false := by
  obtain ⟨k, rfl⟩ := Nat.exists_eq_succ_of_ne_zero (Nat.ne_of_gt some)
  rw [copies, List.replicate_succ, List.cons_append] at h
  simp [isAtSeparator, isAtMark, after?, List.isPrefixOf?, h]

theorem readPlainGap_spaces (h : c.rest = copies k ' ' ++ rest) (solid : Solid rest) :
    readPlainGap fuel c = (copies k ' ', false, ⟨rest, c.index + k, c.line, c.column + k⟩) := by
  have stop : (⟨rest, c.index + k, c.line, c.column + k⟩ : Cursor).readBreak? = none :=
    readBreak?_eq_none fun ch first => (solid ch first).2.2.2
  rw [readPlainGap, span_spaces h solid]
  simp only [stop]

theorem readPlainGap_mark (h : c.rest = '\n' :: rest)
    (marked : Cursor.isAtSeparator ⟨rest, c.index + 1, c.line + 1, 0⟩ = true) :
    readPlainGap fuel c = ([], true, ⟨rest, c.index + 1, c.line + 1, 0⟩) := by
  have here : c.span (· = ' ') = ([], c) := by
    rw [span, h]
    rfl
  simp only [readPlainGap, here, readBreak?_lineFeed h, marked, if_true]

/-- Behind a line break a plain scalar goes on, unless a mark stands there. -/
theorem readPlainGap_newLine (fuel : Nat) (h : c.rest = newLine k ++ rest) (solid : Solid rest) :
    readPlainGap (fuel + 1) c = ([' '], true, ⟨rest, c.index + 1 + k, c.line + 1, k⟩) ∨
      k = 0 ∧ readPlainGap (fuel + 1) c = ([], true, ⟨rest, c.index + 1, c.line + 1, 0⟩) := by
  have here : c.span (· = ' ') = ([], c) := by
    rw [span, h]
    rfl
  have broken : c.readBreak? =
      some ('\n', ⟨copies k ' ' ++ rest, c.index + 1, c.line + 1, 0⟩) := readBreak?_lineFeed h
  cases mark : Cursor.isAtSeparator ⟨copies k ' ' ++ rest, c.index + 1, c.line + 1, 0⟩ with
  | false =>
      have skipped : (⟨copies k ' ' ++ rest, c.index + 1, c.line + 1, 0⟩ : Cursor).skip (· = ' ') =
          ⟨rest, c.index + 1 + k, c.line + 1, k⟩ := by
        rw [skip_spaces rfl solid, Nat.zero_add]
      have stop : (⟨rest, c.index + 1 + k, c.line + 1, k⟩ : Cursor).readBreak? = Option.none :=
        readBreak?_eq_none fun ch first => (solid ch first).2.2.2
      left
      simp [readPlainGap, here, broken, mark, readPlainLines, skipped, stop, foldBreak]
  | true =>
      have flush : k = 0 := by
        by_contra some
        rw [isAtSeparator_spaces (Nat.pos_of_ne_zero some) rfl] at mark
        cases mark
      subst flush
      exact .inr ⟨rfl, readPlainGap_mark h mark⟩

end

/-! ## Reading -/

/-- What can follow the last word of a plain scalar, with the place where reading stops and
    whether that is on a new line. -/
inductive PlainEnd (least : Int) (c : Cursor) : Bool → Cursor → Prop where
  | finish (h : c.rest = []) : PlainEnd least c false c
  | colon {rest : Text} (h : c.rest = ':' :: rest) (parted : isParted rest = true) :
      PlainEnd least c false c
  | line {k : Nat} {rest : Text} (h : c.rest = newLine k ++ rest) (solid : Solid rest)
      (stops : rest = [] ∨ (k : Int) < least) :
      PlainEnd least c true ⟨rest, c.index + 1 + k, c.line + 1, k⟩
  /-- A mark stops the reading in front of it. -/
  | mark {rest : Text} (h : c.rest = '\n' :: rest)
      (marked : Cursor.isAtSeparator ⟨rest, c.index + 1, c.line + 1, 0⟩ = true) :
      PlainEnd least c true ⟨rest, c.index + 1, c.line + 1, 0⟩

theorem PlainEnd.endsWord {least : Int} {c c' : Cursor} {ended : Bool}
    (h : PlainEnd least c ended c') : EndsWord c.rest := by
  cases h with
  | finish h => exact h ▸ .finish
  | colon h parted => exact h ▸ .colon parted
  | line h => exact h ▸ .loose rfl _
  | mark h => exact h ▸ .loose rfl _

theorem isAt_word {w rest : Text} (word : IsWord w) {c : Cursor} (h : c.rest = w ++ rest) :
    c.isAt '#' = false := by
  simp only [isAt, h, List.head?_append_of_ne_nil _ word.nonempty, beq_eq_false_iff_ne]
  exact word.comment

theorem readPlain_nil {least : Int} {fuel : Nat} {gap : Text} {ended : Bool} {c : Cursor}
    (h : c.rest = []) : readPlain false least fuel gap ended c = ([], ended, c) := by
  cases fuel with
  | zero => rfl
  | succ fuel => simp [readPlain, h, plainWord]

theorem readPlain_last {w : Text} (word : IsWord w) {least : Int} {fuel : Nat} (gap : Text)
    (before : Bool) {c c' : Cursor} {ended : Bool} (h : c.rest = w ++ (c.advance w.length).rest)
    (stop : PlainEnd least (c.advance w.length) ended c') :
    readPlain false least (fuel + 2) gap before c = (gap ++ w, ended, c') := by
  have first := isAt_word word h
  have taken : plainWord false c.rest = w := by
    rw [h]
    exact plainWord_append word.solid word.colon stop.endsWord
  have filled : w.isEmpty = false := by simpa using word.nonempty
  rw [readPlain]
  simp only [taken, first, filled, Bool.or_self, Bool.false_eq_true, if_false]
  have here (solid : Solid (c.advance w.length).rest) :
      readPlainGap (fuel + 1) (c.advance w.length) = ([], false, c.advance w.length) :=
    readPlainGap_spaces (k := 0) rfl solid
  cases stop with
  | finish none =>
      rw [here (none ▸ solid_nil)]
      rfl
  | colon next parted =>
      rw [here (next ▸ solid_cons (by decide) _)]
      rfl
  | @line k rest next solid stops =>
      rcases readPlainGap_newLine fuel next solid with goesOn | ⟨rfl, stopped⟩
      · rw [goesOn]
        rcases stops with rfl | left
        · simp [isAt, readPlain_nil]
        · simp [left]
      · rw [stopped]
        rfl
  | mark next marked =>
      rw [readPlainGap_mark next marked]
      rfl

variable {fold? : Option Nat}

theorem plainRuns_word {w : Text} (word : IsWord w) (column : Nat) (rs : List Text) :
    plainRuns fold? column (w :: rs) = w ++ plainRuns fold? (column + w.length) rs := by
  have other : w ≠ [' '] := by
    rintro rfl
    exact absurd (word.solid ' ' List.mem_cons_self).2 (by decide)
  cases fold? with
  | none => rfl
  | some indent => simp [plainRuns, other]

theorem plainRuns_spaces (k column : Nat) (rs : List Text) :
    (plainRuns fold? column (copies k ' ' :: rs) =
      copies k ' ' ++ plainRuns fold? (column + k) rs) ∨
    ∃ indent, fold? = some indent ∧ copies k ' ' = [' '] ∧
      plainRuns fold? column (copies k ' ' :: rs) =
        newLine indent ++ plainRuns fold? indent rs := by
  cases fold? with
  | none => exact .inl (by simp [plainRuns])
  | some indent =>
      by_cases folds : copies k ' ' = [' '] ∧ width < column
      · exact .inr ⟨indent, rfl, folds.1, by simp [plainRuns, folds]⟩
      · exact .inl (by simp [plainRuns, folds])

theorem Words.solid_append {rs : List Text} (words : Words rs) (column : Nat) (rest : Text) :
    Solid (plainRuns fold? column rs ++ rest) := by
  cases words with
  | last word =>
      rw [plainRuns_word word, List.append_assoc]
      exact word.solid_append _
  | more word =>
      rw [plainRuns_word word, List.append_assoc]
      exact word.solid_append _

theorem Words.exists_first {rs : List Text} (words : Words rs) (fold? : Option Nat) :
    ∃ w rs', rs = w :: rs' ∧ IsWord w ∧ ∀ (column : Nat) {rest : Text}, EndsWord rest →
      EndsWord (plainRuns fold? column rs' ++ rest) := by
  cases words with
  | @last w word => exact ⟨w, [], rfl, word, fun _ _ ends => ends⟩
  | @more w k rs word wide =>
      refine ⟨w, _, rfl, word, fun column rest _ => ?_⟩
      obtain ⟨k, rfl⟩ := Nat.exists_eq_succ_of_ne_zero (Nat.ne_of_gt wide)
      rcases plainRuns_spaces (k + 1) column rs with same | ⟨indent, -, -, same⟩
      · rw [same]
        exact .loose rfl _
      · rw [same]
        exact .loose rfl _

theorem Words.length_le {rs : List Text} (words : Words rs) (fold? : Option Nat) (column : Nat) :
    rs.length ≤ (plainRuns fold? column rs).length := by
  induction words generalizing column with
  | last word =>
      have long := List.length_pos_iff.mpr word.nonempty
      rw [plainRuns_word word, List.length_append]
      exact Nat.le_add_right_of_le long
  | @more w k rs word wide later ih =>
      have long := List.length_pos_iff.mpr word.nonempty
      have gap (column : Nat) :
          rs.length + 1 ≤ (plainRuns fold? column (copies k ' ' :: rs)).length := by
        rcases plainRuns_spaces k column rs with same | ⟨indent, -, -, same⟩
        · have rest := ih (column + k)
          rw [same, List.length_append, List.length_replicate]
          omega
        · have rest := ih indent
          rw [same, List.length_append, newLine, List.length_cons]
          omega
      have both := gap (column + w.length)
      rw [plainRuns_word word, List.length_append, List.length_cons, List.length_cons]
      omega

/-- What is written ends in the last word, which stands at the start or behind a space. -/
theorem Words.exists_last {rs : List Text} (words : Words rs)
    (deep : ∀ fold, fold? = some fold → 0 < fold) (column : Nat) :
    ∃ w, IsWord w ∧ (∃ start, rs.flatten = start ++ w) ∧
      (plainRuns fold? column rs = w ∨ ∃ start, plainRuns fold? column rs = start ++ ' ' :: w) := by
  induction words generalizing column with
  | @last w word =>
      refine ⟨w, word, ⟨[], by simp⟩, .inl ?_⟩
      rw [plainRuns_word word]
      simp [plainRuns]
  | @more v k rs word wide later ih =>
      have spaces {k : Nat} (wide : 0 < k) : ∃ start, copies k ' ' = start ++ [' '] := by
        obtain ⟨k, rfl⟩ := Nat.exists_eq_succ_of_ne_zero (Nat.ne_of_gt wide)
        exact ⟨_, List.replicate_succ'⟩
      have gap : ∃ start column', plainRuns fold? column (v :: copies k ' ' :: rs) =
          start ++ ' ' :: plainRuns fold? column' rs := by
        rw [plainRuns_word word]
        rcases plainRuns_spaces k (column + v.length) rs with same | ⟨indent, known, -, same⟩
        · obtain ⟨start, ends⟩ := spaces wide
          exact ⟨v ++ start, column + v.length + k, by rw [same, ends]; simp⟩
        · obtain ⟨start, ends⟩ := spaces (deep indent known)
          exact ⟨v ++ '\n' :: start, indent, by rw [same, newLine, ends]; simp⟩
      obtain ⟨start, column', same⟩ := gap
      obtain ⟨w, word', ⟨before, whole⟩, written⟩ := ih column'
      refine ⟨w, word', ⟨v ++ (copies k ' ' ++ before), by simp [whole]⟩, .inr ?_⟩
      rcases written with alone | ⟨start', behind⟩
      · exact ⟨start, by rw [same, alone]⟩
      · exact ⟨start ++ ' ' :: start', by rw [same, behind]; simp⟩

/-- Another word follows a gap. -/
theorem readPlain_more {w gap' rest : Text} (word : IsWord w) {least : Int} {fuel : Nat}
    (gap : Text) (before : Bool) {c c' : Cursor} {ended : Bool}
    (h : c.rest = w ++ (c.advance w.length).rest) (ends : EndsWord (c.advance w.length).rest)
    (next : readPlainGap fuel (c.advance w.length) = (gap', ended, c')) (some : gap' ≠ [])
    (place : c'.rest = rest) (solid : Solid rest) (inside : least ≤ c'.column) :
    readPlain false least (fuel + 1) gap before c =
      (gap ++ w ++ (readPlain false least fuel gap' ended c').1,
        (readPlain false least fuel gap' ended c').2) := by
  have first := isAt_word word h
  have taken : plainWord false c.rest = w := by
    rw [h]
    exact plainWord_append word.solid word.colon ends
  have filled : w.isEmpty = false := by simpa using word.nonempty
  have filled' : gap'.isEmpty = false := by simpa using some
  have comment : c'.isAt '#' = false := by
    simp only [isAt, place, beq_eq_false_iff_ne]
    intro same
    exact (solid '#' same).2.1 rfl
  rw [readPlain]
  simp [taken, first, filled, next, filled', comment, inside]

/-- A gap is read as it was before lines were folded. -/
theorem readPlainGap_runs {k : Nat} (wide : 0 < k) {rs : List Text} (later : Words rs) {least : Int}
    (deep : ∀ indent, fold? = some indent → least ≤ indent ∧ 0 < indent) (column : Nat) {c : Cursor}
    {rest : Text} (h : c.rest = plainRuns fold? column (copies k ' ' :: rs) ++ rest)
    (inside : least ≤ c.column + 1) :
    ∃ g column' c' ended,
      plainRuns fold? column (copies k ' ' :: rs) = g ++ plainRuns fold? column' rs ∧
      Passes g c c' ∧ c'.rest = plainRuns fold? column' rs ++ rest ∧ least ≤ c'.column ∧
      EndsWord c.rest ∧ ∀ fuel, readPlainGap (fuel + 1) c = (copies k ' ', ended, c') := by
  rcases plainRuns_spaces k column rs with same | ⟨indent, known, single, same⟩
  · rw [same, List.append_assoc] at h
    have solid : Solid (plainRuns fold? (column + k) rs ++ rest) := later.solid_append _ rest
    have passes := passes_advance h
    rw [List.length_replicate, advance_spaces h] at passes
    refine ⟨_, _, _, false, same, passes, rfl, ?_, ?_, fun fuel => readPlainGap_spaces h solid⟩
    · dsimp only
      omega
    · obtain ⟨k, rfl⟩ := Nat.exists_eq_succ_of_ne_zero (Nat.ne_of_gt wide)
      exact h ▸ .loose rfl _
  · obtain ⟨least_le, pos⟩ := deep indent known
    rw [same, List.append_assoc] at h
    have solid : Solid (plainRuns fold? indent rs ++ rest) := later.solid_append _ rest
    have spaces : (⟨copies indent ' ' ++ (plainRuns fold? indent rs ++ rest),
        c.index + 1, c.line + 1, 0⟩ : Cursor).rest =
      copies indent ' ' ++ (plainRuns fold? indent rs ++ rest) := rfl
    have passes := passes_advance spaces
    rw [List.length_replicate, advance_spaces spaces, Nat.zero_add] at passes
    refine ⟨_, _, _, true, same, (passes_break h rfl).trans passes, rfl, least_le,
      h ▸ .loose rfl _, ?_⟩
    intro fuel
    rcases readPlainGap_newLine fuel h solid with goesOn | ⟨rfl, -⟩
    · rw [goesOn, single]
    · cases pos

/-- All words are read, with the gaps between them as they were before lines were folded. -/
theorem readPlain_words {rs : List Text} (words : Words rs) {least : Int}
    (deep : ∀ indent, fold? = some indent → least ≤ indent ∧ 0 < indent) (column : Nat) {c : Cursor}
    {rest : Text} (h : c.rest = plainRuns fold? column rs ++ rest) (inside : least ≤ c.column + 1) :
    ∃ c₁, Passes (plainRuns fold? column rs) c c₁ ∧
      ∀ fuel gap before ended c', rs.length < fuel → PlainEnd least c₁ ended c' →
        readPlain false least fuel gap before c = (gap ++ rs.flatten, ended, c') := by
  induction words generalizing column c with
  | @last w word =>
      have same : plainRuns fold? column [w] = w := by
        rw [plainRuns_word word]
        simp [plainRuns]
      rw [same] at h ⊢
      refine ⟨_, passes_advance h, ?_⟩
      intro fuel gap before ended c' enough stop
      obtain ⟨fuel, rfl⟩ := Nat.exists_eq_add_of_le' enough
      rw [List.flatten_singleton]
      exact readPlain_last word gap before (passes_advance h).rest stop
  | @more w k rs word wide later ih =>
      rw [plainRuns_word word, List.append_assoc] at h
      have there := passes_advance h
      have beyond : c.column ≤ (c.advance w.length).column := column_le_advance _
      obtain ⟨g, column', c₂, ended₂, same, gapPasses, left, inside', ends', gapRead⟩ :=
        readPlainGap_runs wide later deep _ (there.rest_eq h) (by omega)
      obtain ⟨c₁, passes, read⟩ := ih column' left (by omega)
      have some : copies k ' ' ≠ [] := List.ne_nil_of_length_pos (by rwa [List.length_replicate])
      rw [plainRuns_word word, same]
      refine ⟨c₁, there.trans (gapPasses.trans passes), ?_⟩
      intro fuel gap before ended c' enough stop
      have long : rs.length + 2 < fuel := enough
      have two : 2 ≤ fuel := by omega
      obtain ⟨fuel, rfl⟩ := Nat.exists_eq_add_of_le' two
      have short : rs.length < fuel + 1 := by omega
      rw [readPlain_more word gap before there.rest ends' (gapRead fuel) some left
        (later.solid_append _ _) inside', read _ _ _ _ _ short stop]
      simp

/-! ## Texts without indicators -/

theorem hasInnerIndicator_append {before : Char} {u rest : Text}
    (h : hasInnerIndicator before (u ++ rest) = false) :
    hasInnerIndicator (u.getLast?.getD before) rest = false := by
  induction u generalizing before with
  | nil => exact h
  | cons c u ih =>
      rw [List.cons_append, hasInnerIndicator, Bool.or_eq_false_iff] at h
      rw [List.getLast?_cons, Option.getD_some]
      exact ih h.2

theorem isWord_of_inner {w rest : Text} (nonempty : w ≠ [])
    (solid : ∀ c ∈ w, isSpecial c = false ∧ isLoose c = false) (parted : isParted rest = true)
    (h : hasInnerIndicator ' ' (w ++ rest) = false) : IsWord w where
  nonempty := nonempty
  solid := solid
  comment := by
    intro first
    obtain ⟨w, rfl⟩ := List.head?_eq_some_iff.mp first
    simp [hasInnerIndicator, isParting] at h
  colon := by
    intro last
    obtain ⟨u, rfl⟩ := List.getLast?_eq_some_iff.mp last
    rw [List.append_assoc] at h
    have colon := hasInnerIndicator_append h
    simp [hasInnerIndicator, parted] at colon

/-- A run without line breaks is of spaces alone or has none. -/
theorem isSpace_of_mem_run {run : Text}
    (alike : run.IsChain fun a b => ((a == ' ') == (b == ' ') && isBreak a == isBreak b) = true)
    {c : Char} (first : run.head? = some c) : ∀ d ∈ run, (d == ' ') = (c == ' ') := by
  induction run generalizing c with
  | nil => exact nofun
  | cons d run ih =>
      cases first
      refine List.forall_mem_cons.mpr ⟨rfl, ?_⟩
      cases run with
      | nil => exact nofun
      | cons e run =>
          obtain ⟨here, later⟩ := List.isChain_cons_cons.mp alike
          simp only [Bool.and_eq_true, beq_iff_eq] at here
          intro x member
          exact (ih later rfl x member).trans here.1.symm

/-- Runs that alternate between spaces and other characters. -/
structure Alternate (rs : List Text) : Prop where
  nonempty : ∀ run ∈ rs, run ≠ []
  alike : ∀ run ∈ rs, ∀ c ∈ run, ∀ d ∈ run, (c == ' ') = (d == ' ')
  apart : rs.IsChain fun a b => ∀ c ∈ a, ∀ d ∈ b, (c == ' ') ≠ (d == ' ')

theorem Alternate.tail {run : Text} {rs : List Text} (h : Alternate (run :: rs)) : Alternate rs where
  nonempty r member := h.nonempty r (List.mem_cons_of_mem _ member)
  alike r member := h.alike r (List.mem_cons_of_mem _ member)
  apart := h.apart.tail

theorem alternate_runs {t : Text} (single : ∀ c ∈ t, isBreak c = false) : Alternate (runs t) := by
  have inside {run : Text} (member : run ∈ runs t) {c : Char} (h : c ∈ run) : isBreak c = false := by
    have whole : c ∈ (runs t).flatten := List.mem_flatten.mpr ⟨run, member, h⟩
    rw [runs, List.flatten_splitBy] at whole
    exact single c whole
  have alike : ∀ run ∈ runs t, ∀ c ∈ run, ∀ d ∈ run, (c == ' ') = (d == ' ') := by
    intro run member c here d there
    obtain ⟨e, tail, rfl⟩ := List.exists_cons_of_ne_nil (List.ne_nil_of_mem here)
    have same := isSpace_of_mem_run (List.isChain_of_mem_splitBy member) rfl
    exact (same c here).trans (same d there).symm
  refine ⟨fun run member => List.ne_nil_of_mem_splitBy member, alike, ?_⟩
  refine (List.isChain_getLast_head_splitBy _ t).imp_of_mem_imp ?_
  rintro a b memberA memberB ⟨someA, someB, differ⟩ c here d there same
  have last := List.getLast_mem someA
  have first := List.head_mem someB
  rw [inside memberA last, inside memberB first, beq_self_eq_true, Bool.and_true,
    beq_eq_false_iff_ne] at differ
  exact differ ((alike a memberA _ last c here).trans (same.trans (alike b memberB d there _ first)))

section

variable {w gap : Text} {rs : List Text}

theorem Alternate.no_spaces (h : Alternate (w :: rs)) (first : (w :: rs).flatten.head? ≠ some ' ') :
    ∀ c ∈ w, c ≠ ' ' := by
  rintro c member rfl
  obtain ⟨d, tail, rfl⟩ := List.exists_cons_of_ne_nil (h.nonempty w List.mem_cons_self)
  have same := h.alike _ List.mem_cons_self ' ' member d List.mem_cons_self
  have space : d = ' ' := by simpa using same
  exact first (by rw [space]; rfl)

theorem Alternate.spaces (h : Alternate (w :: gap :: rs)) (bare : ∀ c ∈ w, c ≠ ' ') :
    gap = copies gap.length ' ' := by
  refine List.eq_replicate_iff.mpr ⟨rfl, fun d member => ?_⟩
  obtain ⟨c, tail, rfl⟩ := List.exists_cons_of_ne_nil (h.nonempty w List.mem_cons_self)
  have differ := (List.isChain_cons_cons.mp h.apart).1 c List.mem_cons_self d member
  have other : (c == ' ') = false := by simpa using bare c List.mem_cons_self
  simpa [other] using differ

theorem Alternate.parted (h : Alternate (w :: rs)) (bare : ∀ c ∈ w, c ≠ ' ') :
    isParted rs.flatten = true := by
  cases rs with
  | nil => rfl
  | cons gap rs =>
      obtain ⟨d, tail, rfl⟩ := List.exists_cons_of_ne_nil
        (h.nonempty gap (List.mem_cons_of_mem _ List.mem_cons_self))
      have space := h.spaces bare
      rw [copies, List.length_cons, List.replicate_succ] at space
      rw [(List.cons.inj space).1]
      rfl

theorem Alternate.isWord (h : Alternate (w :: rs))
    (plain : ∀ c ∈ (w :: rs).flatten, isSpecial c = false ∧ isBreak c = false)
    (first : (w :: rs).flatten.head? ≠ some ' ')
    (inner : hasInnerIndicator ' ' (w :: rs).flatten = false) : IsWord w := by
  have bare := h.no_spaces first
  refine isWord_of_inner (h.nonempty w List.mem_cons_self) (fun c member => ?_) (h.parted bare) inner
  obtain ⟨special, break_⟩ := plain c (List.mem_append_left _ member)
  exact ⟨special, by simp [isLoose, bare c member, break_]⟩

end

theorem words_of_alternate : ∀ {rs : List Text}, rs ≠ [] → Alternate rs →
    (∀ c ∈ rs.flatten, isSpecial c = false ∧ isBreak c = false) →
    rs.flatten.head? ≠ some ' ' → rs.flatten.getLast? ≠ some ' ' →
    hasInnerIndicator ' ' rs.flatten = false → Words rs
  | [w], _, alternate, plain, first, _, inner => .last (alternate.isWord plain first inner)
  | w :: gap :: rs, _, alternate, plain, first, last, inner => by
      have word := alternate.isWord plain first inner
      have spaces := alternate.spaces (alternate.no_spaces first)
      have wide := alternate.nonempty gap (List.mem_cons_of_mem _ List.mem_cons_self)
      obtain ⟨k, rfl⟩ : ∃ k, gap = copies k ' ' := ⟨_, spaces⟩
      have pos : 0 < k := by
        by_contra none
        rw [Nat.eq_zero_of_not_pos none] at wide
        exact wide rfl
      have lastSpace : (copies k ' ').getLast? = some ' ' := by
        rw [copies, List.getLast?_replicate, if_neg (Nat.ne_of_gt pos)]
      have behind : (w :: copies k ' ' :: rs).flatten = (w ++ copies k ' ') ++ rs.flatten := by
        simp
      rw [behind] at last inner
      have some : rs ≠ [] := by
        rintro rfl
        rw [List.flatten_nil, List.append_nil, List.getLast?_append_of_ne_nil _ wide] at last
        exact last lastSpace
      obtain ⟨w', rs', rfl⟩ := List.exists_cons_of_ne_nil some
      obtain ⟨d, tail, rfl⟩ := List.exists_cons_of_ne_nil
        (alternate.tail.tail.nonempty w' List.mem_cons_self)
      refine .more word pos (words_of_alternate some alternate.tail.tail (fun c member => ?_) ?_ ?_ ?_)
      · exact plain c (by rw [behind]; exact List.mem_append_right _ member)
      · rintro ⟨⟩
        exact (List.isChain_cons_cons.mp alternate.tail.apart).1 ' ' (List.mem_of_getLast? lastSpace)
          ' ' List.mem_cons_self rfl
      · rwa [List.getLast?_append_of_ne_nil _ (by simp)] at last
      · have inner' := hasInnerIndicator_append inner
        rwa [List.getLast?_append_of_ne_nil _ wide, lastSpace] at inner'

/-- Nothing but a plain scalar begins like the word. -/
structure Opens (w : Text) : Prop where
  dashes : ("---" : Text).isPrefixOf w = false
  dots : ("..." : Text).isPrefixOf w = false
  first : ∃ c tail, w = c :: tail ∧
    (Scan.isIndicator c = false ∨ (tail ≠ [] ∧ (c = '?' ∨ c = ':' ∨ c = '-')))

/-- Words that make a plain scalar. -/
structure Readable (rs : List Text) : Prop where
  words : Words rs
  opens : ∀ w, rs.head? = some w → Opens w

theorem isIndicator_eq_false {c : Char} (hard : "#,[]\x7b\x7d&*!|>'\"%@`".toList.elem c = false)
    (soft : "?:-".toList.elem c = false) : Scan.isIndicator c = false := by
  simp [Scan.isIndicator] at hard soft ⊢
  simp [hard, soft]

theorem isPrefixOf_eq_false {mark w rest : Text} (h : mark.isPrefixOf (w ++ rest) = false) :
    mark.isPrefixOf w = false := by
  by_contra same
  have start : mark <+: w := List.isPrefixOf_iff_prefix.mp (by simpa using same)
  have whole := List.isPrefixOf_iff_prefix.mpr (start.trans (List.prefix_append w rest))
  rw [whole] at h
  cases h

/-- A first character that is no indicator is none inside the text either. -/
theorem hasInnerIndicator_cons {c : Char} {rest : Text}
    (hard : "#,[]\x7b\x7d&*!|>'\"%@`".toList.elem c = false)
    (soft : ("?:-".toList.elem c && isParted rest) = false)
    (inner : hasInnerIndicator c rest = false) : hasInnerIndicator ' ' (c :: rest) = false := by
  have comment : c ≠ '#' := by
    rintro rfl
    exact absurd hard (by decide)
  have colon : (c == ':' && isParted rest) = false := by
    by_contra both
    simp only [Bool.not_eq_false, Bool.and_eq_true, beq_iff_eq] at both
    rw [both.1, both.2] at soft
    exact absurd soft (by decide)
  simp [hasInnerIndicator, colon, comment, inner]

theorem Alternate.opens {w : Text} {rs : List Text} (h : Alternate (w :: rs)) {c : Char} {rest : Text}
    (whole : (w :: rs).flatten = c :: rest) (start : c ≠ ' ')
    (dashes : ("---" : Text).isPrefixOf (c :: rest) = false)
    (dots : ("..." : Text).isPrefixOf (c :: rest) = false)
    (hard : "#,[]\x7b\x7d&*!|>'\"%@`".toList.elem c = false)
    (soft : ("?:-".toList.elem c && isParted rest) = false) : Opens w := by
  have bare := h.no_spaces (by simpa [whole] using start)
  rw [List.flatten_cons] at whole
  rw [← whole] at dashes dots
  refine ⟨isPrefixOf_eq_false dashes, isPrefixOf_eq_false dots, ?_⟩
  obtain ⟨d, tail, rfl⟩ := List.exists_cons_of_ne_nil (h.nonempty w List.mem_cons_self)
  obtain ⟨rfl, rfl⟩ := List.cons.inj whole
  refine ⟨d, tail, rfl, ?_⟩
  cases mild : "?:-".toList.elem d with
  | false => exact .inl (isIndicator_eq_false hard mild)
  | true =>
      have known : d = '?' ∨ d = ':' ∨ d = '-' := by simpa using mild
      rw [mild, Bool.true_and] at soft
      refine .inr ⟨?_, known⟩
      rintro rfl
      exact absurd ((h.parted bare).symm.trans soft) (by decide)

theorem readable_runs {t : Text} (allowed : allowsPlain t = true) (some : t ≠ []) :
    Readable (runs t) := by
  obtain ⟨c, rest, rfl⟩ := List.exists_cons_of_ne_nil some
  simp only [allowsPlain, Bool.not_eq_true', Bool.or_eq_false_iff, hasIndicator] at allowed
  obtain ⟨⟨⟨⟨first, last⟩, single⟩, special⟩, ⟨dashes, dots⟩, ⟨hard, soft⟩, inner⟩ := allowed
  have plain : ∀ d ∈ c :: rest, isSpecial d = false ∧ isBreak d = false := fun d member =>
    ⟨by simpa using List.any_eq_false.mp special d member,
      by simpa using List.any_eq_false.mp single d member⟩
  have whole : (runs (c :: rest)).flatten = c :: rest := List.flatten_splitBy _ _
  have alternate := alternate_runs fun d member => (plain d member).2
  have start : c ≠ ' ' := by
    rintro rfl
    cases first
  refine ⟨words_of_alternate (List.splitBy_ne_nil.mpr some) alternate ?_ ?_ ?_ ?_, ?_⟩
  · rwa [whole]
  · simpa [whole] using start
  · rw [whole]
    intro space
    rw [space] at last
    exact absurd last (by decide)
  · rw [whole]
    exact hasInnerIndicator_cons hard soft inner
  · intro w head
    obtain ⟨rs, same⟩ := List.head?_eq_some_iff.mp head
    rw [same] at alternate whole
    exact alternate.opens whole start dashes dots hard soft

/-! ## Numbers -/

theorem solid_digit {c : Char} (digit : c.isDigit = true) :
    isSpecial c = false ∧ isLoose c = false := by
  have other (d : Char) (no : d.isDigit = false) : c ≠ d := by
    rintro rfl
    rw [digit] at no
    cases no
  refine ⟨?_, ?_⟩
  · simp only [Char.isDigit, Bool.and_eq_true, decide_eq_true_eq, UInt32.le_iff_toNat_le] at digit
    have low : 0x20 ≤ c.toNat := Nat.le_trans (by decide) digit.1
    have high : c.toNat ≤ 0x7E := Nat.le_trans digit.2 (by decide)
    simp [isSpecial, low, high]
  · simp [isLoose, isBreak, other ' ' rfl, other '\n' rfl, other '\x85' rfl, other '\u2028' rfl,
      other '\u2029' rfl]

theorem isIndicator_digit {c : Char} (digit : c.isDigit = true) : Scan.isIndicator c = false := by
  by_contra known
  have member : c ∈ "-?:,[]\x7b\x7d#&*!|>'\"%@`".toList :=
    List.elem_iff.mp (Bool.not_eq_false _ ▸ known)
  have none : ∀ d ∈ "-?:,[]\x7b\x7d#&*!|>'\"%@`".toList, d.isDigit = false := by decide
  rw [none c member] at digit
  cases digit

theorem isWord_of_digits {w : Text} (some : w ≠ [])
    (all : ∀ c ∈ w, c = '-' ∨ c.isDigit = true) : IsWord w where
  nonempty := some
  solid c member := by
    rcases all c member with rfl | digit
    · exact ⟨rfl, rfl⟩
    · exact solid_digit digit
  comment first := by
    rcases all _ (List.mem_of_head? first) with other | digit
    · exact absurd other (by decide)
    · exact absurd digit (by decide)
  colon last := by
    rcases all _ (List.mem_of_getLast? last) with other | digit
    · exact absurd other (by decide)
    · exact absurd digit (by decide)

theorem opens_digit {c : Char} (digit : c.isDigit = true) (rest : Text) : Opens (c :: rest) where
  dashes := by
    have other : c ≠ '-' := by
      rintro rfl
      cases digit
    simp [List.isPrefixOf, other.symm]
  dots := by
    have other : c ≠ '.' := by
      rintro rfl
      cases digit
    simp [List.isPrefixOf, other.symm]
  first := ⟨c, rest, rfl, .inl (isIndicator_digit digit)⟩

theorem opens_minus {c : Char} (digit : c.isDigit = true) (rest : Text) :
    Opens ('-' :: c :: rest) where
  dashes := by
    have other : c ≠ '-' := by
      rintro rfl
      cases digit
    simp [List.isPrefixOf, other.symm]
  dots := rfl
  first := ⟨'-', c :: rest, rfl, .inr ⟨by simp, by simp⟩⟩

theorem readable_singleton {w : Text} (word : IsWord w) (opens : Opens w) : Readable [w] where
  words := .last word
  opens first := by
    rintro ⟨⟩
    exact opens

theorem readable_ofInt (n : Int) : Readable [ofInt n] := by
  have spelled (n : Nat) : ∃ c rest, ofNat n = c :: rest ∧ c.isDigit = true := by
    obtain ⟨c, rest, same⟩ := List.exists_cons_of_ne_nil (l := ofNat n) Nat.toDigits_ne_nil
    exact ⟨c, rest, same, digits_ofNat n c (same ▸ List.mem_cons_self)⟩
  cases n with
  | ofNat n =>
      obtain ⟨c, rest, same, digit⟩ := spelled n
      refine readable_singleton (isWord_of_digits Nat.toDigits_ne_nil ?_) ?_
      · exact fun d member => .inr (digits_ofNat n d member)
      · rw [ofInt, same]
        exact opens_digit digit rest
  | negSucc n =>
      obtain ⟨c, rest, same, digit⟩ := spelled (n + 1)
      refine readable_singleton (isWord_of_digits (List.cons_ne_nil _ _) ?_) ?_
      · exact List.forall_mem_cons.mpr ⟨.inl rfl, fun d member => .inr (digits_ofNat _ d member)⟩
      · rw [ofInt, same]
        exact opens_minus digit rest

end Recast.Yaml
