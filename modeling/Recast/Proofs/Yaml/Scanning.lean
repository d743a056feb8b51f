import Recast.Proofs.Outcome
import Recast.Proofs.Text.Cut
import Recast.Yaml.Scalar
import Recast.Yaml.Tokens

/-! # Going through a document

Between two tokens only little of what was read counts: the columns of the open collections,
whether a key may start, and a key that may be waiting for its colon. What comes next is
found behind white space, after the collections that end there.
-/

namespace Recast.Yaml

open Text

/-! ## Places -/

theorem isGap_or_endsLine {c : Char} (loose : isLoose c = true) : isGap c = true ∨ endsLine c = true := by
  simp only [isLoose, Bool.or_eq_true, beq_iff_eq] at loose
  rcases loose with rfl | break_
  · exact .inl rfl
  · exact .inr (by simp [endsLine, break_])

/-- The start of something that is neither white space nor a comment, nor a byte order mark, or the
    end. -/
def Solid (rest : Text) : Prop :=
  ∀ c, rest.head? = some c → c ≠ ' ' ∧ c ≠ '#' ∧ c ≠ '\uFEFF' ∧ endsLine c = false

theorem solid_nil : Solid [] := by
  intro c first
  cases first

theorem solid_cons {c : Char} (known : c ≠ ' ' ∧ c ≠ '#' ∧ c ≠ '\uFEFF' ∧ endsLine c = false)
    (rest : Text) : Solid (c :: rest) := by
  intro d first
  cases first
  exact known

namespace Cursor

variable {c : Cursor} {k : Nat} {rest : Text}

theorem foldl_spaces (k column : Nat) :
    (copies k ' ').foldl (fun column ch => column + columnsOf ch) column = column + k := by
  induction k generalizing column with
  | zero => rfl
  | succ k ih =>
      rw [copies, List.replicate_succ, List.foldl_cons, ih]
      have one : columnsOf ' ' = 1 := rfl
      rw [one]
      omega

@[simp] theorem rest_advance (count : Nat) : (c.advance count).rest = c.rest.drop count := rfl

@[simp] theorem line_advance (count : Nat) : (c.advance count).line = c.line := rfl

@[simp] theorem index_advance (count : Nat) : (c.advance count).index = c.index + count := rfl

theorem advance_spaces (h : c.rest = copies k ' ' ++ rest) :
    c.advance k = ⟨rest, c.index + k, c.line, c.column + k⟩ := by
  have taken : c.rest.take k = copies k ' ' := by simp [h]
  have left : c.rest.drop k = rest := by simp [h]
  rw [advance, taken, left, foldl_spaces]

theorem advance_one {ch : Char} (mark : ch ≠ '\uFEFF') (h : c.rest = ch :: rest) :
    c.advance 1 = ⟨rest, c.index + 1, c.line, c.column + 1⟩ := by
  simp [advance, h, columnsOf, mark]

theorem column_le_advance (count : Nat) : c.column ≤ (c.advance count).column := by
  have step (t : Text) (column : Nat) :
      column ≤ t.foldl (fun column ch => column + columnsOf ch) column := by
    induction t generalizing column with
    | nil => exact Nat.le_refl _
    | cons ch t ih => exact Nat.le_trans (Nat.le_add_right _ _) (ih _)
  exact step _ _

theorem span_run {p : Char → Bool} {run : Text} (h : c.rest = run ++ rest) (inside : ∀ ch ∈ run, p ch)
    (stop : ∀ ch, rest.head? = some ch → p ch = false) : c.span p = (run, c.advance run.length) := by
  rw [span, h, takeWhile_run inside stop]

theorem span_spaces (h : c.rest = copies k ' ' ++ rest) (solid : Solid rest) :
    c.span (· = ' ') = (copies k ' ', ⟨rest, c.index + k, c.line, c.column + k⟩) := by
  rw [span_run h (by simp) fun ch first => decide_eq_false (solid ch first).1,
    List.length_replicate, advance_spaces h]

theorem skip_spaces (h : c.rest = copies k ' ' ++ rest) (solid : Solid rest) :
    c.skip (· = ' ') = ⟨rest, c.index + k, c.line, c.column + k⟩ := by
  rw [skip, span_spaces h solid]

theorem skipComment_of_solid (solid : Solid c.rest) : c.skipComment = c := by
  rw [skipComment, if_neg]
  intro comment
  simp only [isAt, beq_iff_eq] at comment
  exact (solid _ comment).2.1 rfl

theorem readBreak?_eq_none (same : ∀ ch, c.rest.head? = some ch → endsLine ch = false) :
    c.readBreak? = none := by
  unfold readBreak?
  split
  · rename_i h
    exact absurd (same '\r' (by rw [h]; rfl)) (by decide)
  · rename_i d rest _ h
    have line := same d (by rw [h]; rfl)
    have first : d ≠ '\u2028' := by
      rintro rfl
      exact absurd line (by decide)
    have second : d ≠ '\u2029' := by
      rintro rfl
      exact absurd line (by decide)
    simp [first, second, line]
  · rfl

/-- The two separators are kept as they are, all other breaks are line feeds. -/
def lineOf (ch : Char) : Char := if ch = '\u2028' ∨ ch = '\u2029' then ch else '\n'

theorem readBreak?_cons {ch : Char} (h : c.rest = ch :: rest) (break_ : isBreak ch = true) :
    c.readBreak? = some (lineOf ch, ⟨rest, c.index + 1, c.line + 1, 0⟩) := by
  unfold readBreak? lineOf
  rw [h]
  split
  · rename_i same
    cases same
    exact absurd break_ (by decide)
  · rename_i d _ _ same
    cases same
    by_cases separator : ch = '\u2028' ∨ ch = '\u2029'
    · simp [separator]
    · have line : endsLine ch = true := by simp [endsLine, break_]
      simp only [if_neg separator, line, if_true]
      simp only [Bool.or_eq_true, decide_eq_true_eq, if_neg separator]
  · rename_i same
    cases same

theorem readBreak?_lineFeed (h : c.rest = '\n' :: rest) :
    c.readBreak? = some ('\n', ⟨rest, c.index + 1, c.line + 1, 0⟩) := by
  rw [readBreak?, h]
  rfl

/-- The second place is where a text ends that starts at the first one. -/
structure Passes (w : Text) (c c' : Cursor) : Prop where
  rest : c.rest = w ++ c'.rest
  index : c'.index = c.index + w.length
  line : c.line ≤ c'.line
  flat : (∀ ch ∈ w, endsLine ch = false) → c'.line = c.line ∧ c.column ≤ c'.column

theorem Passes.trans {w w' : Text} {c c' c'' : Cursor} (h : Passes w c c') (h' : Passes w' c' c'') :
    Passes (w ++ w') c c'' where
  rest := by rw [h.rest, h'.rest, List.append_assoc]
  index := by rw [h'.index, h.index, List.length_append, Nat.add_assoc]
  line := Nat.le_trans h.line h'.line
  flat all := by
    obtain ⟨first, second⟩ := List.forall_mem_append.mp all
    obtain ⟨line, column⟩ := h.flat first
    obtain ⟨line', column'⟩ := h'.flat second
    exact ⟨line'.trans line, Nat.le_trans column column'⟩

theorem passes_advance {w : Text} (h : c.rest = w ++ rest) : Passes w c (c.advance w.length) where
  rest := by simp [h]
  index := rfl
  line := Nat.le_refl _
  flat _ := ⟨rfl, column_le_advance _⟩

theorem passes_break {ch : Char} (h : c.rest = ch :: rest) (break_ : isBreak ch = true) :
    Passes [ch] c ⟨rest, c.index + 1, c.line + 1, 0⟩ where
  rest := h
  index := rfl
  line := Nat.le_succ _
  flat all := by
    have line : endsLine ch = true := by simp [endsLine, break_]
    rw [all ch List.mem_cons_self] at line
    cases line

theorem Passes.rest_eq {w : Text} {c' : Cursor} (h : Passes w c c') (h' : c.rest = w ++ rest) :
    c'.rest = rest :=
  List.append_cancel_left (h.rest.symm.trans h')

end Cursor

namespace Scan

/-! ## White space between tokens -/

section

variable {s : Scan} {k fuel : Nat} {rest : Text}

theorem skipAsides_spaces (h : s.cursor.rest = copies k ' ' ++ rest) (solid : Solid rest) :
    skipAsides (fuel + 1) s =
      { s with cursor := ⟨rest, s.cursor.index + k, s.cursor.line, s.cursor.column + k⟩ } := by
  rw [skipAsides, Cursor.skip_spaces h solid, Cursor.skipComment_of_solid solid,
    Cursor.readBreak?_eq_none fun ch first => (solid ch first).2.2.2]

theorem skipAsides_self (solid : Solid s.cursor.rest) : skipAsides (fuel + 1) s = s :=
  skipAsides_spaces (k := 0) rfl solid

theorem skipAsides_newLine (h : s.cursor.rest = newLine k ++ rest) (solid : Solid rest) :
    skipAsides (fuel + 2) s =
      { s with
        cursor := ⟨rest, s.cursor.index + 1 + k, s.cursor.line + 1, k⟩
        keyAllowed := s.keyAllowed || s.flow = 0 } := by
  have here : s.cursor.skip (· = ' ') = s.cursor := by
    rw [Cursor.skip, Cursor.span, h]
    rfl
  have plain : s.cursor.skipComment = s.cursor := by
    rw [Cursor.skipComment, if_neg]
    simp [Cursor.isAt, h, newLine]
  rw [skipAsides, here, plain, Cursor.readBreak?_lineFeed h]
  exact (skipAsides_spaces rfl solid).trans (by simp)

end

/-! ## Between two tokens -/

/-- No key is waiting for its colon. -/
structure Resting (s : Scan) (indent : Int) (outer : List Int) (tokens : List Token) : Prop where
  flow : s.flow = 0
  indent : s.indent = indent
  outer : s.outer = outer
  count : s.count = tokens.length
  tokens : s.tokens = tokens
  waiting : ∀ found ∈ s.candidates,
    found.1 = 0 ∧ found.2.isRequired = false ∧ found.2.line ≤ s.cursor.line

/-- The state at a place where no token may turn out to be a key. -/
def between (c : Cursor) (allowed : Bool) (indent : Int) (outer : List Int)
    (tokens : List Token) : Scan :=
  { cursor := c, indent, outer, keyAllowed := allowed, tokens, count := tokens.length }

theorem resting_between (c : Cursor) (allowed : Bool) (indent : Int) (outer : List Int)
    (tokens : List Token) : Resting (between c allowed indent outer tokens) indent outer tokens :=
  ⟨rfl, rfl, rfl, rfl, rfl, nofun⟩

/-- The tokens, last first, once all collections have ended. -/
def closed (indent : Int) (outer : List Int) (tokens : List Token) : List Token :=
  List.replicate (unwound (-1) indent outer).2.2 .blockEnd ++ tokens

/-- What the next step finds: `rest` at column `k`, or the end. Collections that end there are
    still open. -/
def Arrives (s : Scan) (rest : Text) (k : Nat) (allowed : Bool) (indent : Int) (outer : List Int)
    (tokens : List Token) : Prop :=
  if rest = [] then ∃ s', s.step = .ok s' ∧ s'.tokens = .streamEnd :: closed indent outer tokens
  else ∃ index line,
    s.step = ((between ⟨rest, index, line, k⟩ allowed indent outer tokens).unwind k).readToken

section

variable {s : Scan} {indent : Int} {outer : List Int} {tokens : List Token} {k : Nat} {rest : Text}

theorem Resting.giveUp (resting : Resting s indent outer tokens) (isLost : Nat × Candidate → Bool) :
    s.giveUp isLost = .ok { s with candidates := s.candidates.filter (!isLost ·) } := by
  rw [Scan.giveUp, if_neg]
  intro required
  obtain ⟨found, member, both⟩ := List.any_eq_true.mp required
  rw [(resting.waiting found member).2.1, Bool.and_false] at both
  cases both

theorem unwind_eq (flow : s.flow = 0) (column : Int) :
    s.unwind column =
      { s with
        indent := (unwound column s.indent s.outer).1
        outer := (unwound column s.indent s.outer).2.1
        tokens := List.replicate (unwound column s.indent s.outer).2.2 .blockEnd ++ s.tokens
        count := s.count + (unwound column s.indent s.outer).2.2 } := by
  rw [Scan.unwind, if_neg (not_not.mpr flow)]

@[simp] theorem cursor_unwind (column : Int) : (s.unwind column).cursor = s.cursor := by
  unfold Scan.unwind
  split <;> rfl

theorem Resting.unwind (resting : Resting s indent outer tokens) (column : Int) :
    Resting (s.unwind column) (unwound column indent outer).1 (unwound column indent outer).2.1
      (List.replicate (unwound column indent outer).2.2 .blockEnd ++ tokens) := by
  obtain ⟨flow, rfl, rfl, count, rfl, waiting⟩ := resting
  rw [unwind_eq flow]
  refine ⟨flow, rfl, rfl, ?_, rfl, waiting⟩
  simp only [count, List.length_append, List.length_replicate]
  omega

theorem unwound_cons {column : Int} (ends : column < indent) (next : Int) :
    unwound column indent (next :: outer) =
      ((unwound column next outer).1, (unwound column next outer).2.1,
        (unwound column next outer).2.2 + 1) := by
  simp [unwound, ends]

theorem unwound_self {column : Int} (inside : indent ≤ column) :
    unwound column indent outer = (indent, outer, 0) := by
  have stays : ¬ column < indent := Int.not_lt.mpr inside
  cases outer <;> simp [unwound, stays]

theorem unwind_self {column : Int} (inside : s.indent ≤ column) : s.unwind column = s := by
  rw [Scan.unwind]
  split
  · rfl
  · rw [unwound_self inside]
    simp

/-- Collections end in two goes as in one. -/
theorem unwound_unwound {column : Int} (h : -1 ≤ column) (indent : Int) (outer : List Int) :
    (unwound (-1) (unwound column indent outer).1 (unwound column indent outer).2.1).2.2
      + (unwound column indent outer).2.2 = (unwound (-1) indent outer).2.2 := by
  induction outer generalizing indent with
  | nil =>
      by_cases ends : column < indent
      · have all : -1 < indent := by omega
        simp [unwound, ends, all]
      · simp [unwound, ends]
  | cons next outer ih =>
      by_cases ends : column < indent
      · have all : -1 < indent := by omega
        rw [unwound_cons ends, unwound_cons all, ← ih next, Nat.add_assoc]
      · simp [unwound, ends]

theorem Resting.readToken_end (resting : Resting s indent outer tokens) (h : s.cursor.rest = []) :
    ∃ s', s.readToken = .ok s' ∧ s'.tokens = .streamEnd :: closed indent outer tokens := by
  have all := resting.unwind (-1)
  rw [Scan.readToken]
  simp only [h, giveUpHere, all.giveUp, ok_bind, pure_eq_ok]
  refine ⟨_, rfl, ?_⟩
  rw [add, closed, ← all.tokens]

/-- The candidates that are on the line and not too far away. -/
def near (s : Scan) : List (Nat × Candidate) :=
  s.candidates.filter fun found =>
    !(found.2.line != s.cursor.line || maxKeyLength < s.cursor.index - found.2.index)

/-- A step goes on behind the white space. -/
theorem Resting.step_eq {s₀ : Scan} (settled : skipAsides (s.cursor.rest.length + 1) s = s₀)
    (resting : Resting s₀ indent outer tokens) :
    s.step = ({ s₀ with candidates := s₀.near }.unwind s₀.column).readToken := by
  rw [Scan.step, settled, giveUpOld, resting.giveUp]
  rfl

theorem near_eq_nil (past : ∀ found ∈ s.candidates, found.2.line < s.cursor.line) :
    s.near = [] := by
  refine List.filter_eq_nil_iff.mpr fun found member => ?_
  have earlier := Nat.ne_of_lt (past found member)
  simp [earlier]

theorem Resting.arrives {s₀ : Scan} {allowed : Bool}
    (settled : skipAsides (s.cursor.rest.length + 1) s = s₀)
    (resting : Resting s₀ indent outer tokens) (place : s₀.cursor.rest = rest)
    (column : s₀.cursor.column = k) (free : s₀.keyAllowed = allowed)
    (past : rest ≠ [] → ∀ found ∈ s₀.candidates, found.2.line < s₀.cursor.line) :
    Arrives s rest k allowed indent outer tokens := by
  have step := Resting.step_eq settled resting
  have kept : Resting { s₀ with candidates := s₀.near } indent outer tokens :=
    { resting with
      waiting := fun found member => resting.waiting found (List.mem_filter.mp member).1 }
  subst place column free
  unfold Arrives
  split
  · rename_i none
    obtain ⟨s', read, same⟩ := (kept.unwind s₀.column).readToken_end (by rwa [cursor_unwind])
    refine ⟨s', step.trans read, ?_⟩
    rw [same, closed, closed, ← List.append_assoc, ← List.replicate_add, unwound_unwound]
    exact Int.le_trans (by decide) (Int.natCast_nonneg _)
  · rename_i some
    refine ⟨s₀.cursor.index, s₀.cursor.line, step.trans ?_⟩
    obtain ⟨flow, rfl, rfl, count, rfl, -⟩ := resting
    rw [near_eq_nil (past some), between, ← flow, ← count]
    rfl

theorem Resting.arrives_newLine (resting : Resting s indent outer tokens)
    (h : s.cursor.rest = newLine k ++ rest) (solid : Solid rest) :
    Arrives s rest k true indent outer tokens := by
  obtain ⟨flow, rfl, rfl, count, rfl, waiting⟩ := resting
  have long : s.cursor.rest.length + 1 = s.cursor.rest.length - 1 + 2 := by
    have some : 0 < s.cursor.rest.length := by simp [h, newLine]
    omega
  have settled : skipAsides (s.cursor.rest.length - 1 + 2) s = _ := skipAsides_newLine h solid
  rw [← long] at settled
  refine Resting.arrives settled ⟨flow, rfl, rfl, count, rfl, ?_⟩ rfl rfl (by simp [flow]) ?_
  · intro found member
    obtain ⟨here, optional, before⟩ := waiting found member
    exact ⟨here, optional, Nat.le_succ_of_le before⟩
  · intro _ found member
    exact Nat.lt_succ_of_le (waiting found member).2.2

theorem Resting.arrives_spaces (resting : Resting s indent outer tokens)
    (past : ∀ found ∈ s.candidates, found.2.line < s.cursor.line)
    (h : s.cursor.rest = copies k ' ' ++ rest) (solid : Solid rest) :
    Arrives s rest (s.cursor.column + k) s.keyAllowed indent outer tokens := by
  obtain ⟨flow, rfl, rfl, count, rfl, waiting⟩ := resting
  exact Resting.arrives (skipAsides_spaces h solid) ⟨flow, rfl, rfl, count, rfl, waiting⟩ rfl rfl
    rfl fun _ => past

theorem Resting.arrives_end {allowed : Bool} (resting : Resting s indent outer tokens)
    (h : s.cursor.rest = []) : Arrives s [] k allowed indent outer tokens := by
  have none : s.cursor.rest = copies 0 ' ' ++ [] := h
  have there := Resting.arrives (skipAsides_spaces none solid_nil)
    { resting with waiting := resting.waiting } rfl rfl rfl (absurd rfl ·)
  rwa [Arrives, if_pos rfl] at there ⊢

theorem closed_cons (opened : -1 < indent) (next : Int) :
    closed indent (next :: outer) tokens = closed next outer (.blockEnd :: tokens) := by
  rw [closed, closed, unwound_cons opened, List.replicate_succ', List.append_assoc]
  rfl

/-- The innermost collection ends to the left of its column. -/
theorem Arrives.pop {next : Int} {allowed : Bool}
    (h : Arrives s rest k allowed indent (next :: outer) tokens)
    (ends : rest ≠ [] → (k : Int) < indent) (opened : -1 < indent) :
    Arrives s rest k allowed next outer (.blockEnd :: tokens) := by
  unfold Arrives at h ⊢
  split
  · rename_i none
    rwa [if_pos none, closed_cons opened] at h
  · rename_i some
    rw [if_neg some] at h
    obtain ⟨index, line, step⟩ := h
    refine ⟨index, line, step.trans (congrArg readToken ?_)⟩
    rw [unwind_eq rfl, unwind_eq rfl]
    simp only [between, unwound_cons (ends some), List.replicate_succ', List.append_assoc,
      List.singleton_append, List.length_cons]
    congr 1
    omega

/-- Nothing ends at or to the right of the innermost column. -/
theorem Arrives.step_eq {allowed : Bool} (h : Arrives s rest k allowed indent outer tokens)
    (some : rest ≠ []) (inside : indent ≤ k) :
    ∃ index line,
      s.step = (between ⟨rest, index, line, k⟩ allowed indent outer tokens).readToken := by
  rw [Arrives, if_neg some] at h
  obtain ⟨index, line, step⟩ := h
  rw [unwind_self (s := between ⟨rest, index, line, k⟩ allowed indent outer tokens) inside] at step
  exact ⟨index, line, step⟩

end

/-! ## Many tokens -/

/-- Some steps lead from one state to another, none of them over the end. -/
inductive Reaches : Nat → Scan → Scan → Prop where
  | refl (s : Scan) : Reaches 0 s s
  | step {n : Nat} {s s' s'' : Scan} (here : s.step = .ok s')
      (goesOn : s'.tokens.head? ≠ some .streamEnd) (later : Reaches n s' s'') :
      Reaches (n + 1) s s''

variable {m n : Nat} {s s' s'' : Scan}

theorem Reaches.trans (h : Reaches m s s') (h' : Reaches n s' s'') : Reaches (m + n) s s'' := by
  induction h with
  | refl s => rwa [Nat.zero_add]
  | step here goesOn _ ih =>
      rw [Nat.add_right_comm]
      exact .step here goesOn (ih h')

theorem Reaches.run_eq (h : Reaches n s s') (fuel : Nat) : run (n + fuel) s = run fuel s' := by
  induction h with
  | refl s => rw [Nat.zero_add]
  | step here goesOn _ ih =>
      rw [Nat.add_right_comm, run, here, ok_bind, if_neg goesOn, ih]

/-- Some steps lead to a place where the text is refused. -/
def Fails (s : Scan) : Prop := ∃ n s' e, Reaches n s s' ∧ s'.step = .error e

theorem Reaches.fails (h : Reaches n s s') (fails : Fails s') : Fails s := by
  obtain ⟨m, s'', e, later, refused⟩ := fails
  exact ⟨n + m, s'', e, h.trans later, refused⟩

theorem Fails.run_ne_ok (h : Fails s) (fuel : Nat) (tokens : List Token) :
    run fuel s ≠ .ok tokens := by
  obtain ⟨n, s', e, reaches, refused⟩ := h
  induction reaches generalizing fuel with
  | refl s =>
      cases fuel with
      | zero => simp [run]
      | succ fuel => simp [run, refused]
  | step here goesOn _ ih =>
      cases fuel with
      | zero => simp [run]
      | succ fuel =>
          rw [run, here, ok_bind, if_neg goesOn]
          exact ih fuel refused

end Scan

end Recast.Yaml
