import Mathlib.Algebra.Group.Nat.Defs
import Mathlib.Data.List.SplitBy
import Recast.Proofs.Text.Cut
import Recast.Proofs.Yaml.Scanning

/-! # Quoted scalars

A scalar that is written between quotes is read up to its closing quote, whatever follows.
What it is read as need not be what was written: some line breaks are taken for others.
-/

namespace Recast.Yaml

open Text Cursor

/-! ## Blanks and escapes -/

/-- Spaces and line breaks of which a space comes last. -/
structure Margin (u : Text) : Prop where
  loose : ∀ c ∈ u, isLoose c = true
  last : ∀ c, u.getLast? = some c → c = ' '

/-- The start of something that is no blank. -/
def Tight (rest : Text) : Prop := ∀ c, rest.head? = some c → isGap c = false ∧ endsLine c = false

theorem Margin.tail {u : Text} {c : Char} (h : Margin (c :: u)) : Margin u where
  loose d member := h.loose d (List.mem_cons_of_mem _ member)
  last d last := h.last d (by rw [List.getLast?_cons, last]; rfl)

theorem isAtSeparator_of_loose {c : Cursor} {ch : Char} {rest : Text} (h : c.rest = ch :: rest)
    (loose : isLoose ch = true) : c.isAtSeparator = false := by
  have other : ch ≠ '-' ∧ ch ≠ '.' := by
    constructor <;> rintro rfl <;> exact absurd loose (by decide)
  simp [isAtSeparator, isAtMark, after?, List.isPrefixOf?, h, other.1.symm, other.2.symm]

/-- The line breaks among the empty lines. -/
def breaksOf (u : Text) : Text := (u.filter isBreak).map lineOf

/-- Spaces, and then a line break if anything follows. -/
theorem Margin.cases {u : Text} (margin : Margin u) : ∃ k,
    u = copies k ' ' ∨ ∃ br rest, u = copies k ' ' ++ br :: rest ∧ isBreak br = true ∧
      Margin rest ∧ rest ≠ [] := by
  induction u with
  | nil => exact ⟨0, .inl rfl⟩
  | cons c u ih =>
      by_cases space : c = ' '
      · subst space
        obtain ⟨k, rfl | ⟨br, rest, rfl, more⟩⟩ := ih margin.tail
        · exact ⟨k + 1, .inl rfl⟩
        · exact ⟨k + 1, .inr ⟨br, rest, rfl, more⟩⟩
      · refine ⟨0, .inr ⟨c, u, rfl, ?_, margin.tail, ?_⟩⟩
        · simpa [isLoose, space] using margin.loose c List.mem_cons_self
        · rintro rfl
          exact space (margin.last c rfl)

theorem span_gap {k : Nat} {rest : Text} {c : Cursor} (h : c.rest = copies k ' ' ++ rest)
    (stop : ∀ ch, rest.head? = some ch → isGap ch = false) :
    c.span isGap = (copies k ' ', c.advance k) := by
  rw [span_run h (by simp [isGap]) stop, List.length_replicate]

theorem isGap_of_isBreak {ch : Char} (break_ : isBreak ch = true) : isGap ch = false := by
  cases gap : isGap ch with
  | false => rfl
  | true =>
      have either : ch = ' ' ∨ ch = '\t' := by simpa [isGap] using gap
      rcases either with rfl | rfl <;> exact absurd break_ (by decide)

theorem breaksOf_spaces (k : Nat) (u : Text) : breaksOf (copies k ' ' ++ u) = breaksOf u := by
  have none : (copies k ' ').filter isBreak = [] :=
    List.filter_eq_nil_iff.mpr fun c member => by
      rw [List.eq_of_mem_replicate member]
      decide
  rw [breaksOf, List.filter_append, none, List.nil_append, breaksOf]

theorem breaksOf_cons {br : Char} (break_ : isBreak br = true) (u : Text) :
    breaksOf (br :: u) = lineOf br :: breaksOf u := by
  rw [breaksOf, List.filter_cons_of_pos break_]
  rfl

theorem readEmptyLines_margin {u rest : Text} (margin : Margin u) (some : u ≠ []) (tight : Tight rest)
    {fuel : Nat} (enough : u.length < fuel) {c : Cursor} (h : c.rest = u ++ rest) :
    ∃ c', readEmptyLines fuel c = .ok (breaksOf u, c') ∧ Passes u c c' := by
  induction fuel generalizing u c with
  | zero => cases enough
  | succ fuel ih =>
      obtain ⟨ch, tail, rfl⟩ := List.exists_cons_of_ne_nil some
      have apart := isAtSeparator_of_loose h (margin.loose ch List.mem_cons_self)
      rw [readEmptyLines, apart]
      simp only [Bool.false_eq_true, if_false]
      obtain ⟨k, spaces | ⟨br, later, spelled, break_, margin', some'⟩⟩ := margin.cases
      · rw [spaces] at h ⊢
        have there := passes_advance h
        rw [List.length_replicate] at there
        have tight' : Tight (c.advance k).rest := by
          rwa [there.rest_eq h]
        rw [skip, span_gap h fun ch first => (tight ch first).1,
          readBreak?_eq_none fun ch first => (tight' ch first).2]
        refine ⟨_, ?_, there⟩
        rw [← List.append_nil (copies k ' '), breaksOf_spaces]
        rfl
      · rw [spelled, List.append_assoc] at h
        have there := passes_advance h
        rw [List.length_replicate] at there
        have left : (c.advance k).rest = br :: (later ++ rest) := there.rest_eq h
        have short : later.length < fuel := by
          rw [spelled] at enough
          simp only [List.length_append, List.length_cons] at enough
          omega
        obtain ⟨c', read, passes⟩ := ih margin' some' short
          (c := ⟨later ++ rest, (c.advance k).index + 1, (c.advance k).line + 1, 0⟩) rfl
        refine ⟨c', ?_, ?_⟩
        · rw [skip, span_gap h fun ch first => by
            cases first
            exact isGap_of_isBreak break_]
          rw [readBreak?_cons left break_]
          simp only [read, ok_bind]
          rw [spelled, breaksOf_spaces, breaksOf_cons break_]
          rfl
        · rw [spelled]
          exact there.trans ((passes_break left break_).trans passes)

/-- What blanks between quotes are read as. -/
def foldedBlanks (u : Text) : Text :=
  match u.dropWhile isGap with
  | [] => u
  | br :: more => foldBreak (lineOf br) (breaksOf more)

theorem readBlanks_margin {u rest : Text} (margin : Margin u) (tight : Tight rest) {fuel : Nat}
    (enough : u.length ≤ fuel) {c : Cursor} (h : c.rest = u ++ rest) :
    ∃ c', readBlanks fuel c = .ok (foldedBlanks u, c') ∧ Passes u c c' := by
  obtain ⟨k, rfl | ⟨br, later, rfl, break_, margin', some⟩⟩ := margin.cases
  · have there := passes_advance h
    rw [List.length_replicate] at there
    have tight' : Tight (c.advance k).rest := by
      rwa [there.rest_eq h]
    have all : (copies k ' ').dropWhile isGap = [] := by
      simp [isGap]
    refine ⟨_, ?_, there⟩
    rw [readBlanks, span_gap h fun ch first => (tight ch first).1]
    simp only [readBreak?_eq_none fun ch first => (tight' ch first).2, foldedBlanks, all]
  · rw [List.append_assoc] at h
    have there := passes_advance h
    rw [List.length_replicate] at there
    have left : (c.advance k).rest = br :: (later ++ rest) := there.rest_eq h
    have short : later.length < fuel := by
      simp only [List.length_append, List.length_cons] at enough
      omega
    have gap : (copies k ' ' ++ br :: later).dropWhile isGap = br :: later := by
      refine dropWhile_run (by simp [isGap]) ?_
      simpa using isGap_of_isBreak break_
    obtain ⟨c', read, passes⟩ := readEmptyLines_margin margin' some tight short
      (c := ⟨later ++ rest, (c.advance k).index + 1, (c.advance k).line + 1, 0⟩) rfl
    refine ⟨c', ?_, there.trans ((passes_break left break_).trans passes)⟩
    rw [readBlanks, span_gap h fun ch first => by
      cases first
      exact isGap_of_isBreak break_]
    simp only [readBreak?_cons left break_, read, ok_bind, foldedBlanks, gap]
    rfl

/-! ## Between quotes -/

/-- What follows a backslash, as an escape for one character. -/
def IsEscape (e : Text) (ch : Char) : Prop :=
  ∀ (fuel : Nat) (c : Cursor) (rest : Text), c.rest = e ++ rest →
    readEscape fuel c = .ok ([ch], c.advance e.length)

/-- A text between quotes, and what it is read as. -/
inductive Spells : Bool → Text → Text → Prop where
  | nil {double : Bool} : Spells double [] []
  | plain {double : Bool} {c : Char} {w t : Text} (gap : isGap c = false) (line : endsLine c = false)
      (quote : c ≠ if double then '"' else '\'') (escape : double = true → c ≠ '\\')
      (more : Spells double w t) : Spells double (c :: w) (c :: t)
  | blanks {double : Bool} {u w t : Text} (margin : Margin u) (some : u ≠ []) (tight : Tight w)
      (more : Spells double w t) : Spells double (u ++ w) (foldedBlanks u ++ t)
  | quote {w t : Text} (more : Spells false w t) : Spells false ('\'' :: '\'' :: w) ('\'' :: t)
  | escape {e w t : Text} {ch : Char} (known : IsEscape e ch) (more : Spells true w t) :
      Spells true ('\\' :: e ++ w) (ch :: t)
  /-- A line that goes on behind the spaces of the next one. -/
  | fold {k : Nat} {w t : Text} (some : 0 < k) (tight : Tight w) (more : Spells true w t) :
      Spells true ('\\' :: newLine k ++ w) t

/-- The quote around a text. -/
def quoteOf (double : Bool) : Char := if double then '"' else '\''

theorem tight_quote (double : Bool) (rest : Text) : Tight (quoteOf double :: rest) := by
  intro c first
  cases first
  cases double <;> exact ⟨rfl, rfl⟩

theorem Tight.append {w rest : Text} (tight : Tight w) (tight' : Tight rest) : Tight (w ++ rest) := by
  intro c first
  cases w with
  | nil => exact tight' c first
  | cons d w => exact tight c first

theorem margin_spaces (k : Nat) : Margin (copies k ' ') where
  loose c member := by
    rw [List.eq_of_mem_replicate member]
    rfl
  last c last := List.eq_of_mem_replicate (List.mem_of_getLast? last)

theorem breaksOf_copies (k : Nat) : breaksOf (copies k ' ') = [] := by
  have spaces := breaksOf_spaces k []
  rwa [List.append_nil] at spaces

theorem readEscape_fold {k : Nat} {rest : Text} (some : 0 < k) (tight : Tight rest) {fuel : Nat}
    (enough : k < fuel) {c : Cursor} (h : c.rest = newLine k ++ rest) :
    ∃ c', readEscape fuel c = .ok ([], c') ∧ Passes (newLine k) c c' := by
  have margin := margin_spaces k
  have left : c.rest = '\n' :: (copies k ' ' ++ rest) := h
  obtain ⟨c', read, passes⟩ := readEmptyLines_margin margin
    (List.ne_nil_of_length_pos (by rwa [List.length_replicate])) tight
    (by rwa [List.length_replicate]) (c := ⟨copies k ' ' ++ rest, c.index + 1, c.line + 1, 0⟩) rfl
  refine ⟨c', ?_, (passes_break left rfl).trans passes⟩
  rw [breaksOf_copies] at read
  rw [readEscape, left]
  simp [letterEscape?, escapeWidth?, List.lookup_cons, readBreak?_lineFeed left, read]

/-- What is read between quotes, by the character that the cursor stands on. -/
theorem readQuoted_cons {double : Bool} {fuel : Nat} {c : Cursor} {ch : Char} {rest : Text}
    (at_ : c.rest = ch :: rest) :
    readQuoted double (fuel + 1) c =
      let andMore (piece : Text) (c : Cursor) : Except Error (Text × Cursor) := do
        let (more, c) ← readQuoted double fuel c
        return (piece ++ more, c)
      if isGap ch || endsLine ch then do
        let (piece, c) ← readBlanks fuel c
        andMore piece c
      else if double then
        if ch = '"' then .ok ([], c.advance 1)
        else if ch = '\\' then do
          let (piece, c) ← readEscape fuel (c.advance 1)
          andMore piece c
        else andMore [ch] (c.advance 1)
      else if ch = '\'' then
        if rest.head? = some '\'' then andMore [ch] (c.advance 2) else .ok ([], c.advance 1)
      else andMore [ch] (c.advance 1) := by
  rw [readQuoted, at_]

/-- One round of reading between quotes: it passes over `w` and puts `piece` in front of what
    the rounds after it give. -/
structure Round (double : Bool) (fuel : Nat) (w piece : Text) (c next : Cursor) : Prop where
  reads : readQuoted double (fuel + 1) c = (do
    let (more, c) ← readQuoted double fuel next
    return (piece ++ more, c))
  passes : Passes w c next

theorem Round.followed {double : Bool} {fuel : Nat} {w w' piece t : Text} {c next : Cursor}
    (round : Round double fuel w piece c next)
    (later : ∃ c', readQuoted double fuel next = .ok (t, c') ∧ Passes w' next c') :
    ∃ c', readQuoted double (fuel + 1) c = .ok (piece ++ t, c') ∧ Passes (w ++ w') c c' := by
  obtain ⟨c', read, passes⟩ := later
  exact ⟨c', by rw [round.reads, read]; rfl, round.passes.trans passes⟩

section

variable {double : Bool} {fuel : Nat} {rest : Text} {c : Cursor}

theorem round_plain {ch : Char} (gap : isGap ch = false) (line : endsLine ch = false)
    (quote : ch ≠ if double then '"' else '\'') (escape : double = true → ch ≠ '\\')
    (at_ : c.rest = ch :: rest) : Round double fuel [ch] [ch] c (c.advance 1) where
  reads := by
    cases double with
    | true =>
        simp only [if_true] at quote
        simp [readQuoted_cons at_, gap, line, quote, escape rfl]
    | false =>
        simp only [Bool.false_eq_true, if_false] at quote
        simp [readQuoted_cons at_, gap, line, quote]
  passes := passes_advance at_

theorem exists_round_blanks {u : Text} (margin : Margin u) (some : u ≠ []) (tight : Tight rest)
    (enough : u.length ≤ fuel) (at_ : c.rest = u ++ rest) :
    ∃ next, Round double fuel u (foldedBlanks u) c next := by
  obtain ⟨ch, u, rfl⟩ := List.exists_cons_of_ne_nil some
  have loose := isGap_or_endsLine (margin.loose ch List.mem_cons_self)
  obtain ⟨next, blanks, there⟩ := readBlanks_margin margin tight enough at_
  refine ⟨next, ?_, there⟩
  simp [readQuoted_cons at_, loose, blanks]

theorem round_quote (at_ : c.rest = '\'' :: '\'' :: rest) :
    Round false fuel ['\'', '\''] ['\''] c (c.advance 2) where
  reads := by simp [readQuoted_cons at_, isGap, endsLine, isBreak]
  passes := passes_advance at_

theorem round_escape {e : Text} {ch : Char} (known : IsEscape e ch)
    (at_ : c.rest = '\\' :: e ++ rest) :
    Round true fuel ('\\' :: e) [ch] c ((c.advance 1).advance e.length) := by
  have first : Passes ['\\'] c (c.advance 1) := passes_advance at_
  have left : (c.advance 1).rest = e ++ rest := first.rest_eq at_
  refine ⟨?_, first.trans (passes_advance left)⟩
  simp [readQuoted_cons at_, isGap, endsLine, isBreak, known fuel (c.advance 1) rest left]

theorem exists_round_fold {k : Nat} (some : 0 < k) (tight : Tight rest) (enough : k < fuel)
    (at_ : c.rest = '\\' :: newLine k ++ rest) :
    ∃ next, Round true fuel ('\\' :: newLine k) [] c next := by
  have first : Passes ['\\'] c (c.advance 1) := passes_advance at_
  have left : (c.advance 1).rest = newLine k ++ rest := first.rest_eq at_
  obtain ⟨next, escaped, second⟩ := readEscape_fold some tight enough left
  refine ⟨next, ?_, first.trans second⟩
  simp [readQuoted_cons at_, isGap, endsLine, isBreak, escaped]

theorem readQuoted_closing (apart : double = false → rest.head? ≠ some '\'')
    (at_ : c.rest = quoteOf double :: rest) :
    readQuoted double (fuel + 1) c = .ok ([], c.advance 1) := by
  cases double with
  | true => simp [readQuoted_cons at_, quoteOf, isGap, endsLine, isBreak]
  | false => simp [readQuoted_cons at_, quoteOf, isGap, endsLine, isBreak, apart rfl]

end

/-- What is spelled between quotes is read up to the closing one. -/
theorem readQuoted_spells {double : Bool} {w t : Text} (h : Spells double w t) {rest : Text}
    (apart : double = false → rest.head? ≠ some '\'') {fuel : Nat} (enough : w.length < fuel)
    {c : Cursor} (at_ : c.rest = w ++ quoteOf double :: rest) :
    ∃ c', readQuoted double fuel c = .ok (t, c') ∧ Passes (w ++ [quoteOf double]) c c' := by
  induction h generalizing fuel c with
  | nil =>
      obtain ⟨fuel, rfl⟩ := Nat.exists_eq_succ_of_ne_zero (Nat.ne_of_gt enough)
      exact ⟨_, readQuoted_closing apart at_, passes_advance (w := [_]) at_⟩
  | plain gap line quote escape more ih =>
      obtain ⟨fuel, rfl⟩ := Nat.exists_eq_succ_of_ne_zero (Nat.ne_of_gt (Nat.zero_lt_of_lt enough))
      have round : Round _ fuel _ _ c _ := round_plain gap line quote escape at_
      exact round.followed (ih apart (Nat.lt_of_succ_lt_succ enough) (round.passes.rest_eq at_))
  | @blanks double u w t margin some tight more ih =>
      obtain ⟨fuel, rfl⟩ := Nat.exists_eq_succ_of_ne_zero (Nat.ne_of_gt (Nat.zero_lt_of_lt enough))
      have long := List.length_pos_iff.mpr some
      rw [List.length_append] at enough
      rw [List.append_assoc] at at_ ⊢
      obtain ⟨next, round⟩ : ∃ next, Round double fuel u (foldedBlanks u) c next :=
        exists_round_blanks margin some (tight.append (tight_quote double rest)) (by omega) at_
      exact round.followed (ih apart (by omega) (round.passes.rest_eq at_))
  | quote more ih =>
      obtain ⟨fuel, rfl⟩ := Nat.exists_eq_succ_of_ne_zero (Nat.ne_of_gt (Nat.zero_lt_of_lt enough))
      simp only [List.length_cons] at enough
      have round : Round _ fuel _ _ c _ := round_quote at_
      exact round.followed (ih apart (by omega) (round.passes.rest_eq at_))
  | @escape e w t ch known more ih =>
      obtain ⟨fuel, rfl⟩ := Nat.exists_eq_succ_of_ne_zero (Nat.ne_of_gt (Nat.zero_lt_of_lt enough))
      simp only [List.length_append, List.length_cons] at enough
      rw [List.append_assoc] at at_ ⊢
      have round : Round _ fuel _ _ c _ := round_escape known at_
      exact round.followed (ih apart (by omega) (round.passes.rest_eq at_))
  | @fold k w t some tight more ih =>
      obtain ⟨fuel, rfl⟩ := Nat.exists_eq_succ_of_ne_zero (Nat.ne_of_gt (Nat.zero_lt_of_lt enough))
      simp only [newLine, List.length_append, List.length_cons, List.length_replicate] at enough
      rw [List.append_assoc] at at_ ⊢
      obtain ⟨next, round⟩ : ∃ next, Round true fuel ('\\' :: newLine k) [] c next :=
        exists_round_fold some (tight.append (tight_quote true rest)) (by omega) at_
      exact round.followed (ih apart (by omega) (round.passes.rest_eq at_))

/-! ## Escapes as they are written -/

/-- A hexadecimal digit in upper case. -/
def upperDigit (d : Nat) : Char := (Nat.digitChar d).toUpper

theorem hexValue?_upperDigit : ∀ d < 16, Json.hexValue? (upperDigit d) = some d := by
  decide

/-- The value of hexadecimal digits. -/
def valueOf (ds : List Nat) : Nat := ds.foldl (fun n d => n * 16 + d) 0

theorem exists_digits (n : Nat) : ∃ ds, (Nat.toDigits 16 n).map Char.toUpper = ds.map upperDigit ∧
    (∀ d ∈ ds, d < 16) ∧ valueOf ds = n := by
  induction n using Nat.strongRecOn with
  | ind n ih =>
      by_cases small : n < 16
      · refine ⟨[n], ?_, by simpa using small, by simp [valueOf]⟩
        rw [Nat.toDigits_of_lt_base small]
        rfl
      · obtain ⟨ds, same, all, value⟩ := ih (n / 16) (by omega)
        refine ⟨ds ++ [n % 16], ?_, ?_, ?_⟩
        · rw [Nat.toDigits_of_base_le (by decide) (Nat.not_lt.mp small), List.map_append, same,
            List.map_append]
          rfl
        · refine List.forall_mem_append.mpr ⟨all, ?_⟩
          simpa using Nat.mod_lt n (by decide : 0 < 16)
        · rw [valueOf, List.foldl_append]
          rw [valueOf] at value
          rw [value]
          exact Nat.div_add_mod' n 16

theorem exists_upperHex {width n : Nat} (some : 0 < width) (small : n < 16 ^ width) :
    ∃ ds, upperHex width n = ds.map upperDigit ∧ (∀ d ∈ ds, d < 16) ∧ valueOf ds = n ∧
      ds.length = width := by
  obtain ⟨ds, same, all, value⟩ := exists_digits n
  have long : ds.length ≤ width := by
    have count := (Nat.length_toDigits_le_iff (by decide) some).mpr small
    rwa [← List.length_map (f := Char.toUpper), same, List.length_map] at count
  have count : (Nat.toDigits 16 n).length = ds.length := by
    rw [← List.length_map (f := Char.toUpper), same, List.length_map]
  refine ⟨List.replicate (width - ds.length) 0 ++ ds, ?_, ?_, ?_, ?_⟩
  · rw [upperHex, Json.hexDigits, List.map_append, same, List.map_append, count]
    simp only [copies, List.map_replicate]
    rfl
  · refine List.forall_mem_append.mpr ⟨fun d member => ?_, all⟩
    rw [List.eq_of_mem_replicate member]
    decide
  · have zeros (k : Nat) : valueOf (List.replicate k 0) = 0 := by
      induction k with
      | zero => rfl
      | succ k ih => exact ih
    rw [valueOf, List.foldl_append]
    have none := zeros (width - ds.length)
    rw [valueOf] at none value
    rw [none, value]
  · rw [List.length_append, List.length_replicate]
    omega

theorem mapM_hexValue? {ds : List Nat} (all : ∀ d ∈ ds, d < 16) :
    (ds.map upperDigit).mapM Json.hexValue? = some ds := by
  induction ds with
  | nil => rfl
  | cons d ds ih =>
      obtain ⟨small, later⟩ := List.forall_mem_cons.mp all
      simp only [List.map_cons, List.mapM_cons, hexValue?_upperDigit d small, ih later]
      rfl

theorem isEscape_hex {letter : Char} {width n : Nat} (wide : escapeWidth? letter = some width)
    (other : letterEscape? letter = none) (some : 0 < width) (small : n < 16 ^ width)
    (valid : n < 0x110000) : IsEscape (letter :: upperHex width n) (Json.charOfCode n) := by
  intro fuel c rest h
  obtain ⟨ds, same, all, value, long⟩ := exists_upperHex some small
  have taken : (upperHex width n ++ rest).take width = ds.map upperDigit := by
    rw [same, List.take_append_of_le_length (by simp [long])]
    exact List.take_of_length_le (by simp [long])
  rw [valueOf] at value
  rw [readEscape, h]
  simp only [List.cons_append, other, wide, taken, mapM_hexValue? all, long, if_true, value]
  rw [characterOf, if_neg (Nat.not_le.mpr valid), ok_bind, pure_eq_ok, same, List.length_cons,
    List.length_map, long]

theorem isEscape_letter {letter ch : Char} (known : letterEscape? letter = some ch) :
    IsEscape [letter] ch := by
  intro fuel c rest h
  rw [readEscape, h]
  simp [known]

/-- Every escape that is written is one that is read. -/
theorem exists_escape (c : Char) : ∃ e ch, escape c = '\\' :: e ∧ IsEscape e ch := by
  unfold escape
  cases found : letterOf? c with
  | some letter =>
      obtain ⟨before, after, spelled, -⟩ := List.lookup_eq_some_iff.mp found
      have all : ∀ pair ∈ before ++ (c, letter) :: after, (letterEscape? pair.2).isSome := by
        rw [← spelled]
        decide
      obtain ⟨ch, known⟩ := Option.isSome_iff_exists.mp
        (all _ (List.mem_append_right before List.mem_cons_self))
      exact ⟨[letter], ch, rfl, isEscape_letter known⟩
  | none =>
      have valid : c.toNat < 0x110000 := by
        rcases c.valid with low | ⟨-, high⟩
        · exact Nat.lt_trans low (by decide)
        · exact high
      by_cases one : c.toNat ≤ 0xFF
      · simp only [if_pos one]
        exact ⟨_, _, rfl, isEscape_hex rfl rfl (by decide) (by omega) valid⟩
      · by_cases two : c.toNat ≤ 0xFFFF
        · simp only [if_neg one, if_pos two]
          exact ⟨_, _, rfl, isEscape_hex rfl rfl (by decide) (by omega) valid⟩
        · simp only [if_neg one, if_neg two]
          exact ⟨_, _, rfl, isEscape_hex rfl rfl (by decide) (by omega) valid⟩

/-! ## Texts as they are written -/

theorem margin_nil : Margin [] := ⟨nofun, nofun⟩

theorem Margin.append {u v : Text} (h : Margin u) (loose : ∀ c ∈ v, isLoose c = true) {k : Nat}
    (some : 0 < k) : Margin (u ++ (v ++ copies k ' ')) where
  loose := by
    refine List.forall_mem_append.mpr ⟨h.loose, List.forall_mem_append.mpr ⟨loose, ?_⟩⟩
    exact (margin_spaces k).loose
  last c last := by
    have spaces : copies k ' ' ≠ [] := List.ne_nil_of_length_pos (by rwa [List.length_replicate])
    rw [← List.append_assoc, List.getLast?_append_of_ne_nil _ spaces] at last
    exact (margin_spaces k).last c last

theorem Margin.append_space {u : Text} (h : Margin u) : Margin (u ++ [' ']) :=
  h.append (v := []) nofun Nat.one_pos

theorem Margin.append_newLine {u : Text} (h : Margin u) {k : Nat} (some : 0 < k) :
    Margin (u ++ newLine k) :=
  h.append (v := ['\n']) (by decide) some

/-- Blanks may come in front of what is none. -/
theorem Spells.behind {double : Bool} {w t : Text} (h : Spells double w t) (tight : Tight w) {u : Text}
    (margin : Margin u) : ∃ t', Spells double (u ++ w) t' := by
  by_cases none : u = []
  · subst none
    exact ⟨t, h⟩
  · exact ⟨_, .blanks margin none tight h⟩

/-- A character that stands for itself and is no blank. -/
theorem tight_of_not_special {c : Char} (plain : isSpecial c = false) (solid : isLoose c = false) :
    isGap c = false ∧ endsLine c = false := by
  have tab : c ≠ '\t' := by
    rintro rfl
    exact absurd plain (by decide)
  have carriage : c ≠ '\r' := by
    rintro rfl
    exact absurd plain (by decide)
  simp only [isLoose, Bool.or_eq_false_iff, beq_eq_false_iff_ne] at solid
  simp [isGap, endsLine, tab, carriage, solid]

/-! ### Single quotes -/

theorem replace_quote (c : Char) (x : Text) :
    replace "'" "''" (c :: x) =
      if c = '\'' then '\'' :: '\'' :: replace "'" "''" x else c :: replace "'" "''" x := by
  split
  · rename_i same
    subst same
    exact replace_append (List.cons_ne_nil _ _) _ x
  · rename_i other
    exact replace_cons (fun start => other (List.cons_prefix_cons.mp start).1.symm) _

theorem spells_replace {x y : Text} (single : ∀ c ∈ x, isSpecial c = false ∧ isBreak c = false)
    (later : ∀ u, Margin u → ∃ t, Spells false (u ++ y) t) {u : Text} (margin : Margin u) :
    ∃ t, Spells false (u ++ (replace "'" "''" x ++ y)) t := by
  induction x generalizing u with
  | nil => exact later u margin
  | cons c x ih =>
      obtain ⟨⟨special, line⟩, others⟩ := List.forall_mem_cons.mp single
      rw [replace_quote]
      split
      · obtain ⟨t, spells⟩ := ih others margin_nil
        exact Spells.behind (.quote spells) (tight_quote false _) margin
      · rename_i other
        by_cases space : c = ' '
        · subst space
          have spells := ih others margin.append_space
          rwa [List.append_assoc] at spells
        · obtain ⟨t, spells⟩ := ih others margin_nil
          have solid : isLoose c = false := by simp [isLoose, space, line]
          obtain ⟨gap, ends⟩ := tight_of_not_special special solid
          have here : Spells false (c :: (replace "'" "''" x ++ y)) (c :: t) :=
            .plain gap ends other (fun double => absurd double Bool.false_ne_true) spells
          refine here.behind ?_ margin
          intro d first
          cases first
          exact ⟨gap, ends⟩

theorem isLoose_breakRun {run : Text} (breaks : ∀ c ∈ run, isBreak c = true) :
    ∀ c ∈ breakRun run, isLoose c = true := by
  have all : ∀ c ∈ run, isLoose c = true := fun c member => by
    simp [isLoose, breaks c member]
  unfold breakRun
  split
  · exact List.forall_mem_cons.mpr ⟨rfl, all⟩
  · exact all

theorem spells_singleRuns {fold? : Option Nat} (deep : ∀ indent, fold? = some indent → 0 < indent)
    {rs : List Text} (plain : ∀ run ∈ rs, ∀ c ∈ run, isSpecial c = false)
    (alike : ∀ run ∈ rs, run.any isBreak = true → fold?.isSome ∧ ∀ c ∈ run, isBreak c = true)
    (column : Nat) (atStart broken : Bool) {u : Text} (margin : Margin u) :
    ∃ t, Spells false (u ++ singleRuns fold? column atStart broken rs) t := by
  induction rs generalizing column atStart broken u with
  | nil => exact Spells.behind .nil nofun margin
  | cons run rs ih =>
      obtain ⟨plain', plain⟩ := List.forall_mem_cons.mp plain
      obtain ⟨alike', alike⟩ := List.forall_mem_cons.mp alike
      have later := ih plain alike
      rw [singleRuns]
      split
      · rename_i line
        obtain ⟨known, breaks⟩ := alike' line
        obtain ⟨indent, rfl⟩ := Option.isSome_iff_exists.mp known
        have spells := later indent false true
          (margin.append (isLoose_breakRun breaks) (deep indent rfl))
        simpa using spells
      · rename_i line
        split
        · rename_i folds
          simp only [Bool.and_eq_true] at folds
          obtain ⟨indent, rfl⟩ := Option.isSome_iff_exists.mp folds.1.1.1.1
          split
          · by_cases none : indent - column = 0
            · have spells := later indent false true margin
              simpa [none] using spells
            · have spells := later indent false true
                (margin.append (v := []) nofun (Nat.pos_of_ne_zero none))
              simpa using spells
          · have spells := later indent false true (margin.append_newLine (deep indent rfl))
            simpa using spells
        · have single : ∀ c ∈ run, isSpecial c = false ∧ isBreak c = false := fun c member =>
            ⟨plain' c member, by simpa using List.any_eq_false.mp (by simpa using line) c member⟩
          exact spells_replace single (fun u margin => later _ _ _ margin) margin

/-! ### Double quotes -/

/-- A character that is written as it is. -/
theorem plain_of_not_escaped {c : Char} (h : isEscaped c = false) :
    isSpecial c = false ∧ isBreak c = false ∧ c ≠ '"' ∧ c ≠ '\\' := by
  simp only [isEscaped, Bool.or_eq_false_iff, beq_eq_false_iff_ne] at h
  exact ⟨h.1.1.1.1, h.1.1.1.2, h.1.1.2, h.1.2⟩

theorem tight_of_not_escaped {c : Char} (h : isEscaped c = false) (space : c ≠ ' ') :
    isGap c = false ∧ endsLine c = false := by
  obtain ⟨special, line, -, -⟩ := plain_of_not_escaped h
  exact tight_of_not_special special (by simp [isLoose, space, line])

theorem spells_plain {x y : Text} (plain : ∀ c ∈ x, isEscaped c = false)
    (later : ∀ u, Margin u → ∃ t, Spells true (u ++ y) t) {u : Text} (margin : Margin u) :
    ∃ t, Spells true (u ++ (x ++ y)) t := by
  induction x generalizing u with
  | nil => exact later u margin
  | cons c x ih =>
      obtain ⟨here, others⟩ := List.forall_mem_cons.mp plain
      by_cases space : c = ' '
      · subst space
        have spells := ih others margin.append_space
        rwa [List.append_assoc] at spells
      · obtain ⟨t, spells⟩ := ih others margin_nil
        obtain ⟨-, -, quote, escape⟩ := plain_of_not_escaped here
        obtain ⟨gap, ends⟩ := tight_of_not_escaped here space
        have first : Spells true (c :: (x ++ y)) (c :: t) :=
          .plain gap ends quote (fun _ => escape) spells
        refine first.behind ?_ margin
        intro d first
        cases first
        exact ⟨gap, ends⟩

/-- A backslash saves a space that comes next. -/
theorem spells_saved {x y : Text} (plain : ∀ c ∈ x, isEscaped c = false) (space : x.head? = some ' ')
    (later : ∀ u, Margin u → ∃ t, Spells true (u ++ y) t) :
    ∃ t, Spells true ('\\' :: (x ++ y)) t := by
  cases x with
  | nil => cases space
  | cons c x =>
      cases space
      obtain ⟨t, spells⟩ := spells_plain (List.forall_mem_cons.mp plain).2 later margin_nil
      exact ⟨_, .escape (e := [' ']) (isEscape_letter rfl) spells⟩

theorem tight_backslash (t : Text) : Tight ('\\' :: t) := by
  intro c first
  cases first
  exact ⟨rfl, rfl⟩

/-- What becomes of one character: it is escaped, and the line may be folded behind it; the line is
    folded in front of it; or it waits with the others. -/
theorem doubleText_cons (fold? : Option Nat) (atStart : Bool) (word : Text) (column : Nat) (c : Char)
    (t : Text) :
    (isEscaped c = true ∧ ∃ column', doubleText fold? atStart word column (c :: t) =
      word.reverse ++ (escape c ++ doubleText fold? false [] column' t)) ∨
    (isEscaped c = true ∧ ∃ indent column', fold? = some indent ∧
      doubleText fold? atStart word column (c :: t) = word.reverse ++ (escape c
        ++ (foldedLine indent (t.head? == some ' ') ++ doubleText fold? false [] column' t))) ∨
    (isEscaped c = false ∧ ∃ indent column', fold? = some indent ∧
      doubleText fold? atStart word column (c :: t) =
        word.reverse ++ (foldedLine indent (c == ' ') ++ doubleText fold? false [c] column' t)) ∨
    (isEscaped c = false ∧ doubleText fold? atStart word column (c :: t) =
      doubleText fold? false (c :: word) column t) := by
  cases escaped : isEscaped c with
  | true =>
      cases fold? with
      | none => exact .inl ⟨rfl, _, by simp [doubleText, escaped]; rfl⟩
      | some indent =>
          by_cases folds : (!atStart && !t.isEmpty
              && width + 1 < column + word.length + (escape c).length) = true
          · refine .inr (.inl ⟨rfl, indent, indent + (t.head? == some ' ').toNat, rfl, ?_⟩)
            simp only [doubleText, escaped, if_true, folds, List.append_assoc]
          · refine .inl ⟨rfl, column + word.length + (escape c).length, ?_⟩
            simp only [doubleText, escaped, if_true, folds, List.append_assoc]
            rfl
  | false =>
      cases fold? with
      | none => exact .inr (.inr (.inr ⟨rfl, by simp [doubleText, escaped]⟩))
      | some indent =>
          by_cases folds : (!atStart && !t.isEmpty && (c == ' ' || word.isEmpty)
              && width < column + word.length) = true
          · refine .inr (.inr (.inl ⟨rfl, indent, indent + (c == ' ').toNat, rfl, ?_⟩))
            simp only [doubleText, escaped, Bool.false_eq_true, if_false, folds, if_true,
              List.append_assoc]
          · refine .inr (.inr (.inr ⟨rfl, ?_⟩))
            simp only [doubleText, escaped, Bool.false_eq_true, if_false, folds]

theorem tight_waiting {word y : Text} (plain : ∀ c ∈ word, isEscaped c = false) (tight : Tight y)
    (space : word.reverse.head? ≠ some ' ') : Tight (word.reverse ++ y) := by
  intro c first
  cases waiting : word.reverse with
  | nil =>
      rw [waiting] at first
      exact tight c first
  | cons d more =>
      rw [waiting] at first space
      cases first
      have member : c ∈ word := List.mem_reverse.mp (waiting ▸ List.mem_cons_self)
      exact tight_of_not_escaped (plain c member) fun same => space (congrArg some same)

/-- A text is written from a first character that is no blank, unless it starts with a space. -/
theorem tight_doubleText {fold? : Option Nat} (t : Text) (atStart : Bool) {word : Text} (column : Nat)
    (plain : ∀ c ∈ word, isEscaped c = false) (space : (word.reverse ++ t).head? ≠ some ' ') :
    Tight (doubleText fold? atStart word column t) := by
  induction t generalizing atStart word column with
  | nil =>
      rw [doubleText, ← List.append_nil word.reverse]
      exact tight_waiting plain nofun (by rwa [List.append_nil] at space)
  | cons c t ih =>
      have space' : word.reverse.head? ≠ some ' ' := by
        intro same
        exact space (by rw [List.head?_append, same]; rfl)
      rcases doubleText_cons fold? atStart word column c t with
        ⟨-, column', same⟩ | ⟨-, indent, column', -, same⟩ | ⟨-, indent, column', -, same⟩
          | ⟨here, same⟩
      · obtain ⟨e, ch, spelled, -⟩ := exists_escape c
        rw [same, spelled]
        exact tight_waiting plain (tight_backslash _) space'
      · obtain ⟨e, ch, spelled, -⟩ := exists_escape c
        rw [same, spelled]
        exact tight_waiting plain (tight_backslash _) space'
      · rw [same]
        exact tight_waiting plain (tight_backslash _) space'
      · rw [same]
        refine ih false column (List.forall_mem_cons.mpr ⟨here, plain⟩) ?_
        rwa [List.reverse_cons, List.append_assoc]

/-- A folded line can be read when what follows is no blank or is saved from being one. -/
theorem spells_foldedLine {indent : Nat} (some : 0 < indent) {spaceNext : Bool} {y : Text}
    (saved : spaceNext = true → ∃ read, Spells true ('\\' :: y) read)
    (tight : spaceNext = false → Tight y ∧ ∃ read, Spells true y read) :
    ∃ read, Spells true (foldedLine indent spaceNext ++ y) read := by
  cases spaceNext with
  | true =>
      obtain ⟨read, spells⟩ := saved rfl
      have folded := Spells.fold some (tight_backslash y) spells
      exact ⟨read, by simpa [foldedLine] using folded⟩
  | false =>
      obtain ⟨solid, read, spells⟩ := tight rfl
      have folded := Spells.fold some solid spells
      exact ⟨read, by simpa [foldedLine] using folded⟩

/-- Behind a backslash the one of a folded line is escaped, so that the line breaks. -/
theorem spells_escaped_foldedLine {indent : Nat} (some : 0 < indent) {y : Text}
    (saved : ∃ read, Spells true ('\\' :: y) read) :
    ∃ read, Spells true ('\\' :: (foldedLine indent true ++ y)) read := by
  obtain ⟨read, spells⟩ := saved
  obtain ⟨read', broken⟩ := spells.behind (tight_backslash y) (margin_nil.append_newLine some)
  have escaped := Spells.escape (e := ['\\']) (isEscape_letter rfl) broken
  exact ⟨_, by simpa [foldedLine] using escaped⟩

/-- A text that is written for `t` can be read between double quotes, also behind blanks, and
    behind a backslash that saves its first space. -/
structure Survives (t y : Text) : Prop where
  behind : ∀ u, Margin u → ∃ read, Spells true (u ++ y) read
  saved : t.head? = some ' ' → ∃ read, Spells true ('\\' :: y) read

/-- The word that waits comes first; without one a space to be saved comes next. -/
theorem Survives.waiting {word t y : Text} (h : Survives t y)
    (plain : ∀ c ∈ word, isEscaped c = false) :
    Survives (word.reverse ++ t) (word.reverse ++ y) := by
  have plain' : ∀ c ∈ word.reverse, isEscaped c = false := fun c member =>
    plain c (List.mem_reverse.mp member)
  refine ⟨fun u margin => spells_plain plain' h.behind margin, fun space => ?_⟩
  by_cases none : word = []
  · subst none
    exact h.saved space
  · refine spells_saved plain' ?_ h.behind
    rwa [List.head?_append_of_ne_nil _ (by simpa using none)] at space

/-- An escape is no blank. -/
theorem survives_escape {t y read : Text} {c : Char} (escaped : isEscaped c = true)
    (spells : Spells true y read) : Survives (c :: t) (escape c ++ y) := by
  obtain ⟨e, ch, spelled, known⟩ := exists_escape c
  rw [spelled]
  refine ⟨fun u margin => ?_, fun space => ?_⟩
  · exact (Spells.escape known spells).behind (tight_backslash _) margin
  · cases space
    cases escaped

/-- A line may be folded in front of what is written for the rest. -/
theorem exists_spells_folded {fold? : Option Nat} {indent : Nat} (some : 0 < indent) {word t : Text}
    {column : Nat} (plain : ∀ c ∈ word, isEscaped c = false)
    (h : Survives (word.reverse ++ t) (doubleText fold? false word column t)) :
    ∃ read, Spells true (foldedLine indent ((word.reverse ++ t).head? == Option.some ' ')
      ++ doubleText fold? false word column t) read := by
  refine spells_foldedLine some (fun space => ?_) fun other => ⟨?_, ?_⟩
  · exact h.saved (by simpa using space)
  · exact tight_doubleText t false column plain (by simpa using other)
  · exact h.behind [] margin_nil

theorem survives_doubleText {fold? : Option Nat}
    (deep : ∀ indent, fold? = some indent → 0 < indent) (t : Text) (atStart : Bool) {word : Text}
    (column : Nat) (plain : ∀ c ∈ word, isEscaped c = false) :
    Survives (word.reverse ++ t) (doubleText fold? atStart word column t) := by
  induction t generalizing atStart word column with
  | nil =>
      have empty : Survives [] [] := ⟨fun u margin => Spells.behind .nil nofun margin, nofun⟩
      simpa only [doubleText, List.append_nil] using empty.waiting plain
  | cons c t ih =>
      have none : ∀ c ∈ ([] : Text), isEscaped c = false := List.forall_mem_nil _
      rcases doubleText_cons fold? atStart word column c t with
        ⟨escaped, column', same⟩ | ⟨escaped, indent, column', known, same⟩
          | ⟨bare, indent, column', known, same⟩ | ⟨bare, same⟩
      · obtain ⟨read, spells⟩ := (ih false column' none).behind [] margin_nil
        rw [same]
        exact (survives_escape escaped spells).waiting plain
      · obtain ⟨read, spells⟩ := exists_spells_folded (deep indent known) none (ih false column' none)
        rw [same]
        exact (survives_escape escaped spells).waiting plain
      · have alone : ∀ d ∈ [c], isEscaped d = false := by simpa using bare
        have later := ih false column' alone
        obtain ⟨read, spells⟩ := exists_spells_folded (deep indent known) alone later
        rw [same]
        refine Survives.waiting ⟨fun u margin => ?_, fun space => ?_⟩ plain
        · exact spells.behind (tight_backslash _) margin
        · cases space
          exact spells_escaped_foldedLine (deep indent known) (later.saved rfl)
      · rw [same]
        have both := ih false column (List.forall_mem_cons.mpr ⟨bare, plain⟩)
        rwa [List.reverse_cons, List.append_assoc] at both

/-! ### Whole scalars -/

/-- A run with one line break holds nothing else. -/
theorem all_isBreak_of_any {t run : Text} (member : run ∈ runs t) (line : run.any isBreak = true) :
    ∀ c ∈ run, isBreak c = true := by
  have alike := List.isChain_of_mem_splitBy member
  clear member
  induction run with
  | nil => exact nofun
  | cons c run ih =>
      cases run with
      | nil => simpa using line
      | cons d run =>
          obtain ⟨here, later⟩ := List.isChain_cons_cons.mp alike
          simp only [Bool.and_eq_true, beq_iff_eq] at here
          have rest : (d :: run).any isBreak = true := by
            simp only [List.any_cons, here.2] at line ⊢
            simpa using line
          have all := ih rest later
          refine List.forall_mem_cons.mpr ⟨?_, all⟩
          rw [here.2]
          exact all d List.mem_cons_self

theorem mem_of_mem_runs {t run : Text} (member : run ∈ runs t) {c : Char} (inside : c ∈ run) :
    c ∈ t := by
  have whole : c ∈ (runs t).flatten := List.mem_flatten.mpr ⟨run, member, inside⟩
  rwa [runs, List.flatten_splitBy] at whole

/-- A text that is not written plainly is written between quotes and can be read there. -/
theorem exists_spells_of_quoted {t : Text} (quoted : Style.ofText t ≠ .plain) {fold? : Option Nat}
    (deep : ∀ indent, fold? = some indent → 0 < indent)
    (single : isMultiline t = true → fold?.isSome) (column : Nat) :
    ∃ double w read, (Style.ofText t).write fold? column t =
      quoteOf double :: (w ++ [quoteOf double]) ∧ Spells double w read := by
  unfold Style.ofText at quoted ⊢
  split
  · rename_i plain
    rw [if_pos plain] at quoted
    exact absurd rfl quoted
  · split
    · rename_i allowed
      simp only [allowsSingle, Bool.not_eq_true', Bool.or_eq_false_iff] at allowed
      have special := List.any_eq_false.mp allowed.1.1
      obtain ⟨read, spells⟩ := spells_singleRuns deep
        (fun run member c inside => by simpa using special c (mem_of_mem_runs member inside))
        (fun run member line => by
          refine ⟨single ?_, all_isBreak_of_any member line⟩
          obtain ⟨c, inside, break_⟩ := List.any_eq_true.mp line
          exact List.any_eq_true.mpr ⟨c, mem_of_mem_runs member inside, break_⟩)
        (column + 1) true false margin_nil
      exact ⟨false, _, read, rfl, spells⟩
    · obtain ⟨read, spells⟩ :=
        (survives_doubleText deep t true (column + 1) (List.forall_mem_nil _)).behind [] margin_nil
      exact ⟨true, _, read, rfl, spells⟩

/-! ### On one line -/

theorem endsLine_eq_false {c : Char} (plain : isSpecial c = false) (single : isBreak c = false) :
    endsLine c = false := by
  have carriage : c ≠ '\r' := by
    rintro rfl
    exact absurd plain (by decide)
  simp [endsLine, carriage, single]

theorem flat_replace {x : Text} (flat : ∀ c ∈ x, endsLine c = false) :
    ∀ c ∈ replace "'" "''" x, endsLine c = false := by
  induction x with
  | nil => exact List.forall_mem_nil _
  | cons c x ih =>
      obtain ⟨here, later⟩ := List.forall_mem_cons.mp flat
      rw [replace_quote]
      split
      · exact List.forall_mem_cons.mpr ⟨rfl, List.forall_mem_cons.mpr ⟨rfl, ih later⟩⟩
      · exact List.forall_mem_cons.mpr ⟨here, ih later⟩

theorem flat_singleRuns {rs : List Text} (flat : ∀ run ∈ rs, ∀ c ∈ run, endsLine c = false)
    (column : Nat) (atStart broken : Bool) :
    ∀ c ∈ singleRuns none column atStart broken rs, endsLine c = false := by
  induction rs generalizing column atStart broken with
  | nil => exact List.forall_mem_nil _
  | cons run rs ih =>
      obtain ⟨here, later⟩ := List.forall_mem_cons.mp flat
      have single : run.any isBreak = false := List.any_eq_false.mpr fun c member => by
        have line := here c member
        simp only [endsLine, Bool.or_eq_false_iff] at line
        simp [line.2]
      rw [singleRuns]
      simp only [single, Option.isSome_none, Bool.false_and, Bool.false_eq_true, if_false]
      exact List.forall_mem_append.mpr ⟨flat_replace here, ih later _ _ _⟩

theorem flat_upperHex {width n : Nat} (some : 0 < width) (small : n < 16 ^ width) :
    ∀ c ∈ upperHex width n, endsLine c = false := by
  obtain ⟨ds, same, all, -⟩ := exists_upperHex some small
  rw [same]
  intro c member
  obtain ⟨d, inside, rfl⟩ := List.mem_map.mp member
  have digits : ∀ d < 16, endsLine (upperDigit d) = false := by decide
  exact digits d (all d inside)

theorem flat_escape (c : Char) : ∀ d ∈ escape c, endsLine d = false := by
  unfold escape
  cases found : letterOf? c with
  | some letter =>
      obtain ⟨before, after, spelled, -⟩ := List.lookup_eq_some_iff.mp found
      have all : ∀ pair ∈ before ++ (c, letter) :: after, endsLine pair.2 = false := by
        rw [← spelled]
        decide
      have here := all _ (List.mem_append_right before List.mem_cons_self)
      exact List.forall_mem_cons.mpr ⟨rfl, List.forall_mem_cons.mpr ⟨here, List.forall_mem_nil _⟩⟩
  | none =>
      have small : c.toNat < 0x110000 := by
        rcases c.valid with low | ⟨-, high⟩
        · exact Nat.lt_trans low (by decide)
        · exact high
      have behind {letter : Char} {hex : Text} (line : endsLine letter = false)
          (flat : ∀ d ∈ hex, endsLine d = false) : ∀ d ∈ '\\' :: letter :: hex, endsLine d = false :=
        List.forall_mem_cons.mpr ⟨rfl, List.forall_mem_cons.mpr ⟨line, flat⟩⟩
      by_cases one : c.toNat ≤ 0xFF
      · simp only [if_pos one]
        exact behind rfl (flat_upperHex (by decide) (by omega))
      · by_cases two : c.toNat ≤ 0xFFFF
        · simp only [if_neg one, if_pos two]
          exact behind rfl (flat_upperHex (by decide) (by omega))
        · simp only [if_neg one, if_neg two]
          exact behind rfl (flat_upperHex (by decide) (by omega))

theorem flat_doubleText {word : Text} (t : Text) (atStart : Bool) (column : Nat)
    (flat : ∀ c ∈ word, endsLine c = false) :
    ∀ c ∈ doubleText none atStart word column t, endsLine c = false := by
  induction t generalizing atStart word column with
  | nil => exact fun c member => flat c (List.mem_reverse.mp member)
  | cons c t ih =>
      rcases doubleText_cons none atStart word column c t with
        ⟨-, column', same⟩ | ⟨-, indent, column', known, -⟩ | ⟨-, indent, column', known, -⟩
          | ⟨bare, same⟩
      · rw [same]
        refine List.forall_mem_append.mpr ⟨fun d member => flat d (List.mem_reverse.mp member), ?_⟩
        exact List.forall_mem_append.mpr ⟨flat_escape c, ih false column' (List.forall_mem_nil _)⟩
      · cases known
      · cases known
      · obtain ⟨special, single, -⟩ := plain_of_not_escaped bare
        rw [same]
        exact ih false column (List.forall_mem_cons.mpr ⟨endsLine_eq_false special single, flat⟩)

theorem plainRuns_none (column : Nat) (rs : List Text) : plainRuns none column rs = rs.flatten := by
  induction rs generalizing column with
  | nil => rfl
  | cons run rs ih => rw [plainRuns, ih, List.flatten_cons]

/-- A text without line breaks is written on one line unless that is to be folded. -/
theorem flat_write {t : Text} (single : isMultiline t = false) (column : Nat) :
    ∀ c ∈ (Style.ofText t).write none column t, endsLine c = false := by
  have lines (special : t.any isSpecial = false) : ∀ c ∈ t, endsLine c = false := fun c member =>
    endsLine_eq_false (by simpa using List.any_eq_false.mp special c member)
      (by simpa using List.any_eq_false.mp single c member)
  have quoted {q : Char} {w : Text} (line : endsLine q = false) (flat : ∀ c ∈ w, endsLine c = false) :
      ∀ c ∈ q :: w ++ [q], endsLine c = false :=
    List.forall_mem_append.mpr ⟨List.forall_mem_cons.mpr ⟨line, flat⟩, by simpa using line⟩
  unfold Style.ofText
  split
  · rename_i plain
    simp only [allowsPlain, Bool.and_eq_true, Bool.not_eq_true', Bool.or_eq_false_iff] at plain
    rw [Style.write, plainRuns_none, runs, List.flatten_splitBy]
    exact lines plain.2.1.2
  · split
    · rename_i allowed
      simp only [allowsSingle, Bool.not_eq_true', Bool.or_eq_false_iff] at allowed
      refine quoted rfl (flat_singleRuns (fun run member c inside => ?_) _ _ _)
      exact lines allowed.1.1 c (mem_of_mem_runs member inside)
    · exact quoted rfl (flat_doubleText t true _ (List.forall_mem_nil _))

end Recast.Yaml
