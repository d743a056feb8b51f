import Recast.Proofs.Blocks.Line
import Recast.Proofs.Blocks.Nesting

/-! # The rules on the lines of programs

Each list of rules finds the one rule that is meant for a line, and this rule gives
the other form of the line. What an expression holds does not matter, since every
rule looks at the two ends of a line and takes what lies between as it is.
-/

namespace Recast.Blocks

open Text

theorem Solid.ne_nil {t : Text} (h : Solid t) : t ≠ [] := by
  rintro rfl
  obtain ⟨c, first, -⟩ := h.first
  simp at first

theorem Solid.trimLeft_append {t : Text} (h : Solid t) (rest : Text) :
    trimLeft (t ++ rest) = t ++ rest := by
  obtain ⟨c, first, blank⟩ := h.first
  obtain ⟨more, rfl⟩ := List.head?_eq_some_iff.mp first
  exact trimLeft_cons blank _

theorem Solid.trimLeft_margin {t : Text} (h : Solid t) (n : Nat) :
    trimLeft (copies n ' ' ++ t) = t := by
  have margin : ∀ c ∈ copies n ' ', isBlank c := by
    intro c member
    rw [List.eq_of_mem_replicate member]
    decide
  rw [Text.trimLeft_append margin]
  simpa using h.trimLeft_append []

theorem Solid.trim_margin {t : Text} (h : Solid t) (n : Nat) : trim (copies n ' ' ++ t) = t := by
  obtain ⟨c, last, blank⟩ := h.last
  obtain ⟨start, rfl⟩ := List.getLast?_eq_some_iff.mp last
  rw [trim, h.trimLeft_margin, trimRight_concat_of_solid blank]

theorem Expression.unbroken (e : Expression) : e.text.any (· = '\n') = false := by
  simp only [List.any_eq_false, decide_eq_true_eq]
  rintro c member rfl
  exact e.single member

/-- The blank in front of a name is passed over. -/
theorem afterBlanks?_name (n : Identifier) (t : Text) :
    afterBlanks? (' ' :: (n.text ++ t)) = some (n.text ++ t) :=
  congrArg some (trimLeft_word_append n.known.ne_nil n.known.letters t)

/-! ## Toward braces -/

theorem functionHeader_text (n : Identifier) (ps : Parameters) :
    functionHeader (Line.function n ps).text = some (Line.function n ps).braced := by
  have named := afterBlanks?_name n ('(' :: (ps.text ++ [')', ':']))
  have listed : parameters? ('(' :: (ps.text ++ [')', ':'])) = some (ps.text, [':']) :=
    parameters?_eq_some.mpr ⟨by simp, ps.closed⟩
  unfold Line.text Line.braced
  simp only [List.append_assoc, List.cons_append, functionHeader, Option.bind_eq_bind,
    after?_append, Option.bind_some, named, name?_append n.known, listed, if_true]
  simp

theorem conditionHeader_text (keyword : Text) (form : Text → Text) (e : Expression) :
    conditionHeader keyword form (keyword ++ ' ' :: e.text ++ [':']) = some (form e.text) := by
  have captured : capturedAfterBlanks? 1 (before? [':']) ([' '] ++ (e.text ++ [':'])) =
      some e.text :=
    capturedAfterBlanks?_append (by decide) (e.solid.trimLeft_append [':']) (by decide)
      (before?_eq_some.mpr rfl) e.solid.ne_nil e.single
  simp only [List.singleton_append] at captured
  simp only [List.append_assoc, List.cons_append, conditionHeader, Option.bind_eq_bind,
    after?_append, Option.bind_some, captured, Option.map_eq_map, Option.map_some]

theorem countedHeader_text (n : Identifier) (e : Expression) :
    countedHeader (Line.count n e).text = some (Line.count n e).braced := by
  have named := word?_append n.known.ne_nil n.known.letters
    (' ' :: ("in" ++ ' ' :: ("range" ++ '(' :: (e.text ++ [')', ':'])))) rfl
  have first :=
    afterBlanks?_name n (' ' :: ("in" ++ ' ' :: ("range" ++ '(' :: (e.text ++ [')', ':']))))
  have second : afterBlanks? (' ' :: ("in" ++ ' ' :: ("range" ++ '(' :: (e.text ++ [')', ':'])))) =
      some ("in" ++ ' ' :: ("range" ++ '(' :: (e.text ++ [')', ':']))) := rfl
  have third : afterBlanks? (' ' :: ("range" ++ '(' :: (e.text ++ [')', ':']))) =
      some ("range(" ++ (e.text ++ [')', ':'])) := rfl
  have ended : before? [')', ':'] (e.text ++ [')', ':']) = some e.text :=
    before?_eq_some.mpr rfl
  have taken : captured? e.text = some e.text :=
    captured?_eq_some.mpr ⟨rfl, e.solid.ne_nil, e.single⟩
  unfold Line.text Line.braced counting
  simp only [List.append_assoc, List.cons_append, countedHeader, Option.bind_eq_bind,
    after?_append, Option.bind_some, first, named, second, third, ended, taken]
  simp

theorem printCall_text (e : Expression) :
    printCall (Line.output e).text = some (Line.output e).braced := by
  have called : after? "print(" ("print" ++ '(' :: (e.text ++ [')'])) = some (e.text ++ [')']) :=
    after?_append "print(" (e.text ++ [')'])
  have ended : before? [')'] (e.text ++ [')']) = some e.text := before?_eq_some.mpr rfl
  unfold Line.text Line.braced
  simp only [List.append_assoc, List.cons_append, printCall, Option.bind_eq_bind, called,
    Option.bind_some, ended, e.unbroken]
  simp

/-- Words that end are the same when the texts after them are added. -/
theorem word_inj {v w s t : Text} (first : v ≠ [] ∧ ∀ c ∈ v, isWord c)
    (second : w ≠ [] ∧ ∀ c ∈ w, isWord c) (ends : endsWord s = true) (ends' : endsWord t = true)
    (same : v ++ s = w ++ t) : v = w ∧ s = t := by
  have left := word?_append first.1 first.2 s ends
  rw [same, word?_append second.1 second.2 t ends'] at left
  simpa [eq_comm] using left

/-- A name with a space after it does not start a call. -/
theorem Identifier.apart (n : Identifier) {word rest call : Text} {c : Char}
    (letters : word ≠ [] ∧ ∀ d ∈ word, isWord d) (solid : isWord c = false) (other : c ≠ ' ') :
    word ++ c :: call ≠ n.text ++ ' ' :: rest := by
  intro same
  have ends : endsWord (c :: call) = true := by simp [endsWord, solid]
  have parts := word_inj letters ⟨n.known.ne_nil, n.known.letters⟩ ends rfl same
  exact other (List.cons.inj parts.2).1

/-- Lines that no header rule is meant for. -/
def Line.plain : Line → Bool
  | assignment .. | result .. => true
  | _ => false

theorem braced_of_plain {l : Line} (plain : l.plain = true) : l.braced = l.text ++ [';'] := by
  unfold Line.text Line.braced
  cases l with
  | assignment n e => rfl
  | result e => rfl
  | _ => simp [Line.plain] at plain

theorem colon_or_printCall {rule : Rule} (member : rule ∈ braceHeaders) {line out : Text}
    (h : rule line = some out) : line.getLast? = some ':' ∨ printCall line = some out := by
  simp only [braceHeaders, List.mem_cons, List.not_mem_nil, or_false] at member
  rcases member with rfl | rfl | rfl | rfl | rfl | rfl | rfl
  · obtain ⟨blanks, name, parameters, rfl, -⟩ := functionHeader_eq_some h
    exact .inl List.getLast?_concat
  · obtain ⟨blanks, condition, -, -, -, -, rfl, -⟩ := conditionHeader_eq_some h
    exact .inl List.getLast?_concat
  · obtain ⟨blanks, condition, -, -, -, -, rfl, -⟩ := conditionHeader_eq_some h
    exact .inl List.getLast?_concat
  · obtain ⟨rfl, -⟩ := elseHeader_eq_some.mp h
    exact .inl rfl
  · obtain ⟨name, spaces, bound, rfl, -⟩ := countedHeader_eq_some h
    exact .inl List.getLast?_concat
  · obtain ⟨blanks, condition, -, -, -, -, rfl, -⟩ := conditionHeader_eq_some h
    exact .inl List.getLast?_concat
  · exact .inr h

theorem braceHeaders_text (l : Line) :
    braceHeaders.foldl applyRule l.text = if l.plain then l.text else l.braced := by
  have single := l.single_text
  have settled := braceHeaders_settled single
  cases l with
  | assignment n e =>
      refine foldl_applyRule_of_none single fun rule member => ?_
      rw [Option.eq_none_iff_forall_ne_some]
      intro out h
      rcases colon_or_printCall member h with colon | call
      · obtain ⟨c, last, -, apart⟩ := (Line.assignment n e).last_text_of_stays rfl
        obtain rfl := Option.some.inj (last.symm.trans colon)
        exact apart (by decide)
      · obtain ⟨arguments, spelled, -⟩ := printCall_eq_some call
        have call : "print" ++ '(' :: (arguments ++ [')']) = n.text ++ ' ' :: '=' :: ' ' :: e.text :=
          spelled.symm
        exact absurd call (n.apart (by decide) (by decide) (by decide))
  | output e => exact foldl_applyRule_at single settled 6 rfl rfl (printCall_text e)
  | result e =>
      have none : braceHeaders.all (fun rule => (rule (Line.result e).text).isNone) = true := rfl
      exact foldl_applyRule_of_none single (by simpa using none)
  | function n ps => exact foldl_applyRule_at single settled 0 rfl rfl (functionHeader_text n ps)
  | loop e => exact foldl_applyRule_at single settled 5 rfl rfl (conditionHeader_text "while" _ e)
  | count n e => exact foldl_applyRule_at single settled 4 rfl rfl (countedHeader_text n e)
  | choice e => exact foldl_applyRule_at single settled 1 rfl rfl (conditionHeader_text "if" _ e)
  | alternative e =>
      exact foldl_applyRule_at single settled 2 rfl rfl (conditionHeader_text "elif" _ e)
  | otherwise => exact foldl_applyRule_at single settled 3 rfl rfl rfl

theorem returnValue_result (e : Expression) :
    returnValue (Line.result e).text = some (Line.result e).braced := by
  have captured : capturedAfterBlanks? 1 some ([' '] ++ e.text) = some e.text :=
    capturedAfterBlanks?_append (by decide) (by simpa using e.solid.trimLeft_append [])
      (by decide) rfl e.solid.ne_nil e.single
  have value : after? "return" (Line.result e).text = some ([' '] ++ e.text) :=
    after?_append "return" _
  simp only [returnValue, value, Option.bind_eq_bind, Option.bind_some, captured]
  rfl

/-- An assignment to a variable `return` is taken for a line with a value, and comes out the
    same. -/
theorem returnValue_assignment (n : Identifier) (e : Expression) :
    returnValue (Line.assignment n e).text = none ∨
      returnValue (Line.assignment n e).text = some (Line.assignment n e).braced := by
  have value : ' ' :: '=' :: ' ' :: e.text = [' '] ++ '=' :: ' ' :: e.text := rfl
  by_cases same : n.text = "return"
  · have captured : capturedAfterBlanks? 1 some ([' '] ++ '=' :: ' ' :: e.text) =
        some ('=' :: ' ' :: e.text) :=
      capturedAfterBlanks?_append (by decide) (trimLeft_cons (by decide) _) (by decide) rfl
        (by simp) (by simp [e.single])
    refine .inr ?_
    unfold Line.text Line.braced
    simp only [same, returnValue, Option.bind_eq_bind, after?_append, Option.bind_some, value,
      captured]
    simp
  · refine .inl (Option.eq_none_iff_forall_ne_some.mpr fun out h => same ?_)
    simp only [returnValue, Option.bind_eq_bind, Option.bind_eq_some_iff, after?_eq_some] at h
    obtain ⟨rest, spelled, value, captured, -⟩ := h
    obtain ⟨blanks, tail, rfl, blank, enough, -⟩ := capturedAfterBlanks?_eq_some captured
    have ends : endsWord (blanks ++ tail) = true := by
      obtain ⟨c, blanks, rfl⟩ := List.exists_cons_of_length_pos enough
      simp [endsWord, isWord_of_isBlank (blank c List.mem_cons_self)]
    exact (word_inj ⟨n.known.ne_nil, n.known.letters⟩ (by decide) rfl ends spelled).1

theorem returnValue_text {l : Line} (plain : l.plain = true) :
    returnValue l.text = none ∨ returnValue l.text = some l.braced := by
  cases l with
  | assignment n e => exact returnValue_assignment n e
  | result e => exact .inr (returnValue_result e)
  | _ => simp [Line.plain] at plain

theorem returnValue_braced {l : Line} (other : l.plain = false) : returnValue l.braced = none := by
  cases l with
  | assignment n e => simp [Line.plain] at other
  | result e => simp [Line.plain] at other
  | _ => rfl

/-- The line with a semicolon, where one is missing. -/
def ended (t : Text) : Text := if opensBrace t || terminated t then t else t ++ [';']

theorem terminated_eq {t : Text} (single : '\n' ∉ t) :
    terminated t = true ↔ ∃ c ∈ [';', '{', '}'], t.getLast? = some c := by
  have whole : t.getLast? ≠ some '\n' := fun last => single (List.mem_of_getLast? last)
  simp only [terminated, splitFinalNewline, if_neg whole]
  cases last : t.getLast? with
  | none => simp
  | some c => simp [or_assoc]

theorem ended_braced (l : Line) : ended l.braced = l.braced := by
  have closed : terminated l.braced = true := by
    refine (terminated_eq l.single_braced).mpr ⟨_, ?_, l.last_braced⟩
    split <;> decide
  simp [ended, closed]

theorem ended_text {l : Line} (plain : l.plain = true) : ended l.text = l.braced := by
  have stays : l.opens = false := by cases l <;> simp_all [Line.plain, Line.opens]
  obtain ⟨c, last, solid, apart⟩ := l.last_text_of_stays stays
  have unopened : opensBrace l.text = false := by
    obtain ⟨start, spelled⟩ := List.getLast?_eq_some_iff.mp last
    have other : c ≠ '{' := by
      rintro rfl
      exact apart (by decide)
    rw [spelled, opensBrace, trimRight_concat_of_solid solid, List.getLast?_concat]
    simpa using other
  have unclosed : terminated l.text = false := by
    rw [Bool.eq_false_iff, ne_eq, terminated_eq l.single_text]
    rintro ⟨d, member, last'⟩
    obtain rfl := Option.some.inj (last.symm.trans last')
    simp_all
  simp [ended, unopened, unclosed, braced_of_plain plain]

theorem plain_rename {f : Text → Text} (h : Renaming f) (l : Line) :
    (l.rename h).plain = l.plain := by
  cases l <;> rfl

/-- The line in braces, but for a semicolon. -/
theorem ended_toBraces (l : Line) :
    ended (toBraces l.text) = (l.rename renaming_bracedConstants).braced := by
  have known := plain_rename renaming_bracedConstants l
  rw [toBraces_eq, braceHeaders_text]
  generalize renamed : l.rename renaming_bracedConstants = m at known ⊢
  cases plain : l.plain with
  | true =>
      rw [if_pos rfl, l.rename_text renaming_bracedConstants, renamed, applyRule_eq m.single_text]
      rw [plain] at known
      rcases returnValue_text known with none | some
      · rw [none, Option.getD_none, ended_text known]
      · rw [some, Option.getD_some, ended_braced]
  | false =>
      rw [plain] at known
      rw [if_neg (by simp), l.rename_braced renaming_bracedConstants, renamed,
        applyRule_eq m.single_braced, returnValue_braced known, Option.getD_none, ended_braced]

theorem opensBrace_of_last {t : Text} {c : Char} (last : t.getLast? = some c)
    (solid : isBlank c = false) : opensBrace t = (c == '{') := by
  obtain ⟨start, rfl⟩ := List.getLast?_eq_some_iff.mp last
  rw [opensBrace, trimRight_concat_of_solid solid, List.getLast?_concat]
  rfl

theorem opensBrace_toBraces (l : Line) : opensBrace (toBraces l.text) = l.opens := by
  have last := (l.rename renaming_bracedConstants).last_braced
  rw [← ended_toBraces, Line.opens_rename] at last
  by_cases here : opensBrace (toBraces l.text) || terminated (toBraces l.text)
  · rw [ended, if_pos here] at last
    rw [opensBrace_of_last last (by split <;> decide)]
    cases l.opens <;> rfl
  · rw [ended, if_neg here, List.getLast?_concat] at last
    have unopened : opensBrace (toBraces l.text) = false := by simp_all
    rw [unopened]
    cases opens : l.opens with
    | false => rfl
    | true => simp [opens] at last

/-! ## Toward indentation -/

theorem bracedFunction_braced (n : Identifier) (ps : Parameters) :
    bracedFunction (Line.function n ps).braced = some (Line.function n ps).text := by
  have named := afterBlanks?_name n ('(' :: (ps.text ++ [')', ' ', '{']))
  have listed : parameters? ('(' :: (ps.text ++ [')', ' ', '{'])) = some (ps.text, [' ', '{']) :=
    parameters?_eq_some.mpr ⟨by simp, ps.closed⟩
  have brace : trimLeft [' ', '{'] = ['{'] := rfl
  unfold Line.text Line.braced
  simp only [List.append_assoc, List.cons_append, bracedFunction, Option.bind_eq_bind,
    after?_append, Option.bind_some, named, name?_append n.known, listed, brace, if_true]
  simp

theorem bracedCondition?_text (e : Expression) :
    bracedCondition? (' ' :: '(' :: (e.text ++ [')', ' ', '{'])) = some e.text := by
  have start : trimLeft (' ' :: '(' :: (e.text ++ [')', ' ', '{'])) =
      '(' :: (e.text ++ [')', ' ', '{']) := rfl
  have ended : beforeOpening? (e.text ++ [')', ' ', '{']) = some e.text :=
    beforeOpening?_eq_some.mpr ⟨[' '], by decide, by simp⟩
  have taken : captured? e.text = some e.text :=
    captured?_eq_some.mpr ⟨rfl, e.solid.ne_nil, e.single⟩
  simp [bracedCondition?, start, after?_cons, ended, taken]

theorem bracedIf_braced (e : Expression) :
    bracedIf (Line.choice e).braced = some (Line.choice e).text := by
  unfold Line.text Line.braced opened
  simp only [List.append_assoc, List.cons_append, bracedIf, Option.bind_eq_bind, after?_append,
    Option.bind_some, bracedCondition?_text]
  simp

theorem bracedWhile_braced (e : Expression) :
    bracedWhile (Line.loop e).braced = some (Line.loop e).text := by
  unfold Line.text Line.braced opened
  simp only [List.append_assoc, List.cons_append, bracedWhile, Option.bind_eq_bind, after?_append,
    Option.bind_some, bracedCondition?_text]
  simp

theorem bracedElseIf_braced (e : Expression) :
    bracedElseIf (Line.alternative e).braced = some (Line.alternative e).text := by
  have closing : afterClosing? (Line.alternative e).braced =
      some ("else if" ++ ' ' :: '(' :: (e.text ++ [')', ' ', '{'])) := rfl
  unfold Line.text
  simp only [bracedElseIf, Option.bind_eq_bind, closing, after?_append,
    Option.bind_some, bracedCondition?_text]
  simp

theorem bracedCounted_braced (n : Identifier) (e : Expression) :
    bracedCounted (Line.count n e).braced = some (Line.count n e).text := by
  have step : LoopStep n.text
      (';' :: ' ' :: (n.text ++ ' ' :: '+' :: '=' :: ' ' :: '1' :: [')', ' ', '{'])) :=
    ⟨[' '], [' '], [' '], [' '], by decide, by decide, by decide, by decide, by simp⟩
  have single : ∀ c ∈ [' '], isBlank c := by decide
  have captured := capturedAfterBlanks?_append single (e.solid.trimLeft_append _) (Nat.zero_le 1)
    (beforeStep?_append n.known.ne_nil n.known.letters step e.text) e.solid.ne_nil e.single
  have skip (t : Text) : trimLeft (' ' :: t) = trimLeft t := rfl
  have blanks (t : Text) : afterBlanks? (' ' :: t) = some (trimLeft t) := rfl
  have named (t : Text) := word?_append n.known.ne_nil n.known.letters (' ' :: t) rfl
  have zero (t : Text) : after? ['0', ';'] ('0' :: ';' :: t) = some t := after?_append ['0', ';'] t
  have digit (t : Text) : "0" ++ t = '0' :: t := rfl
  have one (t : Text) : "1" ++ t = '1' :: t := rfl
  have name (t : Text) := trimLeft_word_append n.known.ne_nil n.known.letters t
  simp only [List.singleton_append] at captured
  unfold Line.text Line.braced counting
  simp only [List.append_assoc, List.cons_append, digit, one, bracedCounted, Option.bind_eq_bind,
    after?_append, after?_cons, Option.bind_some, skip, blanks, name, named, zero,
    trimLeft_cons (c := '(') rfl, trimLeft_cons (c := '=') rfl, trimLeft_cons (c := '0') rfl,
    trimLeft_cons (c := '<') rfl, captured]
  simp

theorem logCall_core (e : Expression) :
    logCall ("console" ++ '.' :: "log" ++ '(' :: e.text ++ [')']) = some (Line.output e).text := by
  have called : after? "console.log(" ("console" ++ '.' :: ("log" ++ '(' :: (e.text ++ [')']))) =
      some (e.text ++ [')']) :=
    after?_append "console.log(" (e.text ++ [')'])
  have ended : before? [')'] (e.text ++ [')']) = some e.text := before?_eq_some.mpr rfl
  unfold Line.text
  simp only [List.append_assoc, List.cons_append, logCall, Option.bind_eq_bind, called,
    Option.bind_some, ended, e.unbroken]
  simp

theorem indentHeaders_text {l : Line} (plain : l.plain = true) :
    indentHeaders.foldl applyRule l.text = l.text := by
  have single := l.single_text
  cases l with
  | assignment n e =>
      refine foldl_applyRule_of_none single fun rule member => ?_
      rw [Option.eq_none_iff_forall_ne_some]
      intro out h
      rcases recoloned_or_logCall member h with header | call
      · obtain ⟨body, spelled⟩ := header.brace
        obtain ⟨c, last, -, apart⟩ := (Line.assignment n e).last_text_of_stays rfl
        rw [spelled, List.getLast?_concat] at last
        obtain rfl := Option.some.inj last
        exact apart (by decide)
      · obtain ⟨arguments, spelled, -⟩ := logCall_eq_some call
        have call : "console" ++ '.' :: ("log" ++ '(' :: (arguments ++ [')'])) =
            n.text ++ ' ' :: '=' :: ' ' :: e.text := spelled.symm
        exact absurd call (n.apart (by decide) (by decide) (by decide))
  | result e =>
      have none : indentHeaders.all (fun rule => (rule (Line.result e).text).isNone) = true := rfl
      exact foldl_applyRule_of_none single (by simpa using none)
  | _ => simp [Line.plain] at plain

/-- The headers toward indentation undo the headers toward braces. -/
theorem indentHeaders_withoutSemicolon (l : Line) :
    indentHeaders.foldl applyRule (withoutSemicolon l.braced) = l.text := by
  have single := l.single_braced
  have header {m : Line} (opens : m.opens = true) : withoutSemicolon m.braced = m.braced := by
    refine withoutSemicolon_of_last m.single_braced ?_
    simp [m.last_braced, opens]
  have statement {m : Line} (plain : m.plain = true) :
      indentHeaders.foldl applyRule (withoutSemicolon m.braced) = m.text := by
    rw [braced_of_plain plain, withoutSemicolon_concat m.single_text, indentHeaders_text plain]
  have settled := indentHeaders_settled single
  cases l with
  | assignment n e => exact statement rfl
  | result e => exact statement rfl
  | output e =>
      have inside : '\n' ∉ "console" ++ '.' :: "log" ++ '(' :: e.text ++ [')'] := by
        simp [e.single]
      have whole : (Line.output e).braced =
          ("console" ++ '.' :: "log" ++ '(' :: e.text ++ [')']) ++ [';'] := by
        unfold Line.braced
        simp
      rw [whole, withoutSemicolon_concat inside]
      exact foldl_applyRule_at inside (indentHeaders_settled inside) 7 rfl rfl (logCall_core e)
  | function n ps =>
      rw [header rfl]
      exact foldl_applyRule_at single settled 0 rfl rfl (bracedFunction_braced n ps)
  | loop e =>
      rw [header rfl]
      exact foldl_applyRule_at single settled 5 rfl rfl (bracedWhile_braced e)
  | count n e =>
      rw [header rfl]
      exact foldl_applyRule_at single settled 6 rfl rfl (bracedCounted_braced n e)
  | choice e =>
      rw [header rfl]
      exact foldl_applyRule_at single settled 1 rfl rfl (bracedIf_braced e)
  | alternative e =>
      rw [header rfl]
      exact foldl_applyRule_at single settled 2 rfl rfl (bracedElseIf_braced e)
  | otherwise =>
      rw [header rfl]
      exact foldl_applyRule_at single settled 3 rfl rfl rfl

theorem toIndentation_withoutSemicolon (l : Line) :
    toIndentation (withoutSemicolon l.braced) = (l.rename renaming_indentedConstants).text := by
  rw [toIndentation_eq, indentHeaders_withoutSemicolon, l.rename_text renaming_indentedConstants]

theorem opensColon_text (l : Line) : opensColon l.text = l.opens := by
  cases opens : l.opens with
  | true =>
      obtain ⟨start, spelled⟩ := List.getLast?_eq_some_iff.mp (l.last_text_of_opens opens)
      rw [spelled, opensColon_concat (by decide)]
      rfl
  | false =>
      obtain ⟨c, last, solid, apart⟩ := l.last_text_of_stays opens
      obtain ⟨start, spelled⟩ := List.getLast?_eq_some_iff.mp last
      rw [spelled, opensColon_concat solid, beq_eq_false_iff_ne]
      rintro rfl
      exact apart (by decide)

end Recast.Blocks
