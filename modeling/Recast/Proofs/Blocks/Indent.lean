import Recast.Blocks.Indent
import Recast.Proofs.Blocks.Rule
import Recast.Proofs.Text.Boundary

/-! # What the rules toward indentation recognise

The spelling of the block headers in braces. A header of any of these spellings is
rewritten to a line that ends in a colon, and so opens a block; a line without
braces opens one only if it ended in a colon before.
-/

namespace Recast.Blocks

open Text

/-! ## Headers in braces -/

/-- A run of white space, which may be empty. -/
abbrev Spaces (t : Text) : Prop := ∀ c ∈ t, isBlank c

/-- A letter or underscore, then word characters. -/
def IsName (name : Text) : Prop :=
  ∃ c rest, name = c :: rest ∧ (c.isAlpha || c == '_') = true ∧ ∀ d ∈ rest, isWord d

/-- `function name(parameters) {` -/
def FunctionBlock (line : Text) : Prop :=
  ∃ blanks name parameters spaces, blanks ≠ [] ∧ Spaces blanks ∧ IsName name ∧
    ')' ∉ parameters ∧ Spaces spaces ∧
      line = "function" ++ blanks ++ name ++ '(' :: parameters ++ ')' :: spaces ++ ['{']

/-- `(condition) {`, with white space before and between. -/
def ConditionBlock (rest : Text) : Prop :=
  ∃ before condition spaces, Spaces before ∧ condition ≠ [] ∧ '\n' ∉ condition ∧ Spaces spaces ∧
    rest = before ++ '(' :: condition ++ ')' :: spaces ++ ['{']

/-- `} else if (condition) {` -/
def ElseIfBlock (line : Text) : Prop :=
  ∃ spaces rest, Spaces spaces ∧ ConditionBlock rest ∧ line = '}' :: spaces ++ "else if" ++ rest

/-- `} else {` -/
def ElseBlock (line : Text) : Prop :=
  ∃ before spaces, Spaces before ∧ Spaces spaces ∧
    line = '}' :: before ++ "else" ++ spaces ++ ['{']

/-- What stands between a counting loop's bound and its body: `; name += 1) {` -/
def LoopStep (name step : Text) : Prop :=
  ∃ s₁ s₂ s₃ s₄, Spaces s₁ ∧ Spaces s₂ ∧ Spaces s₃ ∧ Spaces s₄ ∧
    step = ';' :: s₁ ++ name ++ s₂ ++ ['+', '='] ++ s₃ ++ ['1', ')'] ++ s₄ ++ ['{']

/-- `for (let name = 0; name < bound; name += 1) {` -/
def CountedBlock (line : Text) : Prop :=
  ∃ s₁ s₂ name s₃ s₄ s₅ s₆ s₇ bound step, Spaces s₁ ∧ s₂ ≠ [] ∧ Spaces s₂ ∧ name ≠ [] ∧
    (∀ c ∈ name, isWord c) ∧ Spaces s₃ ∧ Spaces s₄ ∧ Spaces s₅ ∧ Spaces s₆ ∧ Spaces s₇ ∧
      bound ≠ [] ∧ '\n' ∉ bound ∧ LoopStep name step ∧
        line = "for" ++ s₁ ++ '(' :: "let" ++ s₂ ++ name ++ s₃ ++ '=' :: s₄ ++ ['0', ';'] ++ s₅
          ++ name ++ s₆ ++ '<' :: s₇ ++ bound ++ step

theorem IsName.letters {name : Text} (known : IsName name) : ∀ c ∈ name, isWord c := by
  obtain ⟨c, rest, rfl, first, others⟩ := known
  refine List.forall_mem_cons.mpr ⟨?_, others⟩
  rcases (Bool.or_eq_true _ _).mp first with alpha | under
  · exact isWord_of_isAlpha alpha
  · simp [isWord, under]

theorem IsName.ne_nil {name : Text} (known : IsName name) : name ≠ [] := by
  obtain ⟨c, rest, rfl, -⟩ := known
  exact List.cons_ne_nil c rest

theorem name?_append {name rest : Text} (known : IsName name) :
    name? (name ++ '(' :: rest) = some (name, '(' :: rest) := by
  obtain ⟨c, more, rfl, first, others⟩ := known
  have stop : ∀ d, ('(' :: rest).head? = some d → isWord d = false := by
    rintro d ⟨⟩
    decide
  simp only [List.cons_append, name?, first, if_true]
  rw [takeWhile_run others stop, dropWhile_run others stop]

theorem word?_append {word : Text} (some : word ≠ []) (letters : ∀ c ∈ word, isWord c)
    (rest : Text) (ends : endsWord rest = true) : word? (word ++ rest) = Option.some (word, rest) := by
  have stop : ∀ c, rest.head? = Option.some c → isWord c = false := by
    intro c first
    obtain ⟨tail, rfl⟩ := List.head?_eq_some_iff.mp first
    simpa [endsWord] using ends
  simp [word?, takeWhile_run letters stop, dropWhile_run letters stop, some]

theorem isSome_bracedFunction {line : Text} (h : FunctionBlock line) :
    (bracedFunction line).isSome := by
  obtain ⟨blanks, name, parameters, spaces, some, blank, known, absent, space, rfl⟩ := h
  simp only [List.append_assoc, List.cons_append]
  have named : afterBlanks? (blanks ++ (name ++ '(' :: (parameters ++ ')' :: (spaces ++ ['{'])))) =
      Option.some (name ++ '(' :: (parameters ++ ')' :: (spaces ++ ['{']))) := by
    rw [afterBlanks?_append some blank, trimLeft_word_append known.ne_nil known.letters]
  have listed : parameters? ('(' :: (parameters ++ ')' :: (spaces ++ ['{']))) =
      Option.some (parameters, spaces ++ ['{']) :=
    parameters?_eq_some.mpr ⟨by simp, absent⟩
  have brace : trimLeft (spaces ++ ['{']) = ['{'] := trimLeft_append space ['{']
  simp only [bracedFunction, Option.bind_eq_bind, after?_append, Option.bind_some, named,
    name?_append known, listed, brace, if_true, Option.isSome_some]

theorem isSome_bracedCondition? {rest : Text} (h : ConditionBlock rest) :
    (bracedCondition? rest).isSome := by
  obtain ⟨before, condition, spaces, space, told, single, space', rfl⟩ := h
  have start : trimLeft (before ++ '(' :: (condition ++ ')' :: (spaces ++ ['{']))) =
      '(' :: (condition ++ ')' :: (spaces ++ ['{'])) := by
    rw [trimLeft_append space, trimLeft_cons (by decide)]
  have ended : beforeOpening? (condition ++ ')' :: (spaces ++ ['{'])) = some condition :=
    beforeOpening?_eq_some.mpr ⟨spaces, space', by simp⟩
  have taken : captured? condition = some condition :=
    captured?_eq_some.mpr ⟨rfl, told, single⟩
  simp [bracedCondition?, start, after?_cons, ended, taken]

theorem isSome_bracedIf {rest : Text} (h : ConditionBlock rest) :
    (bracedIf ("if" ++ rest)).isSome := by
  obtain ⟨condition, found⟩ := Option.isSome_iff_exists.mp (isSome_bracedCondition? h)
  simp only [bracedIf, Option.bind_eq_bind, after?_append, Option.bind_some, found,
    Option.isSome_some]

theorem isSome_bracedWhile {rest : Text} (h : ConditionBlock rest) :
    (bracedWhile ("while" ++ rest)).isSome := by
  obtain ⟨condition, found⟩ := Option.isSome_iff_exists.mp (isSome_bracedCondition? h)
  simp only [bracedWhile, Option.bind_eq_bind, after?_append, Option.bind_some, found,
    Option.isSome_some]

theorem afterClosing?_append {spaces : Text} (space : Spaces spaces) (rest : Text) :
    afterClosing? ('}' :: (spaces ++ rest)) = some (trimLeft rest) := by
  rw [afterClosing?, after?_cons, Option.map_some, trimLeft_append space]

theorem isSome_bracedElseIf {line : Text} (h : ElseIfBlock line) : (bracedElseIf line).isSome := by
  obtain ⟨spaces, rest, space, block, rfl⟩ := h
  obtain ⟨condition, found⟩ := Option.isSome_iff_exists.mp (isSome_bracedCondition? block)
  have solid : trimLeft ("else if" ++ rest) = "else if" ++ rest := trimLeft_cons (by decide) _
  simp only [List.append_assoc, List.cons_append, bracedElseIf, Option.bind_eq_bind,
    afterClosing?_append space, solid, Option.bind_some, after?_append, found, Option.isSome_some]

theorem isSome_bracedElse {line : Text} (h : ElseBlock line) : (bracedElse line).isSome := by
  obtain ⟨before, spaces, space, space', rfl⟩ := h
  have solid : trimLeft ("else" ++ (spaces ++ ['{'])) = "else" ++ (spaces ++ ['{']) :=
    trimLeft_cons (by decide) _
  have brace : trimLeft (spaces ++ ['{']) = ['{'] := trimLeft_append space' ['{']
  simp only [List.append_assoc, List.cons_append, bracedElse, bareElse, Option.bind_eq_bind,
    afterClosing?_append space, solid, Option.bind_some, after?_append, brace, if_true,
    Option.isSome_some]

theorem endsWord_append {spaces : Text} (space : Spaces spaces) {c : Char}
    (solid : isWord c = false) (rest : Text) : endsWord (spaces ++ c :: rest) = true := by
  cases spaces with
  | nil => simp [endsWord, solid]
  | cons d spaces => simp [endsWord, isWord_of_isBlank (space d List.mem_cons_self)]

/-- The step is read from its end. -/
theorem beforeStep?_append {name step : Text} (named : name ≠ []) (letters : ∀ c ∈ name, isWord c)
    (h : LoopStep name step) (bound : Text) : beforeStep? name (bound ++ step) = some bound := by
  obtain ⟨s₁, s₂, s₃, s₄, space₁, space₂, space₃, space₄, rfl⟩ := h
  have opening : beforeOpening? (bound ++ (';' :: s₁ ++ name ++ s₂ ++ ['+', '='] ++ s₃ ++ ['1', ')']
      ++ s₄ ++ ['{'])) = some (bound ++ ';' :: s₁ ++ name ++ s₂ ++ ['+', '='] ++ s₃ ++ ['1']) :=
    beforeOpening?_eq_some.mpr ⟨s₄, space₄, by simp⟩
  have one : before? ['1'] (bound ++ ';' :: s₁ ++ name ++ s₂ ++ ['+', '='] ++ s₃ ++ ['1']) =
      some (bound ++ ';' :: s₁ ++ name ++ s₂ ++ ['+', '='] ++ s₃) := before?_eq_some.mpr rfl
  have sum : trimRight (bound ++ ';' :: s₁ ++ name ++ s₂ ++ ['+', '='] ++ s₃) =
      bound ++ ';' :: s₁ ++ name ++ s₂ ++ ['+', '='] := by
    rw [trimRight_append space₃, show ['+', '='] = ['+'] ++ ['='] from rfl, ← List.append_assoc,
      trimRight_concat_of_solid (by decide)]
  have plus : before? ['+', '='] (bound ++ ';' :: s₁ ++ name ++ s₂ ++ ['+', '=']) =
      some (bound ++ ';' :: s₁ ++ name ++ s₂) := before?_eq_some.mpr rfl
  have counter : trimRight (bound ++ ';' :: s₁ ++ name ++ s₂) = bound ++ ';' :: s₁ ++ name := by
    rw [trimRight_append space₂, trimRight_append_word named letters]
  have again : before? name (bound ++ ';' :: s₁ ++ name) = some (bound ++ ';' :: s₁) :=
    before?_eq_some.mpr rfl
  have stop : trimRight (bound ++ ';' :: s₁) = bound ++ [';'] := by
    rw [show bound ++ ';' :: s₁ = (bound ++ [';']) ++ s₁ by simp, trimRight_append space₁,
      trimRight_concat_of_solid (by decide)]
  have rest : before? [';'] (bound ++ [';']) = some bound := before?_eq_some.mpr rfl
  simp only [beforeStep?, Option.bind_eq_bind, opening, Option.bind_some, one, sum, plus, counter,
    again, stop, rest]

theorem isSome_bracedCounted {line : Text} (h : CountedBlock line) :
    (bracedCounted line).isSome := by
  obtain ⟨s₁, s₂, name, s₃, s₄, s₅, s₆, s₇, bound, step, space₁, some, space₂, named, letters,
    space₃, space₄, space₅, space₆, space₇, told, single, stepped, rfl⟩ := h
  simp only [List.append_assoc, List.cons_append, List.nil_append]
  have word := word?_append named letters
    (s₃ ++ '=' :: (s₄ ++ '0' :: ';' :: (s₅ ++ (name ++ (s₆ ++ '<' :: (s₇ ++ (bound ++ step)))))))
    (endsWord_append space₃ (by decide) _)
  have zero : after? ['0', ';'] ('0' :: ';' :: (s₅ ++ (name ++ (s₆ ++ '<' :: (s₇ ++
      (bound ++ step)))))) = Option.some (s₅ ++ (name ++ (s₆ ++ '<' :: (s₇ ++ (bound ++ step))))) :=
    after?_append ['0', ';'] _
  obtain ⟨out, found⟩ := Option.isSome_iff_exists.mp
    (isSome_capturedAfterBlanks? 0 (beforeStep? name) rfl space₇ (Nat.zero_le _)
      (beforeStep?_append named letters stepped bound) told single)
  simp only [bracedCounted, Option.bind_eq_bind, after?_append, after?_cons, Option.bind_some,
    trimLeft_append space₁, trimLeft_append space₃, trimLeft_append space₄, trimLeft_append space₅,
    trimLeft_append space₆, trimLeft_cons (c := '(') rfl, trimLeft_cons (c := '=') rfl,
    trimLeft_cons (c := '0') rfl, trimLeft_cons (c := '<') rfl, afterBlanks?_append some space₂,
    trimLeft_word_append named letters, word, zero, found, Option.isSome_some]

/-! ## What the rules write -/

/-- The signs that the rules add to what they keep of a line. -/
def colonSigns : Text := "def ():if elif else while for in range print"

/-- A line that opened a block in braces, now with a colon. -/
structure Recoloned (line out : Text) : Prop where
  brace : ∃ body, line = body ++ ['{']
  colon : ∃ body, out = body ++ [':']
  kept : Kept colonSigns line out

theorem recoloned_of_bracedFunction {line out : Text} (h : bracedFunction line = some out) :
    Recoloned line out := by
  simp only [bracedFunction, Option.bind_eq_bind, Option.bind_eq_some_iff, Prod.exists,
    Option.ite_none_right_eq_some, Option.some.injEq, after?_eq_some, parameters?_eq_some] at h
  obtain ⟨start, rfl, rest, skipped, name, tail, named, parameters, more, ⟨rfl, -⟩, brace, rfl⟩ := h
  obtain ⟨blanks, -, -, rfl⟩ := afterBlanks?_eq_some skipped
  obtain rfl := name?_eq_some named
  obtain ⟨spaces, -, spelled⟩ := exists_append_trimLeft more
  rw [brace] at spelled
  subst spelled
  refine ⟨⟨"function" ++ blanks ++ name ++ '(' :: parameters ++ ')' :: spaces, ?_⟩,
    ⟨"def " ++ name ++ '(' :: parameters ++ [')'], by simp⟩, ?_⟩
  · simp
  · rw [← List.singleton_append]
    simp only [kept_append]
    refine ⟨⟨⟨kept_signs (by decide), kept_part ?_⟩, kept_signs (by decide), kept_part ?_⟩,
      kept_signs (by decide)⟩
    · simp +contextual
    · simp +contextual

/-- The condition comes from the line. -/
theorem bracedCondition?_eq_some {rest condition : Text} (h : bracedCondition? rest = some condition) :
    (∃ body, rest = body ++ ['{']) ∧ ∀ c ∈ condition, c ∈ rest := by
  simp only [bracedCondition?, Option.bind_eq_bind, Option.bind_eq_some_iff, after?_eq_some,
    beforeOpening?_eq_some, captured?_eq_some] at h
  obtain ⟨inner, opening, condition', ⟨spaces, -, rfl⟩, rfl, -⟩ := h
  obtain ⟨blanks, -, spelled⟩ := exists_append_trimLeft rest
  rw [opening] at spelled
  rw [spelled]
  refine ⟨⟨blanks ++ (['('] ++ (condition ++ ')' :: spaces)), by simp⟩, fun c member => ?_⟩
  simp [member]

/-- What a condition becomes after a new keyword. -/
theorem recoloned_of_condition {line rest condition keyword : Text} {start : Text}
    (spelled : line = start ++ rest) (h : bracedCondition? rest = some condition)
    (signs : ∀ c ∈ keyword, c ∈ colonSigns) : Recoloned line (keyword ++ condition ++ [':']) := by
  obtain ⟨⟨body, rfl⟩, inside⟩ := bracedCondition?_eq_some h
  refine ⟨⟨start ++ body, by simp [spelled]⟩, ⟨keyword ++ condition, rfl⟩, ?_⟩
  have part : ∀ c ∈ condition, c ∈ line := fun c member =>
    spelled ▸ List.mem_append_right start (inside c member)
  exact kept_append.mpr
    ⟨kept_append.mpr ⟨kept_signs signs, kept_part part⟩, kept_signs (by decide)⟩

theorem recoloned_of_bracedIf {line out : Text} (h : bracedIf line = some out) :
    Recoloned line out := by
  simp only [bracedIf, Option.bind_eq_bind, Option.bind_eq_some_iff, after?_eq_some,
    Option.some.injEq] at h
  obtain ⟨rest, spelled, condition, found, rfl⟩ := h
  exact recoloned_of_condition spelled found (by decide)

theorem recoloned_of_bracedWhile {line out : Text} (h : bracedWhile line = some out) :
    Recoloned line out := by
  simp only [bracedWhile, Option.bind_eq_bind, Option.bind_eq_some_iff, after?_eq_some,
    Option.some.injEq] at h
  obtain ⟨rest, spelled, condition, found, rfl⟩ := h
  exact recoloned_of_condition spelled found (by decide)

theorem afterClosing?_eq_some {line rest : Text} (h : afterClosing? line = some rest) :
    ∃ start, line = start ++ rest := by
  simp only [afterClosing?, Option.map_eq_some_iff, after?_eq_some] at h
  obtain ⟨more, rfl, rfl⟩ := h
  obtain ⟨spaces, -, spelled⟩ := exists_append_trimLeft more
  exact ⟨'}' :: spaces, congrArg ('}' :: ·) spelled⟩

theorem recoloned_of_bracedElseIf {line out : Text} (h : bracedElseIf line = some out) :
    Recoloned line out := by
  simp only [bracedElseIf, Option.bind_eq_bind, Option.bind_eq_some_iff, after?_eq_some,
    Option.some.injEq] at h
  obtain ⟨more, closing, rest, rfl, condition, found, rfl⟩ := h
  obtain ⟨start, rfl⟩ := afterClosing?_eq_some closing
  exact recoloned_of_condition (List.append_assoc _ _ _).symm found (by decide)

theorem recoloned_of_bareElse {line out : Text} (start : Text) (h : bareElse line = some out) :
    Recoloned (start ++ line) out := by
  simp only [bareElse, Option.bind_eq_bind, Option.bind_eq_some_iff, after?_eq_some,
    Option.ite_none_right_eq_some, Option.some.injEq] at h
  obtain ⟨rest, rfl, brace, rfl⟩ := h
  obtain ⟨spaces, -, spelled⟩ := exists_append_trimLeft rest
  rw [brace] at spelled
  subst spelled
  exact ⟨⟨start ++ ("else" ++ spaces), by simp⟩, ⟨"else", rfl⟩,
    kept_signs (by decide)⟩

theorem recoloned_of_bracedElse {line out : Text} (h : bracedElse line = some out) :
    Recoloned line out := by
  simp only [bracedElse, Option.bind_eq_bind, Option.bind_eq_some_iff] at h
  obtain ⟨rest, closing, found⟩ := h
  obtain ⟨start, rfl⟩ := afterClosing?_eq_some closing
  exact recoloned_of_bareElse start found

theorem beforeStep?_eq_some {name line bound : Text} (h : beforeStep? name line = some bound) :
    ∃ step, line = bound ++ step ++ ['{'] := by
  simp only [beforeStep?, Option.bind_eq_bind, Option.bind_eq_some_iff, before?_eq_some,
    beforeOpening?_eq_some] at h
  obtain ⟨l₁, ⟨s₁, -, rfl⟩, l₂, rfl, l₃, plus, l₄, again, stop⟩ := h
  obtain ⟨s₂, -, whole₂⟩ := exists_trimRight_append l₂
  obtain ⟨s₃, -, whole₃⟩ := exists_trimRight_append l₃
  obtain ⟨s₄, -, whole₄⟩ := exists_trimRight_append l₄
  rw [whole₂, plus, whole₃, again, whole₄, stop]
  exact ⟨';' :: (s₄ ++ name ++ s₃ ++ ['+', '='] ++ s₂ ++ '1' :: ')' :: s₁), by simp⟩

theorem suffix_of_trimLeft {t start rest : Text} (h : trimLeft t = start ++ rest) : rest <:+ t := by
  obtain ⟨blanks, -, spelled⟩ := exists_append_trimLeft t
  exact ⟨blanks ++ start, by rw [spelled, h, List.append_assoc]⟩

theorem recoloned_of_bracedCounted {line out : Text} (h : bracedCounted line = some out) :
    Recoloned line out := by
  simp only [bracedCounted, Option.bind_eq_bind, Option.bind_eq_some_iff, Prod.exists,
    after?_eq_some, Option.some.injEq] at h
  obtain ⟨t₁, rfl, t₂, paren, t₃, rfl, t₄, skipped, name, t₅, named, t₆, equal, t₇, zero, t₈, again,
    t₉, below, bound, found, rfl⟩ := h
  obtain ⟨blanks, -, -, rfl⟩ := afterBlanks?_eq_some skipped
  obtain ⟨rfl, -⟩ := word?_eq_some named
  obtain ⟨spaces, tail, rfl, -, -, read, -, -⟩ := capturedAfterBlanks?_eq_some found
  obtain ⟨step, rfl⟩ := beforeStep?_eq_some read
  have start : name ++ t₅ <:+ "for" ++ t₁ :=
    ((List.suffix_append blanks _).trans (List.suffix_append "let" _)).trans
      ((suffix_of_trimLeft paren).trans (List.suffix_append "for" t₁))
  have tail : spaces ++ (bound ++ step ++ ['{']) <:+ "for" ++ t₁ :=
    (suffix_of_trimLeft below).trans <| (suffix_of_trimLeft again).trans <|
      (suffix_of_trimLeft zero).trans <| (suffix_of_trimLeft equal).trans <|
        (List.suffix_append name t₅).trans start
  have name' : ∀ c ∈ name, c ∈ "for" ++ t₁ := fun c member =>
    start.mem (List.mem_append_left t₅ member)
  have bound' : ∀ c ∈ bound, c ∈ "for" ++ t₁ := fun c member => tail.mem (by simp [member])
  refine ⟨?_, ⟨"for " ++ name ++ " in range(" ++ bound ++ [')'], by simp⟩, ?_⟩
  · obtain ⟨body, spelled⟩ := tail
    exact ⟨body ++ (spaces ++ (bound ++ step)), by rw [← spelled]; simp⟩
  · simp only [kept_append]
    exact ⟨⟨⟨⟨kept_signs (by decide), kept_part name'⟩, kept_signs (by decide)⟩,
      kept_part bound'⟩, kept_signs (by decide)⟩

theorem logCall_eq_some {line out : Text} (h : logCall line = some out) :
    ∃ arguments, line = "console.log(" ++ arguments ++ [')'] ∧ '\n' ∉ arguments ∧
      out = "print(" ++ arguments ++ [')'] := by
  simp only [logCall, Option.bind_eq_bind, Option.bind_eq_some_iff, after?_eq_some,
    before?_eq_some, Option.ite_none_left_eq_some, Option.some.injEq] at h
  obtain ⟨rest, rfl, arguments, rfl, single, rfl⟩ := h
  exact ⟨arguments, by simp, by simpa using single, rfl⟩

/-! ## Whole lines -/

/-- The rules that come before the constants. -/
def indentHeaders : List Rule :=
  [bracedFunction, bracedIf, bracedElseIf, bracedElse, bareElse, bracedWhile, bracedCounted,
    logCall]

theorem recoloned_or_logCall {rule : Rule} (member : rule ∈ indentHeaders) {line out : Text}
    (h : rule line = some out) : Recoloned line out ∨ logCall line = some out := by
  simp only [indentHeaders, List.mem_cons, List.not_mem_nil, or_false] at member
  rcases member with rfl | rfl | rfl | rfl | rfl | rfl | rfl | rfl
  · exact .inl (recoloned_of_bracedFunction h)
  · exact .inl (recoloned_of_bracedIf h)
  · exact .inl (recoloned_of_bracedElseIf h)
  · exact .inl (recoloned_of_bracedElse h)
  · exact .inl (recoloned_of_bareElse [] h)
  · exact .inl (recoloned_of_bracedWhile h)
  · exact .inl (recoloned_of_bracedCounted h)
  · exact .inr h

/-- No rule recognises what another one writes. -/
theorem indentHeaders_settled {line : Text} (single : '\n' ∉ line) :
    ∀ rule ∈ indentHeaders, ∀ out, rule line = some out →
      '\n' ∉ out ∧ ∀ later ∈ indentHeaders, later out = none := by
  intro rule member out h
  rcases recoloned_or_logCall member h with header | call
  · refine ⟨header.kept.not_mem single (by decide), fun later among => ?_⟩
    obtain ⟨body, rfl⟩ := header.colon
    rw [Option.eq_none_iff_forall_ne_some]
    intro more h'
    rcases recoloned_or_logCall among h' with again | call
    · obtain ⟨body', same⟩ := again.brace
      exact absurd (List.append_inj_right' same rfl) (by decide)
    · obtain ⟨arguments, same, -⟩ := logCall_eq_some call
      exact absurd (List.append_inj_right' same rfl) (by decide)
  · obtain ⟨arguments, rfl, inside, rfl⟩ := logCall_eq_some call
    refine ⟨by simpa using inside, fun later among => ?_⟩
    rw [Option.eq_none_iff_forall_ne_some]
    intro more h'
    rcases recoloned_or_logCall among h' with again | call'
    · obtain ⟨body', same⟩ := again.brace
      exact absurd (List.append_inj_right' same rfl) (by decide)
    · obtain ⟨arguments', same, -⟩ := logCall_eq_some call'
      simpa using congrArg List.head? same

/-- The constants of a line in the language of indentation. -/
def indentedConstants (line : Text) : Text :=
  replaceWord "null" "None" (replaceWord "false" "False" (replaceWord "true" "True" line))

theorem toIndentation_eq (line : Text) :
    toIndentation line = indentedConstants (indentHeaders.foldl applyRule line) :=
  rfl

/-! ## Lines that open a block -/

theorem opensColon_iff {t : Text} :
    opensColon t = true ↔ ∃ start spaces, Spaces spaces ∧ t = start ++ ':' :: spaces := by
  simp only [opensColon, beq_iff_eq]
  constructor
  · intro last
    obtain ⟨spaces, space, whole⟩ := exists_trimRight_append t
    obtain ⟨start, colon⟩ := List.getLast?_eq_some_iff.mp last
    exact ⟨start, spaces, space, by rw [whole, colon]; simp⟩
  · rintro ⟨start, spaces, space, rfl⟩
    rw [show start ++ ':' :: spaces = (start ++ [':']) ++ spaces by simp, trimRight_append space,
      trimRight_concat_of_solid (by decide), List.getLast?_concat]

theorem opensColon_append {spaces : Text} (space : Spaces spaces) (t : Text) :
    opensColon (t ++ spaces) = opensColon t := by
  rw [opensColon, opensColon, trimRight_append space]

theorem opensColon_concat {c : Char} (solid : isBlank c = false) (t : Text) :
    opensColon (t ++ [c]) = (c == ':') := by
  rw [opensColon, trimRight_concat_of_solid solid, List.getLast?_concat]
  rfl

/-- A constant ends in a letter, so a line opens a block with it as it did without it. -/
theorem opensColon_replaceWord {word replacement : Text} {r : Char} (some : word ≠ [])
    (letters : ∀ c ∈ word, isWord c) (last : replacement.getLast? = Option.some r)
    (letter : isWord r) (t : Text) :
    opensColon (replaceWord word replacement t) = opensColon t := by
  obtain ⟨spaces, space, whole⟩ := exists_trimRight_append t
  rw [whole, replaceWord_append_blank some letters space, opensColon_append space,
    opensColon_append space]
  rcases List.eq_nil_or_concat (trimRight t) with empty | ⟨start, c, spelled⟩
  · simp [empty, replaceWord_eq, replaceHits]
  have solid : isBlank c = false := by
    apply last_trimRight (t := t)
    rw [spelled, List.concat_eq_append, List.getLast?_concat]
  rw [spelled, List.concat_eq_append, opensColon_concat solid]
  by_cases colon : c = ':'
  · subst colon
    have outside : ':' ∉ word := fun member => absurd (letters _ member) (by decide)
    rw [replaceWord_concat some outside (by decide), opensColon_concat solid]
  · have other : r ≠ ':' := by
      rintro rfl
      exact absurd letter (by decide)
    rcases getLast?_replaceWord last start with same | same
    · obtain ⟨body, spelled'⟩ := List.getLast?_eq_some_iff.mp same
      rw [spelled', opensColon_concat solid]
    · obtain ⟨body, spelled'⟩ := List.getLast?_eq_some_iff.mp same
      rw [spelled', opensColon_concat (isBlank_of_isWord letter), beq_eq_false_iff_ne.mpr other,
        beq_eq_false_iff_ne.mpr colon]

theorem opensColon_indentedConstants (t : Text) :
    opensColon (indentedConstants t) = opensColon t := by
  have sign : isWord 'e' = true := by decide
  rw [indentedConstants, opensColon_replaceWord (by decide) (by decide) rfl sign,
    opensColon_replaceWord (by decide) (by decide) rfl sign,
    opensColon_replaceWord (by decide) (by decide) rfl sign]

theorem single_indentedConstants {t : Text} (single : '\n' ∉ t) : '\n' ∉ indentedConstants t := by
  refine not_mem_replaceWord (not_mem_replaceWord (not_mem_replaceWord single ?_) ?_) ?_
  all_goals decide

theorem single_toIndentation {line : Text} (single : '\n' ∉ line) : '\n' ∉ toIndentation line := by
  rw [toIndentation_eq]
  apply single_indentedConstants
  rcases foldl_applyRule single (indentHeaders_settled single) with ⟨same, -⟩ | ⟨rule, member, h⟩
  · rwa [same]
  · exact (indentHeaders_settled single rule member _ h).1

/-- A header in braces becomes a header with a colon. -/
theorem opensColon_of_header {line : Text} {rule : Rule} (single : '\n' ∉ line)
    (member : rule ∈ indentHeaders) (brace : line.getLast? = some '{') (known : (rule line).isSome) :
    opensColon (toIndentation line) = true := by
  rw [toIndentation_eq, opensColon_indentedConstants]
  rcases foldl_applyRule single (indentHeaders_settled single) with ⟨-, none⟩ | ⟨rule', among, h⟩
  · simp [none rule member] at known
  · rcases recoloned_or_logCall among h with header | call
    · obtain ⟨body, spelled⟩ := header.colon
      rw [spelled, opensColon_concat (by decide)]
      rfl
    · obtain ⟨arguments, spelled, -⟩ := logCall_eq_some call
      rw [spelled, List.getLast?_concat] at brace
      exact absurd brace (by decide)

/-- A line without an opening brace is no header, and opens a block only with its own colon. -/
theorem opensColon_of_braceless {line : Text} (single : '\n' ∉ line) (free : '{' ∉ line) :
    opensColon (toIndentation line) = opensColon line := by
  rw [toIndentation_eq, opensColon_indentedConstants]
  rcases foldl_applyRule single (indentHeaders_settled single) with ⟨same, -⟩ | ⟨rule, member, h⟩
  · rw [same]
  · rcases recoloned_or_logCall member h with header | call
    · obtain ⟨body, rfl⟩ := header.brace
      exact absurd (List.mem_append_right body List.mem_cons_self) free
    · obtain ⟨arguments, spelled, -, spelled'⟩ := logCall_eq_some call
      rw [spelled', opensColon_concat (by decide), spelled, opensColon_concat (by decide)]

end Recast.Blocks
