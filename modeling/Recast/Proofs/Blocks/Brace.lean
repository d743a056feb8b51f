import Recast.Blocks.Brace
import Recast.Proofs.Blocks.Rule
import Recast.Proofs.Text.Boundary

/-! # What the rules toward braces write

The spelling of each line that a rule recognises, and of what the rule makes of it.
Only the block headers write braces.
-/

namespace Recast.Blocks

open Text

theorem functionHeader_eq_some {line out : Text} (h : functionHeader line = some out) :
    ∃ blanks name parameters : Text,
      line = "def" ++ blanks ++ name ++ '(' :: parameters ++ [')'] ++ [':'] ∧
        out = "function " ++ name ++ '(' :: parameters ++ [')', ' '] ++ ['{'] := by
  simp only [functionHeader, Option.bind_eq_bind, Option.bind_eq_some_iff, Prod.exists,
    Option.ite_none_right_eq_some, Option.some.injEq, after?_eq_some, parameters?_eq_some] at h
  obtain ⟨start, rfl, rest, skipped, name, tail, named, parameters, colon, ⟨rfl, -⟩, rfl, rfl⟩ := h
  obtain ⟨blanks, -, -, rfl⟩ := afterBlanks?_eq_some skipped
  obtain rfl := name?_eq_some named
  exact ⟨blanks, name, parameters, by simp, by simp⟩

theorem conditionHeader_eq_some {keyword line out : Text} {form : Text → Text}
    (h : conditionHeader keyword form line = some out) :
    ∃ blanks condition, blanks ≠ [] ∧ (∀ c ∈ blanks, isBlank c) ∧ condition ≠ [] ∧
      '\n' ∉ condition ∧ line = keyword ++ blanks ++ condition ++ [':'] ∧
        out = form condition := by
  simp only [conditionHeader, Option.bind_eq_bind, Option.bind_eq_some_iff, after?_eq_some,
    Option.map_eq_map, Option.map_eq_some_iff] at h
  obtain ⟨rest, rfl, condition, captured, rfl⟩ := h
  obtain ⟨blanks, tail, rfl, blank, enough, ended, some, single⟩ :=
    capturedAfterBlanks?_eq_some captured
  obtain rfl := before?_eq_some.mp ended
  exact ⟨blanks, condition, List.ne_nil_of_length_pos enough, blank, some, single, by simp, rfl⟩

theorem isSome_conditionHeader {keyword blanks condition : Text} {form : Text → Text}
    (some : blanks ≠ []) (blank : ∀ c ∈ blanks, isBlank c) (told : condition ≠ [])
    (single : '\n' ∉ condition) :
    (conditionHeader keyword form (keyword ++ blanks ++ condition ++ [':'])).isSome := by
  have captured := isSome_capturedAfterBlanks? 1 (before? [':']) rfl blank
    (List.length_pos_of_ne_nil some) (before?_eq_some.mpr rfl) told single
  obtain ⟨out, h⟩ := Option.isSome_iff_exists.mp captured
  simp [conditionHeader, List.append_assoc, h]

theorem elseHeader_eq_some {line out : Text} :
    elseHeader line = some out ↔ line = "else:" ∧ out = "\x7d else \x7b".toList := by
  simp only [elseHeader, Option.ite_none_right_eq_some, Option.some.injEq, eq_comm (a := out)]

theorem countedHeader_eq_some {line out : Text} (h : countedHeader line = some out) :
    ∃ name spaces bound : Text,
      line = "for" ++ spaces ++ bound ++ [')'] ++ [':'] ∧ (∀ c ∈ name, c ∈ spaces) ∧
        out = "for (let " ++ name ++ " = 0; " ++ name ++ " < " ++ bound ++ "; " ++ name
          ++ " += 1) " ++ ['{'] := by
  simp only [countedHeader, Option.bind_eq_bind, Option.bind_eq_some_iff, Prod.exists,
    after?_eq_some, before?_eq_some, captured?_eq_some, Option.some.injEq] at h
  obtain ⟨start, rfl, rest, skipped, name, tail, named, tail', skipped', mid, rfl, rest', last,
    call, rfl, whole, rfl, bound, ⟨rfl, -⟩, rfl⟩ := h
  obtain ⟨one, -, -, rfl⟩ := afterBlanks?_eq_some skipped
  obtain ⟨rfl, -⟩ := word?_eq_some named
  obtain ⟨two, -, -, rfl⟩ := afterBlanks?_eq_some skipped'
  obtain ⟨three, -, -, rfl⟩ := afterBlanks?_eq_some last
  exact ⟨name, one ++ name ++ two ++ "in" ++ three ++ "range(", bound, by simp,
    fun c member => by simp [member], rfl⟩

theorem printCall_eq_some {line out : Text} (h : printCall line = some out) :
    ∃ arguments : Text, line = "print(" ++ arguments ++ [')'] ∧
      out = "console.log(" ++ arguments ++ [')'] ++ [';'] := by
  simp only [printCall, Option.bind_eq_bind, Option.bind_eq_some_iff, after?_eq_some,
    before?_eq_some, Option.ite_none_left_eq_some, Option.some.injEq] at h
  obtain ⟨rest, rfl, arguments, rfl, -, rfl⟩ := h
  exact ⟨arguments, by simp, by simp⟩

theorem returnValue_eq_some {line out : Text} (h : returnValue line = some out) :
    ∃ blanks value, line = "return" ++ blanks ++ value ∧ out = "return " ++ value ++ [';'] := by
  simp only [returnValue, Option.bind_eq_bind, Option.bind_eq_some_iff, after?_eq_some,
    Option.some.injEq] at h
  obtain ⟨rest, rfl, value, captured, rfl⟩ := h
  obtain ⟨blanks, tail, rfl, -, -, same, -⟩ := capturedAfterBlanks?_eq_some captured
  obtain rfl := Option.some.inj same
  exact ⟨blanks, tail, by simp, rfl⟩

/-! ## Whole lines -/

/-- No brace occurs in the text. -/
def Braceless (t : Text) : Prop := '{' ∉ t ∧ '}' ∉ t

instance (t : Text) : Decidable (Braceless t) := inferInstanceAs (Decidable (_ ∧ _))

theorem Braceless.mono {s t : Text} (free : Braceless t) (inside : ∀ c ∈ s, c ∈ t) :
    Braceless s :=
  ⟨fun member => free.1 (inside _ member), fun member => free.2 (inside _ member)⟩

/-- The rules that come before the constants. -/
def braceHeaders : List Rule :=
  [functionHeader, conditionHeader "if" (opened "if"),
    conditionHeader "elif" (opened ('}' :: " else if")), elseHeader, countedHeader,
    conditionHeader "while" (opened "while"), printCall]

/-- The constants of a line in the language of braces. -/
def bracedConstants (line : Text) : Text :=
  replaceWord "None" "null" (replaceWord "False" "false" (replaceWord "True" "true" line))

theorem toBraces_eq (line : Text) :
    toBraces line = applyRule (bracedConstants (braceHeaders.foldl applyRule line)) returnValue :=
  rfl

/-- The headers that go on with the block before them: `else:`, and `elif` with white space,
    a condition and a colon. -/
def Continuation (line : Text) : Prop :=
  line = "else:" ∨ ∃ blanks condition, blanks ≠ [] ∧ (∀ c ∈ blanks, isBlank c) ∧
    condition ≠ [] ∧ '\n' ∉ condition ∧ line = "elif" ++ blanks ++ condition ++ [':']

theorem continuation_iff_isSome {line : Text} (form : Text → Text) :
    Continuation line ↔ (elseHeader line).isSome ∨ (conditionHeader "elif" form line).isSome := by
  constructor
  · rintro (rfl | ⟨blanks, condition, some, blank, told, single, rfl⟩)
    · exact .inl rfl
    · exact .inr (isSome_conditionHeader some blank told single)
  · rintro (h | h)
    · obtain ⟨out, h⟩ := Option.isSome_iff_exists.mp h
      exact .inl (elseHeader_eq_some.mp h).1
    · obtain ⟨out, h⟩ := Option.isSome_iff_exists.mp h
      obtain ⟨blanks, condition, some, blank, told, single, rfl, -⟩ := conditionHeader_eq_some h
      exact .inr ⟨blanks, condition, some, blank, told, single, rfl⟩

instance (line : Text) : Decidable (Continuation line) :=
  decidable_of_iff _ (continuation_iff_isSome id).symm

theorem Continuation.head {line : Text} (h : Continuation line) : line.head? = some 'e' := by
  rcases h with rfl | ⟨blanks, condition, -, -, -, -, rfl⟩ <;> rfl

/-- The signs that the headers add to what they keep of a line, braces aside. -/
def headerSigns : Text := "function if else for (let = 0; < += 1) while console.log("

/-- What a rule writes: `mark`, a text without new braces, and the sign `close`. -/
structure Written (line mark : Text) (close : Char) (out : Text) : Prop where
  spelled : ∃ body, out = mark ++ body ++ [close] ∧ Kept headerSigns line body
  head : ∃ c ∈ ['f', 'i', 'w', 'c', '}'], out.head? = some c

theorem written_opened {line keyword condition : Text} (mark : Text) {first : Char}
    (head : (mark ++ keyword).head? = some first) (known : first ∈ ['f', 'i', 'w', 'c', '}'])
    (signs : ∀ c ∈ keyword, c ∈ headerSigns) (inside : ∀ c ∈ condition, c ∈ line) :
    Written line mark '{' (opened (mark ++ keyword) condition) where
  spelled := by
    refine ⟨keyword ++ [' ', '('] ++ condition ++ [')', ' '], by simp [opened], ?_⟩
    simp only [kept_append]
    exact ⟨⟨⟨kept_signs signs, kept_signs (by decide)⟩, kept_part inside⟩, kept_signs (by decide)⟩
  head := by
    refine ⟨first, known, ?_⟩
    cases whole : mark ++ keyword with
    | nil => simp [whole] at head
    | cons c rest => simpa [opened, whole] using head

theorem written_function (blanks name parameters : Text) :
    Written ("def" ++ blanks ++ name ++ '(' :: parameters ++ [')'] ++ [':']) [] '{'
      ("function " ++ name ++ '(' :: parameters ++ [')', ' '] ++ ['{']) where
  spelled := by
    refine ⟨"function " ++ name ++ '(' :: parameters ++ [')', ' '], rfl, ?_⟩
    rw [← List.singleton_append]
    simp only [kept_append]
    exact ⟨⟨⟨kept_signs (by decide), kept_part (by simp +contextual)⟩, kept_signs (by decide),
      kept_part (by simp +contextual)⟩, kept_signs (by decide)⟩
  head := ⟨'f', by decide, rfl⟩

theorem written_counted {name spaces bound : Text} (inside : ∀ c ∈ name, c ∈ spaces) :
    Written ("for" ++ spaces ++ bound ++ [')'] ++ [':']) [] '{'
      ("for (let " ++ name ++ " = 0; " ++ name ++ " < " ++ bound ++ "; " ++ name ++ " += 1) "
        ++ ['{']) where
  spelled := by
    refine ⟨"for (let " ++ name ++ " = 0; " ++ name ++ " < " ++ bound ++ "; " ++ name
      ++ " += 1) ", rfl, ?_⟩
    have named : Kept headerSigns ("for" ++ spaces ++ bound ++ [')'] ++ [':']) name :=
      kept_part fun c member => by simp [inside c member]
    have bounded : Kept headerSigns ("for" ++ spaces ++ bound ++ [')'] ++ [':']) bound :=
      kept_part (by simp +contextual)
    simp only [kept_append, named, bounded, and_true]
    refine ⟨⟨⟨⟨?_, ?_⟩, ?_⟩, ?_⟩, ?_⟩ <;> exact kept_signs (by decide)
  head := ⟨'f', by decide, rfl⟩

theorem written_print (arguments : Text) :
    Written ("print(" ++ arguments ++ [')']) [] ';'
      ("console.log(" ++ arguments ++ [')'] ++ [';']) where
  spelled := by
    refine ⟨"console.log(" ++ arguments ++ [')'], rfl, ?_⟩
    simp only [kept_append]
    exact ⟨⟨kept_signs (by decide), kept_part (by simp +contextual)⟩, kept_signs (by decide)⟩
  head := ⟨'c', by decide, rfl⟩

/-- Each rule of the list: where the line ends that it recognises, and what it writes. -/
theorem written_of_braceHeader {rule : Rule} {line out : Text} (member : rule ∈ braceHeaders)
    (h : rule line = some out) :
    (line.getLast? = some ':' ∨ line.getLast? = some ')') ∧
      (Continuation line ∧ Written line ['}'] '{' out ∨
        ¬ Continuation line ∧ (Written line [] '{' out ∨ Written line [] ';' out)) := by
  have other {l : Text} (head : l.head? ≠ some 'e') : ¬ Continuation l := fun goes => head goes.head
  simp only [braceHeaders, List.mem_cons, List.not_mem_nil, or_false] at member
  rcases member with rfl | rfl | rfl | rfl | rfl | rfl | rfl
  · obtain ⟨blanks, name, parameters, rfl, rfl⟩ := functionHeader_eq_some h
    exact ⟨.inl List.getLast?_concat,
      .inr ⟨other (by simp), .inl (written_function blanks name parameters)⟩⟩
  · obtain ⟨blanks, condition, -, -, -, -, rfl, rfl⟩ := conditionHeader_eq_some h
    exact ⟨.inl List.getLast?_concat, .inr ⟨other (by simp),
      .inl (written_opened [] rfl (by decide) (by decide) (by simp +contextual))⟩⟩
  · have goes : Continuation line :=
      (continuation_iff_isSome _).mpr (.inr (Option.isSome_of_eq_some h))
    obtain ⟨blanks, condition, -, -, -, -, rfl, rfl⟩ := conditionHeader_eq_some h
    exact ⟨.inl List.getLast?_concat, .inl ⟨goes,
      written_opened ['}'] rfl (by decide) (by decide) (by simp +contextual)⟩⟩
  · obtain ⟨rfl, rfl⟩ := elseHeader_eq_some.mp h
    exact ⟨.inl rfl, .inl ⟨.inl rfl, ⟨" else ", rfl, kept_signs (by decide)⟩, '}', by decide, rfl⟩⟩
  · obtain ⟨name, spaces, bound, rfl, inside, rfl⟩ := countedHeader_eq_some h
    exact ⟨.inl List.getLast?_concat, .inr ⟨other (by simp), .inl (written_counted inside)⟩⟩
  · obtain ⟨blanks, condition, -, -, -, -, rfl, rfl⟩ := conditionHeader_eq_some h
    exact ⟨.inl List.getLast?_concat, .inr ⟨other (by simp),
      .inl (written_opened [] rfl (by decide) (by decide) (by simp +contextual))⟩⟩
  · obtain ⟨arguments, rfl, rfl⟩ := printCall_eq_some h
    exact ⟨.inr List.getLast?_concat, .inr ⟨other (by simp), .inr (written_print arguments)⟩⟩

theorem Written.last {line mark out : Text} {close : Char} (h : Written line mark close out) :
    out.getLast? = some close := by
  obtain ⟨body, rfl, -⟩ := h.spelled
  exact List.getLast?_concat

theorem Written.single {line mark out : Text} {close : Char} (h : Written line mark close out)
    (single : '\n' ∉ line) (plain : '\n' ∉ mark ++ [close]) : '\n' ∉ out := by
  obtain ⟨body, rfl, kept⟩ := h.spelled
  have inside : '\n' ∉ body := kept.not_mem single (by decide)
  simp only [List.mem_append, not_or] at plain ⊢
  exact ⟨⟨plain.1, inside⟩, plain.2⟩

theorem Written.braceless {line mark out : Text} {close : Char} (h : Written line mark close out)
    (free : Braceless line) : ∃ body, Braceless body ∧ out = mark ++ body ++ [close] := by
  obtain ⟨body, spelled, kept⟩ := h.spelled
  exact ⟨body, ⟨kept.not_mem free.1 (by decide), kept.not_mem free.2 (by decide)⟩, spelled⟩

/-- No rule of the list recognises what another one wrote. -/
theorem braceHeaders_settled {line : Text} (single : '\n' ∉ line) :
    ∀ rule ∈ braceHeaders, ∀ out, rule line = some out →
      '\n' ∉ out ∧ ∀ later ∈ braceHeaders, later out = none := by
  intro rule member out h
  have written : ∃ mark close, Written line mark close out ∧ '\n' ∉ mark ++ [close] ∧
      close ≠ ':' ∧ close ≠ ')' := by
    rcases (written_of_braceHeader member h).2 with ⟨-, w⟩ | ⟨-, w | w⟩
    · exact ⟨_, _, w, by decide⟩
    · exact ⟨_, _, w, by decide⟩
    · exact ⟨_, _, w, by decide⟩
  obtain ⟨mark, close, w, plain, notColon, notParen⟩ := written
  refine ⟨w.single single plain, fun later among => ?_⟩
  rw [Option.eq_none_iff_forall_ne_some]
  intro more h'
  rcases (written_of_braceHeader among h').1 with last | last <;>
    simp_all [w.last]

/-- After `mark` a text without braces, then an opening brace; no constant and no `return`
    stands at the start. -/
structure Opens (mark out : Text) : Prop where
  spelled : ∃ body, Braceless body ∧ out = mark ++ body ++ ['{']
  head : ∃ c ∈ ['f', 'i', 'w', 'c', '}'], out.head? = some c

theorem Braceless.replaceWord {word replacement t : Text} (free : Braceless t)
    (new : Braceless replacement) : Braceless (replaceWord word replacement t) :=
  ⟨not_mem_replaceWord free.1 new.1, not_mem_replaceWord free.2 new.2⟩

theorem Opens.replaceWord {w : Char} {word replacement mark out : Text} (h : Opens mark out)
    (known : mark = [] ∨ mark = ['}']) (outside : Braceless (w :: word))
    (other : w ∉ ['f', 'i', 'w', 'c', '}']) (new : Braceless replacement) :
    Opens mark (replaceWord (w :: word) replacement out) where
  spelled := by
    obtain ⟨body, free, rfl⟩ := h.spelled
    refine ⟨Text.replaceWord (w :: word) replacement body, free.replaceWord new, ?_⟩
    rw [replaceWord_concat (List.cons_ne_nil w word) outside.1 (by decide)]
    rcases known with rfl | rfl
    · rfl
    · rw [List.singleton_append, replaceWord_cons (List.cons_ne_nil w word) outside.2 (by decide)]
      rfl
  head := by
    obtain ⟨c, listed, first⟩ := h.head
    cases out with
    | nil => simp at first
    | cons d rest =>
        obtain rfl : d = c := by simpa using first
        exact ⟨d, listed, head?_replaceWord (fun same => other (by rw [same]; exact listed)) rest⟩

theorem single_bracedConstants {t : Text} (single : '\n' ∉ t) : '\n' ∉ bracedConstants t := by
  refine not_mem_replaceWord (not_mem_replaceWord (not_mem_replaceWord single ?_) ?_) ?_
  all_goals decide

/-- What the constants and `return` come to, once the headers are done. -/
def finished (t : Text) : Text := applyRule (bracedConstants t) returnValue

theorem Braceless.finished {t : Text} (free : Braceless t) (single : '\n' ∉ t) :
    Braceless (finished t) := by
  have constants : Braceless (bracedConstants t) :=
    ((free.replaceWord (by decide)).replaceWord (by decide)).replaceWord (by decide)
  rw [Blocks.finished, applyRule_eq (single_bracedConstants single)]
  cases h : returnValue (bracedConstants t) with
  | none => exact constants
  | some out =>
      obtain ⟨blanks, value, spelled, rfl⟩ := returnValue_eq_some h
      have inside : Braceless value :=
        constants.mono fun c member => by simp [spelled, member]
      simpa [Braceless] using inside

theorem Opens.finished {mark t : Text} (h : Opens mark t) (known : mark = [] ∨ mark = ['}'])
    (single : '\n' ∉ t) : Opens mark (finished t) := by
  have constants : Opens mark (bracedConstants t) :=
    ((h.replaceWord known (by decide) (by decide) (by decide)).replaceWord known (by decide)
      (by decide) (by decide)).replaceWord known (by decide) (by decide) (by decide)
  rw [Blocks.finished, applyRule_eq (single_bracedConstants single)]
  cases found : returnValue (bracedConstants t) with
  | none => exact constants
  | some out =>
      obtain ⟨blanks, value, spelled, -⟩ := returnValue_eq_some found
      obtain ⟨c, listed, first⟩ := constants.head
      have letter : c = 'r' := by simpa [spelled, eq_comm] using first
      exact absurd (letter ▸ listed) (by decide)

theorem Opens.opensBrace {mark t : Text} (h : Opens mark t) : opensBrace t = true := by
  obtain ⟨body, -, rfl⟩ := h.spelled
  simp only [Blocks.opensBrace, trimRight_concat_of_solid (show isBlank '{' = false by decide),
    List.getLast?_concat, beq_self_eq_true]

theorem Braceless.opensBrace {t : Text} (free : Braceless t) : opensBrace t = false := by
  simp only [Blocks.opensBrace, beq_eq_false_iff_ne]
  intro last
  exact free.1 (mem_of_mem_trimRight (List.mem_of_getLast? last))

/-- What a line without braces becomes: a line without braces, a line that opens a block, or
    for a continuation one that closes a block and opens another. -/
theorem toBraces_cases {line : Text} (free : Braceless line) (single : '\n' ∉ line) :
    (¬ Continuation line ∧ Braceless (toBraces line)) ∨
      (¬ Continuation line ∧ Opens [] (toBraces line)) ∨
      (Continuation line ∧ Opens ['}'] (toBraces line)) := by
  have reshaped : toBraces line = finished (braceHeaders.foldl applyRule line) := toBraces_eq line
  rcases foldl_applyRule single (braceHeaders_settled single) with ⟨same, none⟩ | ⟨rule, member, h⟩
  · have apart : ¬ Continuation line := by
      intro goes
      rcases (continuation_iff_isSome (opened ('}' :: " else if"))).mp goes with h | h
      · rw [none elseHeader (by simp [braceHeaders])] at h
        simp at h
      · have quiet := none (conditionHeader "elif" (opened ('}' :: " else if")))
          (by simp [braceHeaders])
        rw [quiet] at h
        simp at h
    exact .inl ⟨apart, by rw [reshaped, same]; exact free.finished single⟩
  · have quiet := (braceHeaders_settled single rule member _ h).1
    rw [reshaped]
    rcases (written_of_braceHeader member h).2 with ⟨goes, w⟩ | ⟨apart, w | w⟩
    · exact .inr (.inr ⟨goes, Opens.finished ⟨w.braceless free, w.head⟩ (.inr rfl) quiet⟩)
    · exact .inr (.inl ⟨apart, Opens.finished ⟨w.braceless free, w.head⟩ (.inl rfl) quiet⟩)
    · obtain ⟨body, inside, spelled⟩ := w.braceless free
      have whole : Braceless (braceHeaders.foldl applyRule line) := by
        simpa [spelled, Braceless] using inside
      exact .inl ⟨apart, whole.finished quiet⟩

/-! ## Lines of a text -/

theorem single_trim {raw : Text} (single : '\n' ∉ raw) : '\n' ∉ trim raw :=
  fun member => single (mem_of_mem_trim member)

theorem mem_of_mem_lines {t raw : Text} {c : Char} (member : raw ∈ lines t) (inside : c ∈ raw) :
    c ∈ t ∨ c = '\n' := by
  simpa using mem_replace (mem_of_mem_splitOn member inside)

theorem single_of_mem_lines {t raw : Text} (member : raw ∈ lines t) : '\n' ∉ raw :=
  not_mem_of_mem_splitOn member

theorem braceless_of_mem_lines {t raw : Text} (free : Braceless t) (member : raw ∈ lines t) :
    Braceless raw :=
  ⟨fun inside => (mem_of_mem_lines member inside).elim free.1 (by decide),
    fun inside => (mem_of_mem_lines member inside).elim free.2 (by decide)⟩

end Recast.Blocks
