import Recast.Proofs.Blocks.Renaming

/-! # The two forms of a line

The lines that both lists of rules are made for, each with its form in either
language. Apart from the names of the constants, the rules of one side turn the one
form into the other, whatever stands in the expressions.
-/

namespace Recast.Blocks

open Text

/-- No white space stands at either end, and there is something between. -/
structure Solid (t : Text) : Prop where
  first : ∃ c, t.head? = some c ∧ isBlank c = false
  last : ∃ c, t.getLast? = some c ∧ isBlank c = false

/-- An expression, as far as a rule looks at it. -/
structure Expression where
  text : Text
  solid : Solid text
  single : '\n' ∉ text
  apart : ∀ c ∈ [';', '{', '}', ':'], text.getLast? ≠ some c

structure Identifier where
  text : Text
  known : IsName text

theorem Identifier.single (n : Identifier) : '\n' ∉ n.text := by
  intro member
  have letter := n.known.letters _ member
  revert letter
  decide

theorem Identifier.exists_first (n : Identifier) :
    ∃ c rest, n.text = c :: rest ∧ isBlank c = false := by
  obtain ⟨c, rest, spelled, -⟩ := n.known
  exact ⟨c, rest, spelled, isBlank_of_isWord (n.known.letters c (by simp [spelled]))⟩

structure Parameters where
  text : Text
  single : '\n' ∉ text
  closed : ')' ∉ text

inductive Line
  | assignment (name : Identifier) (value : Expression)
  | output (argument : Expression)
  | result (value : Expression)
  | function (name : Identifier) (parameters : Parameters)
  | loop (condition : Expression)
  | count (counter : Identifier) (bound : Expression)
  | choice (condition : Expression)
  | alternative (condition : Expression)
  | otherwise

/-- A counting loop in the language of braces. -/
def counting (name bound : Text) : Text :=
  "for" ++ ' ' :: '(' :: "let" ++ ' ' :: name ++ ' ' :: '=' :: ' ' :: "0" ++ ';' :: ' ' :: name
    ++ ' ' :: '<' :: ' ' :: bound ++ ';' :: ' ' :: name ++ ' ' :: '+' :: '=' :: ' ' :: "1"
    ++ [')', ' ', '{']

namespace Line

/-- Does the line open a block? -/
def opens : Line → Bool
  | assignment .. | output .. | result .. => false
  | _ => true

/-- The line in the language of indentation. -/
def text : Line → Text
  | assignment n e => n.text ++ ' ' :: '=' :: ' ' :: e.text
  | output e => "print" ++ '(' :: e.text ++ [')']
  | result e => "return" ++ ' ' :: e.text
  | function n ps => "def" ++ ' ' :: n.text ++ '(' :: ps.text ++ [')', ':']
  | loop e => "while" ++ ' ' :: e.text ++ [':']
  | count n e => "for" ++ ' ' :: n.text ++ ' ' :: "in" ++ ' ' :: "range" ++ '(' :: e.text ++ [')', ':']
  | choice e => "if" ++ ' ' :: e.text ++ [':']
  | alternative e => "elif" ++ ' ' :: e.text ++ [':']
  | otherwise => "else" ++ [':']

/-- The line in the language of braces. -/
def braced : Line → Text
  | assignment n e => n.text ++ ' ' :: '=' :: ' ' :: e.text ++ [';']
  | output e => "console" ++ '.' :: "log" ++ '(' :: e.text ++ [')', ';']
  | result e => "return" ++ ' ' :: e.text ++ [';']
  | function n ps => "function" ++ ' ' :: n.text ++ '(' :: ps.text ++ [')', ' ', '{']
  | loop e => opened "while" e.text
  | count n e => counting n.text e.text
  | choice e => opened "if" e.text
  | alternative e => opened ('}' :: ' ' :: "else" ++ ' ' :: "if") e.text
  | otherwise => '}' :: ' ' :: "else" ++ [' ', '{']

end Line

/-! ## Renamed lines -/

section

variable {f : Text → Text}

theorem Renaming.solid (h : Renaming f) {t : Text} (solid : Solid t) : Solid (f t) where
  first := by
    obtain ⟨c, first, blank⟩ := solid.first
    have some : f t ≠ [] := h.ne_nil (by rintro rfl; simp at first)
    obtain ⟨d, rest, spelled⟩ := List.exists_cons_of_ne_nil some
    refine ⟨d, by rw [spelled]; rfl, ?_⟩
    rcases h.head (by rw [spelled]; rfl) with same | letter
    · obtain rfl := Option.some.inj (first.symm.trans same)
      exact blank
    · exact isBlank_of_isWord letter
  last := by
    obtain ⟨c, last, blank⟩ := solid.last
    have some : f t ≠ [] := h.ne_nil (by rintro rfl; simp at last)
    obtain ⟨start, d, spelled⟩ := List.eq_nil_or_concat (f t) |>.resolve_left some
    have ends : (f t).getLast? = Option.some d := by
      rw [spelled, List.concat_eq_append, List.getLast?_concat]
    refine ⟨d, ends, ?_⟩
    rcases h.last ends with same | letter
    · obtain rfl := Option.some.inj (last.symm.trans same)
      exact blank
    · exact isBlank_of_isWord letter

def Expression.rename (h : Renaming f) (e : Expression) : Expression where
  text := f e.text
  solid := h.solid e.solid
  single member := e.single (h.mem_of_mem (by decide) member)
  apart c member last := by
    have solid : ∀ c ∈ [';', '{', '}', ':'], isWord c = false := by decide
    rcases h.last last with same | letter
    · exact e.apart c member same
    · simp [solid c member] at letter

def Identifier.rename (h : Renaming f) (n : Identifier) : Identifier where
  text := f n.text
  known := h.name n.text n.known

def Parameters.rename (h : Renaming f) (ps : Parameters) : Parameters where
  text := f ps.text
  single member := ps.single (h.mem_of_mem (by decide) member)
  closed member := ps.closed (h.mem_of_mem (by decide) member)

def Line.rename (h : Renaming f) : Line → Line
  | assignment n e => assignment (n.rename h) (e.rename h)
  | output e => output (e.rename h)
  | result e => result (e.rename h)
  | function n ps => function (n.rename h) (ps.rename h)
  | loop e => loop (e.rename h)
  | count n e => count (n.rename h) (e.rename h)
  | choice e => choice (e.rename h)
  | alternative e => alternative (e.rename h)
  | otherwise => otherwise

@[simp] theorem Line.opens_rename (h : Renaming f) (l : Line) : (l.rename h).opens = l.opens := by
  cases l <;> rfl

theorem Line.rename_text (h : Renaming f) (l : Line) : f l.text = (l.rename h).text := by
  have space : isWord ' ' = false := by decide
  have equals : isWord '=' = false := by decide
  have opening : isWord '(' = false := by decide
  have closing : isWord ')' = false := by decide
  have colon : isWord ':' = false := by decide
  unfold Line.text
  cases l <;>
    simp only [Line.rename, Expression.rename, Identifier.rename, Parameters.rename,
      List.append_assoc, List.cons_append]
  case assignment n e =>
    simp only [h.parts space, h.cons equals, h.cons space]
  case output e =>
    simp only [h.parts opening, h.parts closing, h.nil, h.keeps "print" (by decide)]
  case result e =>
    simp only [h.parts space, h.keeps "return" (by decide)]
  case function n ps =>
    simp only [h.parts space, h.parts opening, h.parts closing, h.cons colon, h.nil,
      h.keeps "def" (by decide)]
  case loop e =>
    simp only [h.parts space, h.parts colon, h.nil, h.keeps "while" (by decide)]
  case count n e =>
    simp only [h.parts space, h.parts opening, h.parts closing,
      h.cons colon, h.nil, h.keeps "for" (by decide), h.keeps "in" (by decide),
      h.keeps "range" (by decide)]
  case choice e =>
    simp only [h.parts space, h.parts colon, h.nil, h.keeps "if" (by decide)]
  case alternative e =>
    simp only [h.parts space, h.parts colon, h.nil, h.keeps "elif" (by decide)]
  case otherwise =>
    simp only [h.parts colon, h.nil, h.keeps "else" (by decide)]

theorem Line.rename_braced (h : Renaming f) (l : Line) : f l.braced = (l.rename h).braced := by
  have space : isWord ' ' = false := by decide
  have equals : isWord '=' = false := by decide
  have opening : isWord '(' = false := by decide
  have closing : isWord ')' = false := by decide
  have semicolon : isWord ';' = false := by decide
  have brace : isWord '{' = false := by decide
  have last : isWord '}' = false := by decide
  unfold Line.braced counting opened
  cases l <;>
    simp only [Line.rename, Expression.rename, Identifier.rename,
      Parameters.rename, List.append_assoc, List.cons_append]
  case assignment n e =>
    simp only [h.parts space, h.cons equals, h.cons space, h.parts semicolon, h.nil]
  case output e =>
    simp only [h.parts (c := '.') (by decide), h.parts opening, h.parts closing, h.cons semicolon, h.nil,
      h.keeps "console" (by decide), h.keeps "log" (by decide)]
  case result e =>
    simp only [h.parts space, h.parts semicolon, h.nil, h.keeps "return" (by decide)]
  case function n ps =>
    simp only [h.parts space, h.parts opening, h.parts closing, h.cons space, h.cons brace, h.nil,
      h.keeps "function" (by decide)]
  case loop e =>
    simp only [h.parts space, h.cons opening, h.parts closing, h.cons space, h.cons brace, h.nil,
      h.keeps "while" (by decide)]
  case count n e =>
    simp only [h.parts space, h.parts semicolon, h.parts closing, h.cons space, h.cons equals,
      h.cons opening, h.cons brace, h.cons (c := '<') (by decide), h.cons (c := '+') (by decide),
      h.nil, h.keeps "for" (by decide), h.keeps "let" (by decide), h.keeps "0" (by decide),
      h.keeps "1" (by decide)]
  case choice e =>
    simp only [h.parts space, h.cons opening, h.parts closing, h.cons space, h.cons brace, h.nil,
      h.keeps "if" (by decide)]
  case alternative e =>
    simp only [h.parts space, h.parts closing, h.cons space, h.cons last, h.cons opening,
      h.cons brace, h.nil, h.keeps "else" (by decide), h.keeps "if" (by decide)]
  case otherwise =>
    simp only [h.cons last, h.cons space, h.parts space, h.cons brace, h.nil, h.keeps "else" (by decide)]

end

/-! ## The ends of a line -/

namespace Line

theorem last_text_of_opens {l : Line} (opens : l.opens = true) : l.text.getLast? = some ':' := by
  unfold text
  cases l with
  | assignment n e => simp [Line.opens] at opens
  | output e => simp [Line.opens] at opens
  | result e => simp [Line.opens] at opens
  | _ => simp [List.getLast?_cons, List.getLast?_append]

theorem last_text_of_stays {l : Line} (stays : l.opens = false) :
    ∃ c, l.text.getLast? = some c ∧ isBlank c = false ∧ c ∉ [';', '{', '}', ':'] := by
  have ends (e : Expression) :
      ∃ c, e.text.getLast? = some c ∧ isBlank c = false ∧ c ∉ [';', '{', '}', ':'] := by
    obtain ⟨c, last, solid⟩ := e.solid.last
    exact ⟨c, last, solid, fun member => e.apart c member last⟩
  unfold text
  cases l with
  | assignment n e =>
      obtain ⟨c, last, apart⟩ := ends e
      exact ⟨c, by simp [List.getLast?_cons, List.getLast?_append, last], apart⟩
  | output e =>
      exact ⟨')', by simp [List.getLast?_cons, List.getLast?_append], by decide, by decide⟩
  | result e =>
      obtain ⟨c, last, apart⟩ := ends e
      exact ⟨c, by simp [List.getLast?_cons, last], apart⟩
  | _ => simp [Line.opens] at stays

theorem last_braced (l : Line) : l.braced.getLast? = some (if l.opens then '{' else ';') := by
  unfold braced counting opened
  cases l <;> simp [Line.opens, List.getLast?_cons, List.getLast?_append]

theorem solid_text (l : Line) : Solid l.text where
  first := by
    unfold text
    cases l with
    | assignment n e =>
        obtain ⟨c, rest, spelled, solid⟩ := n.exists_first
        exact ⟨c, by simp [spelled], solid⟩
    | output e => exact ⟨'p', by simp, by decide⟩
    | result e => exact ⟨'r', by simp, by decide⟩
    | function n ps => exact ⟨'d', by simp, by decide⟩
    | loop e => exact ⟨'w', by simp, by decide⟩
    | count n e => exact ⟨'f', by simp, by decide⟩
    | choice e => exact ⟨'i', by simp, by decide⟩
    | alternative e => exact ⟨'e', by simp, by decide⟩
    | otherwise => exact ⟨'e', by simp, by decide⟩
  last := by
    cases opens : l.opens with
    | false =>
        obtain ⟨c, last, solid, -⟩ := last_text_of_stays opens
        exact ⟨c, last, solid⟩
    | true => exact ⟨':', last_text_of_opens opens, by decide⟩

theorem first_braced (l : Line) : ∃ c, l.braced.head? = some c ∧ isBlank c = false := by
  unfold braced counting opened
  cases l with
  | assignment n e =>
      obtain ⟨c, rest, spelled, solid⟩ := n.exists_first
      exact ⟨c, by simp [spelled], solid⟩
  | output e => exact ⟨'c', by simp, by decide⟩
  | result e => exact ⟨'r', by simp, by decide⟩
  | function n ps => exact ⟨'f', by simp, by decide⟩
  | loop e => exact ⟨'w', by simp, by decide⟩
  | count n e => exact ⟨'f', by simp, by decide⟩
  | choice e => exact ⟨'i', by simp, by decide⟩
  | alternative e => exact ⟨'}', by simp, by decide⟩
  | otherwise => exact ⟨'}', by simp, by decide⟩

theorem solid_braced (l : Line) : Solid l.braced where
  first := l.first_braced
  last := by
    refine ⟨_, l.last_braced, ?_⟩
    split <;> decide

theorem single_text (l : Line) : '\n' ∉ l.text := by
  unfold text
  cases l <;> simp [Identifier.single, Expression.single, Parameters.single]

theorem single_braced (l : Line) : '\n' ∉ l.braced := by
  unfold braced counting opened
  cases l <;> simp [Identifier.single, Expression.single, Parameters.single]

end Line

end Recast.Blocks
