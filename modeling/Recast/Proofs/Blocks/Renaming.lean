import Recast.Proofs.Blocks.Brace
import Recast.Proofs.Blocks.Indent

/-! # Renaming the words of a line

The three constants have other names on the other side. A renaming gives every run of
word characters a new run and keeps all other characters, and it keeps the keywords, so
it can be pushed through the parts of a line.
-/

namespace Recast.Blocks

open Text

/-- The words that the two languages and their rules are made of. -/
def keywords : List Text :=
  ["print", "return", "def", "while", "for", "in", "range", "if", "elif", "else", "console", "log",
    "function", "let", "0", "1"]

structure Renaming (f : Text → Text) : Prop where
  parts : ∀ {c}, isWord c = false → ∀ s t, f (s ++ c :: t) = f s ++ c :: f t
  nil : f [] = []
  letters : ∀ run, (∀ c ∈ run, isWord c) → ∀ c ∈ f run, isWord c
  some : ∀ run, (∀ c ∈ run, isWord c) → run ≠ [] → f run ≠ []
  name : ∀ run, IsName run → IsName (f run)
  keeps : ∀ word ∈ keywords, f word = word

namespace Renaming

variable {f g : Text → Text}

theorem cons (h : Renaming f) {c : Char} (solid : isWord c = false) (t : Text) :
    f (c :: t) = c :: f t := by
  simpa [h.nil] using h.parts solid [] t

theorem comp (hf : Renaming f) (hg : Renaming g) : Renaming (f ∘ g) where
  parts solid s t := by
    rw [Function.comp_apply, hg.parts solid, hf.parts solid]
    rfl
  nil := by rw [Function.comp_apply, hg.nil, hf.nil]
  letters run all := hf.letters _ (hg.letters run all)
  some run all known := hf.some _ (hg.letters run all) (hg.some run all known)
  name run known := hf.name _ (hg.name run known)
  keeps word member := by rw [Function.comp_apply, hg.keeps word member, hf.keeps word member]

/-- Signs stay, and no new ones come. -/
theorem mem_of_mem (h : Renaming f) {c : Char} (solid : isWord c = false) {t : Text}
    (member : c ∈ f t) : c ∈ t := by
  induction t using runInduction with
  | run run letters =>
      have letter := h.letters run letters c member
      simp [solid] at letter
  | more run d rest letters other ih =>
      rw [h.parts other] at member
      rcases List.mem_append.mp member with inside | later
      · have letter := h.letters run letters c inside
        simp [solid] at letter
      · rcases List.mem_cons.mp later with rfl | deeper
        · exact List.mem_append_right run List.mem_cons_self
        · exact List.mem_append_right run (List.mem_cons_of_mem d (ih deeper))

theorem ne_nil (h : Renaming f) {t : Text} (some : t ≠ []) : f t ≠ [] := by
  induction t using runInduction with
  | run run letters => exact h.some run letters some
  | more run c rest letters solid _ =>
      rw [h.parts solid]
      simp

/-- The first character stays or is part of a word. -/
theorem head (h : Renaming f) {t : Text} {c : Char} (first : (f t).head? = Option.some c) :
    t.head? = Option.some c ∨ isWord c = true := by
  induction t using runInduction with
  | run run letters => exact .inr (h.letters run letters c (List.mem_of_head? first))
  | more run d rest letters solid _ =>
      rw [h.parts solid] at first
      cases run with
      | nil =>
          rw [h.nil] at first
          exact .inl first
      | cons e run =>
          obtain ⟨x, more, spelled⟩ := List.exists_cons_of_ne_nil (h.some _ letters (by simp))
          refine .inr (h.letters _ letters c ?_)
          rw [spelled] at first ⊢
          exact List.mem_of_head? first

/-- The last character stays or is part of a word. -/
theorem last (h : Renaming f) {t : Text} {c : Char} (ends : (f t).getLast? = Option.some c) :
    t.getLast? = Option.some c ∨ isWord c = true := by
  induction t using runInduction with
  | run run letters => exact .inr (h.letters run letters c (List.mem_of_getLast? ends))
  | more run d rest letters solid ih =>
      rw [h.parts solid] at ends
      cases rest with
      | nil =>
          rw [h.nil] at ends
          simp only [List.getLast?_append, List.getLast?_singleton, Option.some_or,
            Option.some.injEq] at ends ⊢
          exact .inl ends
      | cons e rest =>
          have more := h.ne_nil (List.cons_ne_nil e rest)
          have inner {t : Text} (filled : t ≠ []) (s : Text) :
              (s ++ d :: t).getLast? = t.getLast? := by
            obtain ⟨start, x, rfl⟩ := List.eq_nil_or_concat t |>.resolve_left filled
            simp [List.getLast?_append, List.getLast?_cons]
          rw [inner more] at ends
          rw [inner (List.cons_ne_nil e rest)]
          exact ih ends

end Renaming

/-! ## The constants -/

/-- A run of letters. -/
abbrev Letters (word : Text) : Prop := word ≠ [] ∧ ∀ c ∈ word, c.isAlpha = true

theorem Letters.isWord {word : Text} (h : Letters word) : ∀ c ∈ word, isWord c :=
  fun c member => isWord_of_isAlpha (h.2 c member)

theorem Letters.isName {word : Text} (h : Letters word) : IsName word := by
  obtain ⟨c, rest, rfl⟩ := List.exists_cons_of_ne_nil h.1
  refine ⟨c, rest, rfl, by simp [h.2 c List.mem_cons_self], fun d member => ?_⟩
  exact h.isWord d (List.mem_cons_of_mem c member)

theorem renaming_replaceWord {word new : Text} (old : Letters word) (named : Letters new)
    (free : word ∉ keywords) : Renaming (replaceWord word new) := by
  have apart {c : Char} (solid : isWord c = false) : c ∉ word := fun member => by
    simp [old.isWord c member] at solid
  have onRun {run : Text} (letters : ∀ c ∈ run, isWord c) :
      replaceWord word new run = if run = word then new else run := replaceWord_run old.1 letters
  refine ⟨fun solid => replaceWord_append_cons old.1 (apart solid) solid, rfl, ?_, ?_, ?_, ?_⟩
  · intro run letters
    rw [onRun letters]
    split
    · exact named.isWord
    · exact letters
  · intro run letters filled
    rw [onRun letters]
    split
    · exact named.1
    · exact filled
  · intro run known
    rw [onRun known.letters]
    split
    · exact named.isName
    · exact known
  · intro keyword member
    have all : ∀ keyword ∈ keywords, ∀ c ∈ keyword, isWord c := by decide
    rw [onRun (all keyword member), if_neg]
    rintro rfl
    exact free member

theorem renaming_bracedConstants : Renaming bracedConstants :=
  (renaming_replaceWord (by decide) (by decide) (by decide)).comp
    ((renaming_replaceWord (by decide) (by decide) (by decide)).comp
      (renaming_replaceWord (by decide) (by decide) (by decide)))

theorem renaming_indentedConstants : Renaming indentedConstants :=
  (renaming_replaceWord (by decide) (by decide) (by decide)).comp
    ((renaming_replaceWord (by decide) (by decide) (by decide)).comp
      (renaming_replaceWord (by decide) (by decide) (by decide)))

theorem bracedConstants_run {run : Text} (letters : ∀ c ∈ run, isWord c)
    (other : run ∉ [("True" : Text), "False", "None"]) : bracedConstants run = run := by
  simp only [List.mem_cons, List.not_mem_nil, or_false, not_or] at other
  obtain ⟨yes, no, nothing⟩ := other
  simp only [bracedConstants]
  rw [replaceWord_run (by decide) letters, if_neg yes, replaceWord_run (by decide) letters,
    if_neg no, replaceWord_run (by decide) letters, if_neg nothing]

theorem indentedConstants_run {run : Text} (letters : ∀ c ∈ run, isWord c)
    (other : run ∉ [("true" : Text), "false", "null"]) : indentedConstants run = run := by
  simp only [List.mem_cons, List.not_mem_nil, or_false, not_or] at other
  obtain ⟨yes, no, nothing⟩ := other
  simp only [indentedConstants]
  rw [replaceWord_run (by decide) letters, if_neg yes, replaceWord_run (by decide) letters,
    if_neg no, replaceWord_run (by decide) letters, if_neg nothing]

theorem bracedConstants_indentedConstants_run {run : Text} (letters : ∀ c ∈ run, isWord c) :
    bracedConstants (indentedConstants (bracedConstants run)) = bracedConstants run := by
  by_cases known : run ∈ [("True" : Text), "False", "None", "true", "false", "null"]
  · have all : ∀ run ∈ [("True" : Text), "False", "None", "true", "false", "null"],
        bracedConstants (indentedConstants (bracedConstants run)) = bracedConstants run := by
      decide
    exact all run known
  · have there := bracedConstants_run letters fun member =>
      known (List.mem_append_left [("true" : Text), "false", "null"] member)
    have back := indentedConstants_run letters fun member =>
      known (List.mem_append_right [("True" : Text), "False", "None"] member)
    rw [there, back, there]

/-- The way there, back and there again is the way there. -/
theorem bracedConstants_indentedConstants (t : Text) :
    bracedConstants (indentedConstants (bracedConstants t)) = bracedConstants t := by
  induction t using runInduction with
  | run run letters => exact bracedConstants_indentedConstants_run letters
  | more run c rest letters solid ih =>
      rw [renaming_bracedConstants.parts solid, renaming_indentedConstants.parts solid,
        renaming_bracedConstants.parts solid, bracedConstants_indentedConstants_run letters, ih]

theorem indentedConstants_bracedConstants_run {run : Text} (letters : ∀ c ∈ run, isWord c)
    (other : run ∉ [("true" : Text), "false", "null"]) :
    indentedConstants (bracedConstants run) = run := by
  by_cases known : run ∈ [("True" : Text), "False", "None"]
  · have all : ∀ run ∈ [("True" : Text), "False", "None"],
        indentedConstants (bracedConstants run) = run := by
      decide
    exact all run known
  · rw [bracedConstants_run letters known, indentedConstants_run letters other]

/-- The way back undoes the way there where none of its constants is a word already. -/
theorem indentedConstants_bracedConstants {t : Text}
    (fresh : ∀ word ∈ [("true" : Text), "false", "null"], ¬ Occurs word t) :
    indentedConstants (bracedConstants t) = t := by
  induction t using runInduction with
  | run run letters =>
      refine indentedConstants_bracedConstants_run letters fun member => ?_
      exact fresh run member (occurs_self run)
  | more run c rest letters solid ih =>
      have starts : startsWord (run ++ [c]).getLast? = true := by simp [startsWord, solid]
      have ends : endsWord (c :: rest) = true := by simp [endsWord, solid]
      have here : run ∉ [("true" : Text), "false", "null"] := fun member =>
        fresh run member (by simpa using (occurs_self run).append [] _ rfl ends)
      have later : indentedConstants (bracedConstants rest) = rest := by
        refine ih fun word member occurs => fresh word member ?_
        simpa using occurs.append _ [] starts rfl
      rw [renaming_bracedConstants.parts solid, renaming_indentedConstants.parts solid,
        indentedConstants_bracedConstants_run letters here, later]

end Recast.Blocks
