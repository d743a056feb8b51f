import Recast.Proofs.Text.Cut

/-! # Paragraphs

A blank line ends a paragraph. Texts that have none inside, and do not end with a line feed,
are found again between the blank lines that they were joined with.
-/

namespace Recast.Text

/-- Put a character in front of the first part. -/
def extend (c : Char) : List Text → List Text
  | [] => [[c]]
  | part :: parts => (c :: part) :: parts

/-- The parts of a text between its blank lines. -/
def paragraphs : Text → List Text
  | [] => [[]]
  | '\n' :: '\n' :: rest => [] :: paragraphs rest
  | c :: rest => extend c (paragraphs rest)

/-- Every line feed is followed by something, which is no line feed. -/
def Gapless : Text → Prop
  | [] => True
  | c :: rest => (c = '\n' → ∃ d more, rest = d :: more ∧ d ≠ '\n') ∧ Gapless rest

theorem gapless_of_not_mem {t : Text} (single : '\n' ∉ t) : Gapless t := by
  induction t with
  | nil => trivial
  | cons c rest ih =>
      simp only [List.mem_cons, not_or] at single
      exact ⟨fun feed => absurd feed.symm single.1, ih single.2⟩

theorem Gapless.append {s t : Text} (first : Gapless s) (second : Gapless t) : Gapless (s ++ t) := by
  induction s with
  | nil => exact second
  | cons c rest ih =>
      refine ⟨?_, ih first.2⟩
      intro feed
      obtain ⟨d, more, rfl, solid⟩ := first.1 feed
      exact ⟨d, more ++ t, rfl, solid⟩

/-- The text begins with something other than a line feed. -/
def Begins (t : Text) : Prop := ∃ c rest, t = c :: rest ∧ c ≠ '\n'

theorem begins_cons {c : Char} (solid : c ≠ '\n') (rest : Text) : Begins (c :: rest) :=
  ⟨c, rest, rfl, solid⟩

theorem Begins.append {s : Text} (begins : Begins s) (t : Text) : Begins (s ++ t) := by
  obtain ⟨c, rest, rfl, solid⟩ := begins
  exact ⟨c, rest ++ t, rfl, solid⟩

/-- One more line may follow where it is not empty. -/
theorem Gapless.line {t : Text} (begins : Begins t) (whole : Gapless t) : Gapless ('\n' :: t) :=
  ⟨fun _ => begins, whole⟩

theorem Gapless.cons {c : Char} {t : Text} (solid : c ≠ '\n') (whole : Gapless t) :
    Gapless (c :: t) :=
  ⟨fun feed => absurd feed solid, whole⟩

theorem paragraphs_cons {c : Char} {rest : Text} (h : c = '\n' → rest.head? ≠ some '\n') :
    paragraphs (c :: rest) = extend c (paragraphs rest) := by
  rw [paragraphs.eq_def]
  split
  · rename_i same
    cases same
  · rename_i same
    cases same
    exact absurd rfl (h rfl)
  · rename_i same
    cases same
    rfl

/-- The first paragraph ends at the first blank line. -/
theorem paragraphs_append_blank {part : Text} (whole : Gapless part) (rest : Text) :
    paragraphs (part ++ '\n' :: '\n' :: rest) = part :: paragraphs rest := by
  induction part with
  | nil => rfl
  | cons c part ih =>
      rw [List.cons_append, paragraphs_cons, ih whole.2]
      · rfl
      · intro feed
        obtain ⟨d, more, rfl, solid⟩ := whole.1 feed
        simpa using solid

theorem paragraphs_of_gapless {part : Text} (whole : Gapless part) : paragraphs part = [part] := by
  induction part with
  | nil => rfl
  | cons c part ih =>
      rw [paragraphs_cons, ih whole.2]
      · rfl
      · intro feed
        obtain ⟨d, more, rfl, solid⟩ := whole.1 feed
        simpa using solid

theorem paragraphs_join {parts : List Text} (some : parts ≠ []) (whole : ∀ part ∈ parts, Gapless part) :
    paragraphs (join ['\n', '\n'] parts) = parts := by
  induction parts with
  | nil => exact absurd rfl some
  | cons part parts ih =>
      rw [List.forall_mem_cons] at whole
      cases parts with
      | nil => exact paragraphs_of_gapless whole.1
      | cons next parts =>
          rw [join, List.append_assoc]
          · exact (paragraphs_append_blank whole.1 _).trans
              (congrArg (part :: ·) (ih (List.cons_ne_nil _ _) whole.2))
          · simp

/-- A cut at a mark is made where it first begins. -/
theorem cutAtText?_append {c : Char} {mark before : Text} (absent : c ∉ before) (rest : Text) :
    cutAtText? (c :: mark) (before ++ (c :: mark ++ rest)) = some (before, rest) := by
  induction before with
  | nil =>
      rw [List.nil_append, List.cons_append, cutAtText?, ← List.cons_append, after?_append]
  | cons d before ih =>
      simp only [List.mem_cons, not_or] at absent
      have miss : after? (c :: mark) (d :: (before ++ (c :: mark ++ rest))) = none := by
        rw [Option.eq_none_iff_forall_ne_some]
        intro tail found
        have spelled := after?_eq_some.mp found
        exact absent.1 (List.cons.inj spelled).1.symm
      rw [List.cons_append, cutAtText?, miss, ih absent.2]
      rfl

end Recast.Text
