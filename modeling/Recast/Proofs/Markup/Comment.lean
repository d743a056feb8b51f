import Recast.Markup.Attribute
import Recast.Proofs.Text.Mark

/-! # Drawings without their comments

A drawing is cut at its comments, each from the first opening mark to the closing mark behind it.
What is left when they are dropped is joined, and the join can be a comment itself: this is so
exactly when comments stand inside of an opening mark and a closing mark comes behind it.
-/

namespace Recast.Markup

open Text

def opening : Text := "<!--"

def closing : Text := "-->"

theorem unbordered_opening : Unbordered opening := by decide

theorem unbordered_closing : Unbordered closing := by decide

section

variable {s t : Text} {c : Char}

/-- The text starts with a complete comment. -/
def BeginsComment (t : Text) : Prop :=
  ∃ inside rest, t = opening ++ inside ++ closing ++ rest

/-- The text has a complete comment: an opening mark and behind it a closing one. -/
def HasComment (t : Text) : Prop :=
  ∃ before inside rest, t = before ++ opening ++ inside ++ closing ++ rest

theorem BeginsComment.hasComment (begins : BeginsComment t) : HasComment t := by
  obtain ⟨inside, rest, rfl⟩ := begins
  exact ⟨[], inside, rest, rfl⟩

theorem HasComment.of_part (has : HasComment s) (part : s <:+: t) : HasComment t := by
  obtain ⟨before, inside, rest, rfl⟩ := has
  obtain ⟨front, back, rfl⟩ := part
  exact ⟨front ++ before, inside, rest ++ back, by simp⟩

theorem hasComment_iff : HasComment t ↔
    ∃ before rest, t = before ++ (opening ++ rest) ∧ closing <:+: rest := by
  constructor
  · rintro ⟨before, inside, rest, rfl⟩
    exact ⟨before, inside ++ closing ++ rest, by simp, inside, rest, rfl⟩
  · rintro ⟨before, _, rfl, inside, rest, rfl⟩
    exact ⟨before, inside, rest, by simp⟩

theorem not_hasComment_nil : ¬ HasComment [] := by
  rintro ⟨before, inside, rest, same⟩
  simp [opening] at same

theorem hasComment_cons : HasComment (c :: t) ↔ BeginsComment (c :: t) ∨ HasComment t := by
  constructor
  · rintro ⟨before, inside, rest, same⟩
    cases before with
    | nil => exact .inl ⟨inside, rest, same⟩
    | cons d before =>
        obtain ⟨rfl, rfl⟩ := List.cons.inj same
        exact .inr ⟨before, inside, rest, rfl⟩
  · rintro (begins | has)
    · exact begins.hasComment
    · exact has.of_part ⟨[c], [], by simp⟩

/-! ## Dropping -/

theorem commentLength?_eq_some {n : Nat} : commentLength? t = some n ↔
    ∃ inside rest, t = opening ++ inside ++ closing ++ rest ∧ ¬ closing <:+: inside ∧
      inside.length + 7 = n := by
  change ((after? opening t).bind fun rest => (cutAtText? closing rest).bind fun cut =>
    some (cut.1.length + 7)) = some n ↔ _
  simp only [Option.bind_eq_some_iff, Prod.exists, after?_eq_some,
    cutAtText?_eq_some unbordered_closing (by decide), Option.some.injEq]
  constructor
  · rintro ⟨_, rfl, inside, rest, ⟨rfl, first⟩, same⟩
    exact ⟨inside, rest, by simp, first, same⟩
  · rintro ⟨inside, rest, rfl, first, same⟩
    exact ⟨inside ++ closing ++ rest, by simp, inside, rest, ⟨rfl, first⟩, same⟩

theorem commentLength?_eq_none : commentLength? t = none ↔ ¬ BeginsComment t := by
  constructor
  · rintro none ⟨inside, rest, rfl⟩
    have closed : cutAtText? closing (inside ++ closing ++ rest) ≠ .none := fun missing =>
      (cutAtText?_eq_none (by decide)).mp missing ⟨inside, rest, rfl⟩
    obtain ⟨⟨first, tail⟩, cut⟩ := Option.ne_none_iff_exists'.mp closed
    obtain ⟨spelled, whole⟩ := (cutAtText?_eq_some unbordered_closing (by decide)).mp cut
    have found := commentLength?_eq_some.mpr ⟨first, tail, rfl, whole, rfl⟩
    rw [List.append_assoc, List.append_assoc, ← List.append_assoc first, ← spelled,
      ← List.append_assoc, ← List.append_assoc, none] at found
    cases found
  · intro no
    rw [Option.eq_none_iff_forall_ne_some]
    intro n same
    obtain ⟨inside, rest, rfl, -⟩ := commentLength?_eq_some.mp same
    exact no ⟨inside, rest, rfl⟩

theorem dropComments_skip (passed rest : Text) :
    dropComments passed.length (passed ++ rest) = dropComments 0 rest := by
  induction passed with
  | nil => rfl
  | cons c passed ih => exact ih

theorem dropComments_miss (miss : ¬ BeginsComment (c :: t)) :
    dropComments 0 (c :: t) = c :: dropComments 0 t := by
  rw [dropComments, commentLength?_eq_none.mpr miss]

/-- A comment ends at the first closing mark. -/
theorem dropComments_comment {inside : Text} (first : ¬ closing <:+: inside) (rest : Text) :
    dropComments 0 (opening ++ inside ++ closing ++ rest) = dropComments 0 rest := by
  have found := commentLength?_eq_some.mpr ⟨inside, rest, rfl, first, rfl⟩
  have passed : inside.length + 7 - 1 = ("!--".toList ++ inside ++ closing).length := by
    simp [closing]
  show dropComments 0 ('<' :: ("!--".toList ++ inside ++ closing ++ rest)) = _
  rw [dropComments, show commentLength? ('<' :: ("!--".toList ++ inside ++ closing ++ rest)) =
    some (inside.length + 7) from found]
  show dropComments (inside.length + 7 - 1) _ = _
  rw [passed, dropComments_skip]

theorem dropComments_of_not_hasComment (none : ¬ HasComment t) : dropComments 0 t = t := by
  induction t with
  | nil => rfl
  | cons c t ih =>
      rw [hasComment_cons, not_or] at none
      rw [dropComments_miss none.1, ih none.2]

/-- A text without an opening mark stays in front of one. -/
theorem dropComments_append (plain : ¬ opening <:+: s) (t : Text) :
    dropComments 0 (s ++ (opening ++ t)) = s ++ dropComments 0 (opening ++ t) := by
  induction s with
  | nil => rfl
  | cons c s ih =>
      have miss : ¬ BeginsComment (c :: (s ++ (opening ++ t))) := by
        rintro ⟨inside, rest, same⟩
        refine unbordered_opening.not_prefix plain (List.cons_ne_nil c s) t ?_
        exact ⟨inside ++ closing ++ rest, by simpa using same.symm⟩
      rw [List.cons_append, dropComments_miss miss, ih fun part => plain (List.infix_cons part)]
      rfl

end

/-! ## Cutting at comments -/

/-- A text and the comment behind it. -/
structure Commented where
  text : Text
  inside : Text
  plain : ¬ opening <:+: text
  whole : ¬ closing <:+: inside

/-- A drawing cut at its comments. -/
structure Drawing where
  pieces : List Commented
  last : Text
  plain : ¬ HasComment last

def Commented.written (piece : Commented) : Text :=
  piece.text ++ opening ++ piece.inside ++ closing

def writtenText (pieces : List Commented) : Text := pieces.flatMap Commented.written

def bareText (pieces : List Commented) : Text := pieces.flatMap Commented.text

section

variable (piece : Commented) (pieces front back : List Commented)

@[simp] theorem writtenText_cons : writtenText (piece :: pieces) =
    piece.text ++ opening ++ piece.inside ++ closing ++ writtenText pieces := rfl

@[simp] theorem bareText_cons : bareText (piece :: pieces) = piece.text ++ bareText pieces := rfl

@[simp] theorem bareText_append : bareText (front ++ back) = bareText front ++ bareText back :=
  List.flatMap_append

end

namespace Drawing

def text (d : Drawing) : Text := writtenText d.pieces ++ d.last

/-- The drawing without its comments. -/
def bare (d : Drawing) : Text := bareText d.pieces ++ d.last

/-- Comments stand inside of an opening mark, and behind that is a closing one. -/
def Straddled (d : Drawing) : Prop :=
  ∃ front piece back, d.pieces = front ++ piece :: back ∧
    ∃ first second, first ≠ [] ∧ second ≠ [] ∧ first ++ second = opening ∧
      first <:+ bareText front ++ piece.text ∧
      ∃ rest, bareText back ++ d.last = second ++ rest ∧ closing <:+: rest

theorem dropComments_text (d : Drawing) : dropComments 0 d.text = d.bare := by
  obtain ⟨pieces, last, plain⟩ := d
  unfold text bare
  induction pieces with
  | nil => exact dropComments_of_not_hasComment plain
  | cons piece pieces ih =>
      have spelled : writtenText (piece :: pieces) ++ last = piece.text ++
          (opening ++ (piece.inside ++ closing ++ (writtenText pieces ++ last))) := by
        simp
      have comment := dropComments_comment piece.whole (writtenText pieces ++ last)
      rw [List.append_assoc, List.append_assoc, ← List.append_assoc piece.inside] at comment
      rw [spelled, dropComments_append piece.plain, comment, ih, bareText_cons, List.append_assoc]

/-- Put a character in front. -/
theorem exists_cons {c : Char} {d : Drawing} (miss : ¬ BeginsComment (c :: d.text)) :
    ∃ d' : Drawing, d'.text = c :: d.text := by
  obtain ⟨pieces, last, plain⟩ := d
  cases pieces with
  | nil => exact ⟨⟨[], c :: last, fun has => (hasComment_cons.mp has).elim miss plain⟩, rfl⟩
  | cons piece pieces =>
      refine ⟨⟨⟨c :: piece.text, piece.inside, fun part => ?_, piece.whole⟩ :: pieces, last,
        plain⟩, rfl⟩
      rcases List.infix_cons_iff.mp part with ⟨more, start⟩ | part
      · -- The opening mark would be in front of the closing one of the first piece.
        refine miss ⟨more ++ opening ++ piece.inside, writtenText pieces ++ last, ?_⟩
        have longer := congrArg (· ++ opening ++ piece.inside ++ closing ++
          (writtenText pieces ++ last)) start
        simpa [text] using longer.symm
      · exact piece.plain part

theorem exists_text (t : Text) : ∃ d : Drawing, d.text = t := by
  induction long : t.length using Nat.strong_induction_on generalizing t with
  | _ n' ih =>
      cases t with
      | nil => exact ⟨⟨[], [], not_hasComment_nil⟩, rfl⟩
      | cons c t =>
          cases found : commentLength? (c :: t) with
          | none =>
              obtain ⟨d, rfl⟩ := ih t.length (by rw [← long, List.length_cons]; omega) t rfl
              exact exists_cons (commentLength?_eq_none.mp found)
          | some n =>
              obtain ⟨inside, rest, spelled, whole, -⟩ := commentLength?_eq_some.mp found
              have shorter : rest.length < n' := by
                rw [← long, spelled]
                simp [opening]
                omega
              obtain ⟨d, rfl⟩ := ih rest.length shorter rest rfl
              refine ⟨⟨⟨[], inside, by decide, whole⟩ :: d.pieces, d.last, d.plain⟩, ?_⟩
              rw [spelled]
              simp [text]

theorem Straddled.cons {d : Drawing} (straddled : d.Straddled) (piece : Commented) :
    Straddled { d with pieces := piece :: d.pieces } := by
  obtain ⟨front, piece', back, same, first, second, some, some', mark, ⟨before, left⟩, right⟩ :=
    straddled
  refine ⟨piece :: front, piece', back, congrArg _ same, first, second, some, some', mark,
    ⟨piece.text ++ before, ?_⟩, right⟩
  rw [List.append_assoc, left, bareText_cons, List.append_assoc]

/-- What is left has a comment only by an opening mark that comments stand inside of. -/
theorem hasComment_bare_iff (d : Drawing) : HasComment d.bare ↔ d.Straddled := by
  constructor
  · obtain ⟨pieces, last, plain⟩ := d
    intro has
    induction pieces with
    | nil => exact absurd has plain
    | cons piece pieces ih =>
        obtain ⟨before, rest, spelled, closed⟩ := hasComment_iff.mp has
        have spelled : piece.text ++ (bareText pieces ++ last) = before ++ (opening ++ rest) := by
          rw [← spelled, bare, bareText_cons, List.append_assoc]
        rcases mark_of_append piece.plain spelled with ⟨between, later⟩ |
          ⟨first, second, some, some', mark, left, right⟩
        · exact (ih (hasComment_iff.mpr ⟨between, rest, later, closed⟩)).cons piece
        · exact ⟨[], piece, pieces, rfl, first, second, some, some', mark, ⟨before, left.symm⟩, rest,
            right, closed⟩
  · rintro ⟨front, piece, back, same, first, second, -, -, mark, ⟨before, left⟩, rest, right, closed⟩
    refine hasComment_iff.mpr ⟨before, rest, ?_, closed⟩
    rw [← mark, List.append_assoc first, ← right, ← List.append_assoc before, left, bare, same]
    simp

/-- Each comment takes at least its marks with it. -/
theorem length_bare_add_le (d : Drawing) :
    d.bare.length + 7 * d.pieces.length ≤ d.text.length := by
  obtain ⟨pieces, last, plain⟩ := d
  induction pieces with
  | nil => exact Nat.le_refl _
  | cons piece pieces ih =>
      simp only [bare, text, bareText_cons, writtenText_cons, List.length_append,
        List.length_cons] at ih ⊢
      have marks : opening.length + closing.length = 7 := by decide
      omega

end Drawing

/-- The text has comments inside of an opening mark, and behind that a closing one. -/
def Straddled (t : Text) : Prop := ∃ d : Drawing, d.text = t ∧ d.Straddled

theorem hasComment_dropComments_iff {t : Text} :
    HasComment (dropComments 0 t) ↔ Straddled t := by
  constructor
  · intro has
    obtain ⟨d, rfl⟩ := Drawing.exists_text t
    rw [d.dropComments_text, d.hasComment_bare_iff] at has
    exact ⟨d, rfl, has⟩
  · rintro ⟨d, rfl, straddled⟩
    rwa [d.dropComments_text, d.hasComment_bare_iff]

/-- Dropping comments leaves less of a text that has one. -/
theorem length_dropComments_lt {t : Text} (has : HasComment t) :
    (dropComments 0 t).length < t.length := by
  obtain ⟨d, rfl⟩ := Drawing.exists_text t
  have shorter := d.length_bare_add_le
  have some : d.pieces ≠ [] := by
    intro none
    rw [Drawing.text, none] at has
    exact d.plain has
  have := List.length_pos_iff.mpr some
  rw [d.dropComments_text]
  omega

end Recast.Markup
