import Mathlib.Data.List.Chain
import Recast.Proofs.Markup.Comment
import Recast.Proofs.Text.Blank

/-! # Tidied drawings

A tidied drawing has no white space to save, and collapsing and trimming neither make comments nor
destroy them. So all that can be left to tidy is a comment that came up when others were dropped,
and tidying once more changes a drawing exactly then.
-/

namespace Recast.Markup

open Text

/-! ## Runs of white space -/

/-- No two characters of white space are neighbours. -/
def SingleSpaced (t : Text) : Prop := t.IsChain fun c d => ¬ (isBlank c ∧ isBlank d)

section

variable {t mark : Text} {c : Char}

theorem singleSpaced_cons : SingleSpaced (c :: t) ↔
    (isBlank c = true → t.head?.any isBlank = false) ∧ SingleSpaced t := by
  rw [SingleSpaced, List.isChain_cons]
  refine and_congr_left fun _ => ?_
  cases t.head? <;> simp

theorem collapseBlanks_nil (inRun : Bool) : collapseBlanks inRun [] = [] := by
  cases inRun <;> rfl

theorem collapseBlanks_solid (solid : isBlank c = false) (inRun : Bool) (t : Text) :
    collapseBlanks inRun (c :: t) = c :: collapseBlanks false t := by
  cases inRun <;> simp [collapseBlanks, solid]

theorem collapseBlanks_inRun (blank : isBlank c = true) (t : Text) :
    collapseBlanks true (c :: t) = collapseBlanks true t := by
  simp [collapseBlanks, blank]

/-- The first character of a run is written as a space if the run goes on. -/
theorem collapseBlanks_blank (blank : isBlank c = true) (t : Text) :
    collapseBlanks false (c :: t) =
      (if t.head?.any isBlank then ' ' else c) :: collapseBlanks (t.head?.any isBlank) t := by
  cases next : t.head?.any isBlank <;> simp [collapseBlanks, blank, next]

theorem isBlank_first (blank : isBlank c = true) (next : Bool) :
    isBlank (if next then ' ' else c) = true := by
  cases next
  · exact blank
  · rfl

/-- A character is no white space, or it goes on with a run, or it is the first of one. -/
@[elab_as_elim]
theorem blankInduction {motive : Bool → Text → Prop} (inRun : Bool) (t : Text)
    (nil : ∀ inRun, motive inRun [])
    (solid : ∀ inRun c t, isBlank c = false → motive false t → motive inRun (c :: t))
    (more : ∀ c t, isBlank c = true → motive true t → motive true (c :: t))
    (first : ∀ c t, isBlank c = true → motive (t.head?.any isBlank) t → motive false (c :: t)) :
    motive inRun t := by
  induction t generalizing inRun with
  | nil => exact nil inRun
  | cons c t ih =>
      cases blank : isBlank c with
      | false => exact solid inRun c t blank (ih false)
      | true =>
          cases inRun with
          | true => exact more c t blank (ih true)
          | false => exact first c t blank (ih _)

/-- The result starts with white space if the text does, unless the run is written already. -/
theorem head_collapseBlanks (inRun : Bool) (t : Text) :
    (collapseBlanks inRun t).head?.any isBlank = (!inRun && t.head?.any isBlank) := by
  induction inRun, t using blankInduction with
  | nil inRun => rw [collapseBlanks_nil, List.head?_nil, Option.any_none, Bool.and_false]
  | solid inRun c t plain ih => simp [collapseBlanks_solid plain, plain]
  | more c t blank ih => rw [collapseBlanks_inRun blank, ih]; rfl
  | first c t blank ih =>
      rw [collapseBlanks_blank blank]
      simp only [List.head?_cons, Option.any_some, isBlank_first blank, blank]
      rfl

theorem singleSpaced_collapseBlanks (inRun : Bool) (t : Text) :
    SingleSpaced (collapseBlanks inRun t) := by
  induction inRun, t using blankInduction with
  | nil inRun => rw [collapseBlanks_nil]; exact .nil
  | solid inRun c t plain ih =>
      rw [collapseBlanks_solid plain, singleSpaced_cons, plain]
      exact ⟨nofun, ih⟩
  | more c t blank ih => rwa [collapseBlanks_inRun blank]
  | first c t blank ih =>
      rw [collapseBlanks_blank blank, singleSpaced_cons, head_collapseBlanks, Bool.not_and_self]
      exact ⟨fun _ => rfl, ih⟩

theorem collapseBlanks_of_singleSpaced (single : SingleSpaced t) : collapseBlanks false t = t := by
  induction t with
  | nil => rfl
  | cons c t ih =>
      obtain ⟨next, single⟩ := singleSpaced_cons.mp single
      cases blank : isBlank c with
      | false => rw [collapseBlanks_solid blank, ih single]
      | true => rw [collapseBlanks_blank blank, next blank, ih single]; rfl

theorem length_collapseBlanks_le (inRun : Bool) (t : Text) :
    (collapseBlanks inRun t).length ≤ t.length := by
  induction inRun, t using blankInduction with
  | nil inRun => rw [collapseBlanks_nil]
  | solid inRun c t plain ih => rw [collapseBlanks_solid plain]; exact Nat.succ_le_succ ih
  | more c t blank ih => rw [collapseBlanks_inRun blank]; exact Nat.le_succ_of_le ih
  | first c t blank ih => rw [collapseBlanks_blank blank]; exact Nat.succ_le_succ ih

/-! ## What is no white space -/

theorem head_append_cons (solid : isBlank c = false) (s t : Text) :
    (s ++ c :: t).head?.any isBlank = s.head?.any isBlank := by
  cases s <;> simp [solid]

theorem collapseBlanks_append_cons (solid : isBlank c = false) (inRun : Bool) (s t : Text) :
    collapseBlanks inRun (s ++ c :: t) = collapseBlanks inRun s ++ c :: collapseBlanks false t := by
  induction inRun, s using blankInduction with
  | nil inRun => rw [List.nil_append, collapseBlanks_solid solid, collapseBlanks_nil, List.nil_append]
  | solid inRun d s plain ih =>
      rw [List.cons_append, collapseBlanks_solid plain, collapseBlanks_solid plain, ih,
        List.cons_append]
  | more d s blank ih =>
      rw [List.cons_append, collapseBlanks_inRun blank, collapseBlanks_inRun blank, ih]
  | first d s blank ih =>
      rw [List.cons_append, collapseBlanks_blank blank, collapseBlanks_blank blank,
        head_append_cons solid, ih, List.cons_append]

/-- A character that is no white space comes from one. -/
theorem exists_of_collapseBlanks (solid : isBlank c = false) {inRun : Bool} {x y : Text}
    (same : collapseBlanks inRun t = x ++ c :: y) :
    ∃ before rest, t = before ++ c :: rest ∧ collapseBlanks inRun before = x ∧
      collapseBlanks false rest = y := by
  induction inRun, t using blankInduction generalizing x with
  | nil inRun =>
      rw [collapseBlanks_nil] at same
      simp at same
  | solid inRun d t plain ih =>
      rw [collapseBlanks_solid plain] at same
      cases x with
      | nil =>
          obtain ⟨rfl, rfl⟩ := List.cons.inj same
          exact ⟨[], t, rfl, collapseBlanks_nil inRun, rfl⟩
      | cons e x =>
          obtain ⟨rfl, later⟩ := List.cons.inj same
          obtain ⟨before, rest, rfl, left, right⟩ := ih later
          exact ⟨d :: before, rest, rfl, by rw [collapseBlanks_solid plain, left], right⟩
  | more d t blank ih =>
      rw [collapseBlanks_inRun blank] at same
      obtain ⟨before, rest, rfl, left, right⟩ := ih same
      exact ⟨d :: before, rest, rfl, by rw [collapseBlanks_inRun blank, left], right⟩
  | first d t blank ih =>
      rw [collapseBlanks_blank blank] at same
      cases x with
      | nil =>
          have start := isBlank_first blank (t.head?.any isBlank)
          rw [(List.cons.inj same).1, solid] at start
          cases start
      | cons e x =>
          obtain ⟨start, later⟩ := List.cons.inj same
          obtain ⟨before, rest, rfl, left, right⟩ := ih later
          rw [head_append_cons solid] at start left
          exact ⟨d :: before, rest, rfl, by rw [collapseBlanks_blank blank, start, left], right⟩

theorem eq_nil_of_collapseBlanks (none : collapseBlanks false t = []) : t = [] := by
  cases t with
  | nil => rfl
  | cons c t =>
      cases blank : isBlank c with
      | false => rw [collapseBlanks_solid blank] at none; cases none
      | true => rw [collapseBlanks_blank blank] at none; cases none

theorem collapseBlanks_eq_mark_append (solid : ∀ c ∈ mark, isBlank c = false) {y : Text} :
    collapseBlanks false t = mark ++ y ↔ ∃ rest, t = mark ++ rest ∧ collapseBlanks false rest = y := by
  induction mark generalizing t with
  | nil => simp
  | cons c mark ih =>
      obtain ⟨first, others⟩ := List.forall_mem_cons.mp solid
      constructor
      · intro same
        obtain ⟨before, rest, rfl, none, later⟩ :=
          exists_of_collapseBlanks first (show _ = [] ++ c :: (mark ++ y) from same)
        obtain rfl := eq_nil_of_collapseBlanks none
        obtain ⟨rest, rfl, right⟩ := (ih others).mp later
        exact ⟨rest, rfl, right⟩
      · rintro ⟨rest, rfl, same⟩
        rw [List.cons_append, collapseBlanks_solid first, (ih others).mpr ⟨rest, rfl, same⟩]
        rfl

/-- A mark without white space stays where it is, and none comes up. -/
theorem collapseBlanks_eq_append (solid : ∀ c ∈ mark, isBlank c = false) (some : mark ≠ [])
    {inRun : Bool} {x y : Text} : collapseBlanks inRun t = x ++ (mark ++ y) ↔
      ∃ before rest, t = before ++ (mark ++ rest) ∧ collapseBlanks inRun before = x ∧
        collapseBlanks false rest = y := by
  cases mark with
  | nil => exact absurd rfl some
  | cons c mark =>
      obtain ⟨first, others⟩ := List.forall_mem_cons.mp solid
      constructor
      · intro same
        obtain ⟨before, rest, rfl, left, later⟩ := exists_of_collapseBlanks first same
        obtain ⟨rest, rfl, right⟩ := (collapseBlanks_eq_mark_append others).mp later
        exact ⟨before, rest, rfl, left, right⟩
      · rintro ⟨before, rest, rfl, rfl, right⟩
        rw [List.cons_append, collapseBlanks_append_cons first,
          (collapseBlanks_eq_mark_append others).mpr ⟨rest, rfl, right⟩]
        rfl

/-! ## Comments -/

theorem solid_opening : ∀ c ∈ opening, isBlank c = false := by decide

theorem solid_closing : ∀ c ∈ closing, isBlank c = false := by decide

theorem closing_infix_collapseBlanks :
    closing <:+: collapseBlanks false t ↔ closing <:+: t := by
  constructor
  · rintro ⟨x, y, same⟩
    rw [List.append_assoc] at same
    obtain ⟨before, rest, rfl, -⟩ :=
      (collapseBlanks_eq_append solid_closing (by decide)).mp same.symm
    exact ⟨before, rest, List.append_assoc ..⟩
  · rintro ⟨before, rest, rfl⟩
    rw [List.append_assoc, (collapseBlanks_eq_append solid_closing (by decide)).mpr
      ⟨before, rest, rfl, rfl, rfl⟩]
    exact ⟨_, _, List.append_assoc ..⟩

theorem hasComment_collapseBlanks {inRun : Bool} :
    HasComment (collapseBlanks inRun t) ↔ HasComment t := by
  rw [hasComment_iff, hasComment_iff]
  constructor
  · rintro ⟨x, y, same, closed⟩
    obtain ⟨before, rest, rfl, -, rfl⟩ :=
      (collapseBlanks_eq_append solid_opening (by decide)).mp same
    exact ⟨before, rest, rfl, closing_infix_collapseBlanks.mp closed⟩
  · rintro ⟨before, rest, rfl, closed⟩
    exact ⟨_, _, (collapseBlanks_eq_append solid_opening (by decide)).mpr
      ⟨before, rest, rfl, rfl, rfl⟩, closing_infix_collapseBlanks.mpr closed⟩

theorem hasComment_trim : HasComment (trim t) ↔ HasComment t := by
  refine ⟨fun has => has.of_part (trim_part t), ?_⟩
  rintro ⟨before, inside, rest, rfl⟩
  have first : isBlank '<' = false := by decide
  have last : isBlank '>' = false := by decide
  have spelled : before ++ opening ++ inside ++ closing ++ rest =
      before ++ '<' :: ("!--".toList ++ inside ++ "--".toList ++ '>' :: rest) := by
    simp [opening, closing]
  rw [spelled, trim, trimLeft_append_cons first, trimRight_append_cons first,
    trimRight_append_cons last]
  exact ⟨trimLeft before, inside, trimRight rest, by simp [opening, closing]⟩

theorem hasComment_tidy_iff : HasComment (tidy t) ↔ Straddled t := by
  rw [tidy, hasComment_trim, hasComment_collapseBlanks, hasComment_dropComments_iff]

/-! ## Tidying -/

theorem singleSpaced_tidy (t : Text) : SingleSpaced (tidy t) :=
  List.IsChain.infix (singleSpaced_collapseBlanks false _) (trim_part _)

theorem tidy_of_not_hasComment (single : SingleSpaced t) (trimmed : trim t = t)
    (none : ¬ HasComment t) : tidy t = t := by
  rw [tidy, dropComments_of_not_hasComment none, collapseBlanks_of_singleSpaced single, trimmed]

/-- What has a comment gets shorter. -/
theorem tidy_ne_of_hasComment (has : HasComment t) : tidy t ≠ t := by
  intro same
  have bare := length_dropComments_lt has
  have collapsed := length_collapseBlanks_le false (dropComments 0 t)
  have trimmed := (trim_part (collapseBlanks false (dropComments 0 t))).length_le
  rw [show trim _ = t from same] at trimmed
  omega

/-- A tidied drawing is tidy but for comments that others stood inside of. -/
theorem tidy_settled_iff (t : Text) :
    SingleSpaced (tidy t) ∧ (tidy t).head?.any isBlank = false ∧
    (tidy t).getLast?.any isBlank = false ∧ (HasComment (tidy t) ↔ Straddled t) ∧
    (tidy (tidy t) = tidy t ↔ ¬ Straddled t) := by
  have single := singleSpaced_tidy t
  have trimmed : trim (tidy t) = tidy t := trim_trim _
  refine ⟨single, ?_, ?_, hasComment_tidy_iff, ?_⟩
  · cases first : (tidy t).head? with
    | none => rfl
    | some c => exact head_trim first
  · cases last : (tidy t).getLast? with
    | none => rfl
    | some c => exact last_trim last
  · rw [← hasComment_tidy_iff]
    constructor
    · exact fun same has => tidy_ne_of_hasComment has same
    · exact tidy_of_not_hasComment single trimmed

/-- A comment inside of an opening mark makes one of what is around it. -/
theorem tidy_straddled :
    tidy "a<!-<!-- x -->- y -->b" = "a<!-- y -->b".toList ∧
    HasComment (tidy "a<!-<!-- x -->- y -->b") ∧
    tidy (tidy "a<!-<!-- x -->- y -->b") = "ab".toList := by
  have once : tidy "a<!-<!-- x -->- y -->b" = "a<!-- y -->b".toList := by decide
  refine ⟨once, ?_, ?_⟩
  · rw [once]
    exact ⟨['a'], " y ".toList, ['b'], by decide⟩
  · rw [once]
    decide

end

end Recast.Markup
