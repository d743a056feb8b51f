import Mathlib.Data.List.Basic
import Recast.Text.Basic

/-! # Cutting texts and joining them

What a cut returns spells the text that was cut. Lines that hold no separator
come back from their join as they were, and replacing adds no characters but
those of the replacement.
-/

namespace Recast.Text

/-- A condition on all characters of a text is tested on these, not on all characters. -/
instance (priority := high) decidableForallMem (t : Text) (p : Char → Prop) [DecidablePred p] :
    Decidable (∀ c ∈ t, p c) :=
  List.decidableBAll p t

instance (priority := high) decidableExistsMem (t : Text) (p : Char → Prop) [DecidablePred p] :
    Decidable (∃ c ∈ t, p c) :=
  List.decidableBEx p t

theorem after?_eq_some {start t rest : Text} : after? start t = some rest ↔ t = start ++ rest := by
  simp only [after?, List.isPrefixOf?_eq_some_iff_append_eq, eq_comm]

@[simp] theorem after?_append (start rest : Text) : after? start (start ++ rest) = some rest :=
  after?_eq_some.mpr rfl

theorem after?_cons (c : Char) (rest : Text) : after? [c] (c :: rest) = some rest :=
  after?_append [c] rest

section

variable {p : Char → Bool} {run rest : Text}

/-- A run is taken as a whole when what follows does not go on with it. -/
theorem takeWhile_run (inside : ∀ c ∈ run, p c) (stop : ∀ c, rest.head? = some c → p c = false) :
    (run ++ rest).takeWhile p = run := by
  rw [List.takeWhile_append_of_pos inside]
  cases rest with
  | nil => simp
  | cons c rest => rw [List.takeWhile_cons_of_neg (by simp [stop c rfl]), List.append_nil]

theorem dropWhile_run (inside : ∀ c ∈ run, p c) (stop : ∀ c, rest.head? = some c → p c = false) :
    (run ++ rest).dropWhile p = rest := by
  rw [List.dropWhile_append_of_pos inside]
  cases rest with
  | nil => simp
  | cons c rest => rw [List.dropWhile_cons_of_neg (by simp [stop c rfl])]

end

/-- A cut at a character is the cut at its first occurrence. -/
theorem cutAt?_eq_some {c : Char} {t before tail : Text} :
    cutAt? c t = some (before, tail) ↔ t = before ++ c :: tail ∧ c ∉ before := by
  induction t generalizing before tail with
  | nil => simp [cutAt?]
  | cons d rest ih =>
      simp only [cutAt?]
      split
      · rename_i same
        subst same
        cases before with
        | nil => simp
        | cons b before =>
            simp only [Option.some.injEq, Prod.mk.injEq, List.nil_eq, reduceCtorEq, false_and,
              List.cons_append, List.cons.injEq, List.mem_cons, not_or, false_iff, not_and]
            intro h₁ h₂
            exact absurd h₁.1 h₂
      · rename_i other
        cases before with
        | nil => simp [other]
        | cons b before =>
            simp only [Option.map_eq_some_iff, Prod.exists, Prod.mk.injEq, List.cons.injEq, ih,
              List.cons_append, List.mem_cons, not_or]
            constructor
            · rintro ⟨x, y, ⟨rfl, absent⟩, ⟨rfl, rfl⟩, rfl⟩
              exact ⟨⟨rfl, rfl⟩, Ne.symm other, absent⟩
            · rintro ⟨⟨rfl, rfl⟩, -, absent⟩
              exact ⟨before, tail, ⟨rfl, absent⟩, ⟨rfl, rfl⟩, rfl⟩

/-- Two texts with a cut at the first of their characters are cut in one place. -/
theorem append_cons_inj {c c' : Char} {before before' after after' : Text} (absent : c' ∉ before)
    (absent' : c ∉ before') :
    before ++ c :: after = before' ++ c' :: after' ↔
      before = before' ∧ c = c' ∧ after = after' := by
  constructor
  · intro same
    rcases List.append_eq_append_iff.mp same with ⟨more, rfl, tail⟩ | ⟨more, rfl, tail⟩
    · cases more with
      | nil => simpa using tail
      | cons d more =>
          obtain ⟨rfl, -⟩ := List.cons.inj tail
          exact absurd (List.mem_append_right before List.mem_cons_self) absent'
    · cases more with
      | nil => simpa [eq_comm] using tail
      | cons d more =>
          obtain ⟨rfl, -⟩ := List.cons.inj tail
          exact absurd (List.mem_append_right before' List.mem_cons_self) absent
  · rintro ⟨rfl, rfl, rfl⟩
    rfl

theorem splitOn_separator (c : Char) (t : Text) : splitOn c (c :: t) = [] :: splitOn c t :=
  if_pos rfl

theorem splitOn_of_ne {c d : Char} (other : d ≠ c) {t piece : Text} {pieces : List Text}
    (cut : splitOn c t = piece :: pieces) : splitOn c (d :: t) = (d :: piece) :: pieces := by
  rw [splitOn, if_neg other, cut]

theorem splitOn_ne_nil (c : Char) (t : Text) : splitOn c t ≠ [] := by
  induction t with
  | nil => exact List.cons_ne_nil _ _
  | cons d rest ih =>
      by_cases same : d = c
      · rw [same, splitOn_separator]
        exact List.cons_ne_nil _ _
      · obtain ⟨piece, pieces, cut⟩ := List.exists_cons_of_ne_nil ih
        rw [splitOn_of_ne same cut]
        exact List.cons_ne_nil _ _

/-- A text is parted at its first character, or this is the first of the first piece. -/
theorem splitOn_cases (c d : Char) (t : Text) :
    (d = c ∧ splitOn c (d :: t) = [] :: splitOn c t) ∨
      (d ≠ c ∧ ∃ piece pieces, splitOn c t = piece :: pieces ∧
        splitOn c (d :: t) = (d :: piece) :: pieces) := by
  by_cases same : d = c
  · exact .inl ⟨same, by rw [same, splitOn_separator]⟩
  · obtain ⟨piece, pieces, cut⟩ := List.exists_cons_of_ne_nil (splitOn_ne_nil c t)
    exact .inr ⟨same, piece, pieces, cut, splitOn_of_ne same cut⟩

theorem splitOn_of_not_mem {c : Char} {t : Text} (absent : c ∉ t) : splitOn c t = [t] := by
  induction t with
  | nil => rfl
  | cons d rest ih =>
      simp only [List.mem_cons, not_or] at absent
      exact splitOn_of_ne (Ne.symm absent.1) (ih absent.2)

/-- The first piece ends at the first separator. -/
theorem splitOn_append_cons {c : Char} {piece : Text} (absent : c ∉ piece) (t : Text) :
    splitOn c (piece ++ c :: t) = piece :: splitOn c t := by
  induction piece with
  | nil => exact splitOn_separator c t
  | cons d rest ih =>
      simp only [List.mem_cons, not_or] at absent
      exact splitOn_of_ne (Ne.symm absent.1) (ih absent.2)

/-- A character that is no separator is the first of the first piece. -/
theorem exists_splitOn_cons {c d : Char} (other : d ≠ c) (t : Text) :
    ∃ piece pieces, splitOn c (d :: t) = (d :: piece) :: pieces := by
  rcases splitOn_cases c d t with ⟨same, -⟩ | ⟨-, piece, pieces, -, whole⟩
  · exact absurd same other
  · exact ⟨piece, pieces, whole⟩

theorem mem_of_mem_splitOn {c x : Char} {t piece : Text} (member : piece ∈ splitOn c t)
    (inside : x ∈ piece) : x ∈ t := by
  induction t generalizing piece with
  | nil =>
      rw [List.mem_singleton.mp member] at inside
      exact inside
  | cons d rest ih =>
      rcases splitOn_cases c d rest with ⟨-, whole⟩ | ⟨-, first, others, cut, whole⟩ <;>
        rw [whole] at member
      · rcases List.mem_cons.mp member with rfl | later
        · simp at inside
        · exact List.mem_cons_of_mem _ (ih later inside)
      · rcases List.mem_cons.mp member with rfl | later
        · rcases List.mem_cons.mp inside with rfl | deeper
          · exact List.mem_cons_self
          · exact List.mem_cons_of_mem _ (ih (cut ▸ List.mem_cons_self) deeper)
        · exact List.mem_cons_of_mem _ (ih (cut ▸ List.mem_cons_of_mem _ later) inside)

theorem not_mem_of_mem_splitOn {c : Char} {t piece : Text} (member : piece ∈ splitOn c t) :
    c ∉ piece := by
  induction t generalizing piece with
  | nil =>
      rw [List.mem_singleton.mp member]
      exact List.not_mem_nil
  | cons d rest ih =>
      rcases splitOn_cases c d rest with ⟨-, whole⟩ | ⟨other, first, others, cut, whole⟩ <;>
        rw [whole] at member
      · rcases List.mem_cons.mp member with rfl | later
        · simp
        · exact ih later
      · rcases List.mem_cons.mp member with rfl | later
        · simp only [List.mem_cons, not_or]
          exact ⟨Ne.symm other, ih (cut ▸ List.mem_cons_self)⟩
        · exact ih (cut ▸ List.mem_cons_of_mem _ later)

/-- Pieces without the separator survive being joined and split again. -/
theorem splitOn_join {c : Char} {pieces : List Text} (some : pieces ≠ [])
    (absent : ∀ piece ∈ pieces, c ∉ piece) : splitOn c (join [c] pieces) = pieces := by
  induction pieces with
  | nil => exact absurd rfl some
  | cons piece pieces ih =>
      have here : c ∉ piece := absent piece List.mem_cons_self
      cases pieces with
      | nil => exact splitOn_of_not_mem here
      | cons next others =>
          simp only [join, List.append_assoc, List.singleton_append, splitOn_append_cons here]
          rw [ih (by simp) fun p member => absent p (List.mem_cons_of_mem _ member)]

/-- Two lists of as many pieces without the separator have different joins. -/
theorem join_inj {c : Char} {as bs : List Text} (long : as.length = bs.length)
    (left : ∀ a ∈ as, c ∉ a) (right : ∀ b ∈ bs, c ∉ b) : join [c] as = join [c] bs ↔ as = bs := by
  constructor
  · intro same
    cases as with
    | nil => exact (List.length_eq_zero_iff.mp long.symm).symm
    | cons a as =>
        have some : bs ≠ [] := by
          rintro rfl
          simp at long
        rw [← splitOn_join (List.cons_ne_nil a as) left, same, splitOn_join some right]
  · exact congrArg _

theorem mem_replaceAux {before after : Text} {skip : Nat} {t : Text} {x : Char}
    (member : x ∈ replaceAux before after skip t) : x ∈ t ∨ x ∈ after := by
  induction t generalizing skip with
  | nil => simp [replaceAux] at member
  | cons c rest ih =>
      cases skip with
      | succ skip => exact (ih member).imp_left (List.mem_cons_of_mem _)
      | zero =>
          simp only [replaceAux] at member
          split at member
          · rcases List.mem_append.mp member with new | later
            · exact .inr new
            · exact (ih later).imp_left (List.mem_cons_of_mem _)
          · rcases List.mem_cons.mp member with rfl | later
            · exact .inl List.mem_cons_self
            · exact (ih later).imp_left (List.mem_cons_of_mem _)

theorem mem_replace {before after t : Text} {x : Char} (member : x ∈ replace before after t) :
    x ∈ t ∨ x ∈ after :=
  mem_replaceAux member

theorem replace_cons {before : Text} {c : Char} {rest : Text} (miss : ¬ before <+: c :: rest)
    (after : Text) : replace before after (c :: rest) = c :: replace before after rest := by
  have no : before.isPrefixOf (c :: rest) = false := by
    rw [Bool.eq_false_iff, ne_eq, List.isPrefixOf_iff_prefix]
    exact miss
  simp [replace, replaceAux, no]

theorem replaceAux_skip (before after passed rest : Text) :
    replaceAux before after passed.length (passed ++ rest) = replace before after rest := by
  induction passed with
  | nil => rfl
  | cons c passed ih => exact ih

theorem replace_append {before : Text} (some : before ≠ []) (after rest : Text) :
    replace before after (before ++ rest) = after ++ replace before after rest := by
  cases before with
  | nil => exact absurd rfl some
  | cons b before =>
      have hit : (b :: before).isPrefixOf (b :: (before ++ rest)) = true :=
        List.isPrefixOf_iff_prefix.mpr (List.prefix_append (b :: before) rest)
      simp only [List.cons_append, replace, replaceAux, hit, List.isEmpty_cons, Bool.not_false,
        Bool.and_self, if_true, List.length_cons, Nat.add_sub_cancel]
      rw [replaceAux_skip, replace]

theorem replace_of_not_mem {before : Text} {b : Char} (member : b ∈ before) (after : Text) {t : Text}
    (absent : b ∉ t) : replace before after t = t := by
  induction t with
  | nil => rfl
  | cons c rest ih =>
      have miss : ¬ before <+: c :: rest := fun start => absent (start.mem member)
      rw [replace_cons miss, ih fun later => absent (List.mem_cons_of_mem c later)]

end Recast.Text
