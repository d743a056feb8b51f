import Mathlib.Data.List.Infix
import Recast.Proofs.Text.Cut

/-! # Marks

A mark that does not begin with its own end cannot overlap with itself, so a text in front of it
that does not hold the mark is all that is cut off there.
-/

namespace Recast.Text

/-- No end of the mark but the whole mark is its beginning. -/
def Unbordered (mark : Text) : Prop :=
  ∀ part ∈ mark.tails, part <+: mark → part = [] ∨ part = mark

instance : DecidablePred Unbordered := fun mark =>
  inferInstanceAs (Decidable (∀ part ∈ mark.tails, part <+: mark → part = [] ∨ part = mark))

section

variable {mark before tail t : Text}

/-- In front of a mark no mark begins that reaches into it. -/
theorem Unbordered.not_prefix (unbordered : Unbordered mark) (absent : ¬ mark <:+: before)
    (some : before ≠ []) (rest : Text) : ¬ mark <+: before ++ mark ++ rest := by
  rintro ⟨after, same⟩
  rw [List.append_assoc] at same
  rcases List.append_eq_append_iff.mp same with ⟨more, rfl, -⟩ | ⟨part, spelled, same⟩
  · exact absent ⟨[], more, by simp⟩
  · have ending : part ∈ mark.tails := by
      rw [List.mem_tails, spelled]
      exact List.suffix_append before part
    have start : part <+: mark := by
      refine List.prefix_of_prefix_length_le ⟨after, same.symm⟩ (List.prefix_append mark rest) ?_
      rw [spelled, List.length_append]
      omega
    rcases unbordered part ending start with rfl | rfl
    · rw [List.append_nil] at spelled
      exact absent (spelled ▸ List.infix_rfl)
    · exact some (List.append_left_eq_self.mp spelled.symm)

/-- A mark in a joined text is in the second part, or it stands across the joint. -/
theorem mark_of_append {s t rest : Text} (absent : ¬ mark <:+: s)
    (spelled : s ++ t = before ++ (mark ++ rest)) :
    (∃ between, t = between ++ (mark ++ rest)) ∨
      ∃ first second, first ≠ [] ∧ second ≠ [] ∧ first ++ second = mark ∧
        s = before ++ first ∧ t = second ++ rest := by
  rcases List.append_eq_append_iff.mp spelled with ⟨between, -, later⟩ | ⟨first, rfl, joint⟩
  · exact .inl ⟨between, later⟩
  · rcases List.append_eq_append_iff.mp joint with ⟨more, rfl, -⟩ | ⟨second, mark, right⟩
    · exact absurd ⟨before, more, List.append_assoc ..⟩ absent
    · by_cases none : first = []
      · subst none
        exact .inl ⟨[], by rw [right, mark]; rfl⟩
      · refine .inr ⟨first, second, none, ?_, mark.symm, rfl, right⟩
        rintro rfl
        exact absent ⟨before, [], by rw [mark]; simp⟩

theorem after?_eq_none : after? mark t = none ↔ ¬ mark <+: t := by
  rw [Option.eq_none_iff_forall_ne_some, ← not_exists_not]
  simp only [ne_eq, not_not, after?_eq_some]
  exact not_congr ⟨fun ⟨rest, same⟩ => ⟨rest, same.symm⟩, fun ⟨rest, same⟩ => ⟨rest, same.symm⟩⟩

/-- A cut at a mark is the cut at its first occurrence. -/
theorem cutAtText?_eq_some (unbordered : Unbordered mark) (some : mark ≠ []) :
    cutAtText? mark t = .some (before, tail) ↔
      t = before ++ mark ++ tail ∧ ¬ mark <:+: before := by
  induction t generalizing before tail with
  | nil =>
      rw [cutAtText?, if_neg (by simpa using some)]
      simp [some]
  | cons c rest ih =>
      rw [cutAtText?]
      cases first : after? mark (c :: rest) with
      | some tail' =>
          have spelled := after?_eq_some.mp first
          simp only [Option.some.injEq, Prod.mk.injEq]
          constructor
          · rintro ⟨rfl, rfl⟩
            exact ⟨spelled, by simpa using some⟩
          · rintro ⟨same, absent⟩
            have start : mark <+: before ++ mark ++ tail := same ▸ ⟨tail', spelled.symm⟩
            have none : before = [] := not_not.mp fun more =>
              unbordered.not_prefix absent more tail start
            subst none
            rw [spelled, List.nil_append, List.append_cancel_left_eq] at same
            exact ⟨rfl, same⟩
      | none =>
          have missed := after?_eq_none.mp first
          simp only [Option.map_eq_some_iff, Prod.exists, Prod.mk.injEq, ih]
          constructor
          · rintro ⟨before, tail, ⟨rfl, absent⟩, rfl, rfl⟩
            refine ⟨rfl, fun inside => ?_⟩
            rcases List.infix_cons_iff.mp inside with start | inside
            · refine missed (start.trans ⟨mark ++ tail, by simp⟩)
            · exact absent inside
          · rintro ⟨same, absent⟩
            cases before with
            | nil => exact absurd ⟨tail, by rw [same, List.nil_append]⟩ missed
            | cons d before =>
                obtain ⟨rfl, rfl⟩ := List.cons.inj same
                exact ⟨before, tail, ⟨rfl, fun inside => absent (List.infix_cons inside)⟩, rfl, rfl⟩

theorem cutAtText?_eq_none (some : mark ≠ []) : cutAtText? mark t = none ↔ ¬ mark <:+: t := by
  induction t with
  | nil =>
      rw [cutAtText?, if_neg (by simpa using some)]
      simp [some]
  | cons c rest ih =>
      rw [cutAtText?, List.infix_cons_iff, not_or, ← ih, ← after?_eq_none]
      cases after? mark (c :: rest) <;> simp

theorem hasPart_iff (some : mark ≠ []) : hasPart mark t = true ↔ mark <:+: t := by
  rw [hasPart, ← not_iff_not, Bool.not_eq_true, Option.isSome_eq_false_iff, Option.isNone_iff_eq_none,
    cutAtText?_eq_none some]

end

end Recast.Text
