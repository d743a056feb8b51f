import Recast.Proofs.Text.Cut
import Recast.Xml.Value

/-! # Scalars

The text of an element becomes a value unless it is an integer with too many digits.
-/

namespace Recast.Xml

theorem isDigit_of_isWhole {t : Text} (h : isWhole t = true) : ∀ c ∈ t, Text.isDigit c = true := by
  unfold isWhole at h
  split at h
  · decide
  · simp only [Bool.and_eq_true, decide_eq_true_eq, List.all_eq_true] at h
    obtain ⟨⟨least, most⟩, rest⟩ := h
    have digit : Char.isDigit _ = true := Bool.and_eq_true_iff.mpr
      ⟨decide_eq_true (Nat.le_trans (by decide) least), decide_eq_true most⟩
    refine List.forall_mem_cons.mpr ⟨?_, rest⟩
    rw [Text.isDigit, Text.digitValue?, if_pos digit]
    rfl
  · cases h

theorem not_mem_of_isWhole {t : Text} (whole : isWhole t = true) : '.' ∉ t := by
  intro member
  exact absurd (isDigit_of_isWhole whole '.' member) (by decide)

/-- The digits of an integer, and everything else of another text. -/
def afterSign : Text → Text
  | '-' :: digits => digits
  | digits => digits

/-- Is the text an integer with more digits than are converted? -/
def isOverlong (t : Text) : Bool :=
  isWhole (afterSign t) && decide (Json.maxDigits < (afterSign t).length)

theorem exists_scalar_iff {t : Text} : (∃ v, scalar t = .ok v) ↔ isOverlong t = false := by
  unfold scalar
  split
  rename_i negative body sign
  have same : afterSign t = body := by
    unfold afterSign
    split at sign <;> cases sign <;> simp
  simp only [isOverlong, same]
  cases whole : isWhole body with
  | true =>
      have none : Text.cutAt? '.' body = none := by
        cases found : Text.cutAt? '.' body with
        | none => rfl
        | some parts =>
            obtain ⟨rfl, -⟩ := Text.cutAt?_eq_some.mp found
            exact absurd (List.mem_append_right _ List.mem_cons_self) (not_mem_of_isWhole whole)
      rw [none]
      by_cases long : Json.maxDigits < body.length <;> simp [long]
  | false =>
      simp only [Bool.false_and, iff_true]
      split
      · simp only [Bool.false_eq_true, if_false]
        split
        · exact ⟨_, rfl⟩
        · split <;> exact ⟨_, rfl⟩
      · split <;> exact ⟨_, rfl⟩

end Recast.Xml
