import Mathlib.Data.List.Induction
import Mathlib.Data.List.Nodup

/-! # Lists without repetitions

The list that keeps the first of equal entries is built from the left, has no repetitions, and
is as long as before only when there were none.
-/

namespace Recast

variable {α : Type} [BEq α] [LawfulBEq α]

theorem eraseDups_concat (xs : List α) (x : α) :
    (xs ++ [x]).eraseDups = if x ∈ xs then xs.eraseDups else xs.eraseDups ++ [x] := by
  rw [List.eraseDups_append]
  by_cases known : x ∈ xs <;> simp [List.removeAll, List.eraseDups_cons, known]

theorem nodup_eraseDups (xs : List α) : xs.eraseDups.Nodup := by
  induction xs using List.reverseRecOn with
  | nil => exact List.nodup_nil
  | append_singleton xs x ih =>
      rw [eraseDups_concat]
      split
      · exact ih
      · rename_i new
        rw [← List.concat_eq_append, List.nodup_concat]
        exact ⟨by rwa [List.mem_eraseDups], ih⟩

theorem length_eraseDups_le (xs : List α) : xs.eraseDups.length ≤ xs.length := by
  induction xs using List.reverseRecOn with
  | nil => exact Nat.le_refl 0
  | append_singleton xs x ih =>
      rw [eraseDups_concat]
      split <;> simp only [List.length_append, List.length_singleton] <;> omega

/-- Nothing is left out exactly when nothing is repeated. -/
theorem length_eraseDups_eq_iff {xs : List α} : xs.eraseDups.length = xs.length ↔ xs.Nodup := by
  induction xs using List.reverseRecOn with
  | nil => simp
  | append_singleton xs x ih =>
      have most := length_eraseDups_le xs
      have whole : (xs ++ [x]).Nodup ↔ x ∉ xs ∧ xs.Nodup := by
        rw [← List.concat_eq_append, List.nodup_concat]
      rw [eraseDups_concat, whole, ← ih]
      split
      · rename_i known
        simp only [known, not_true, false_and, iff_false, List.length_append, List.length_singleton]
        omega
      · rename_i new
        simp [new]

end Recast
