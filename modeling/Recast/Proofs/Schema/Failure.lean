import Recast.Proofs.Schema.Form

/-! # Schemas that do not convert

Conversion gives up in one place only, at a combinator that is not given a list of schemas,
and the failure names that combinator.
-/

namespace Recast.Schema

open Json

section

variable {defs : List Definition} {members : List (Text × Json)} {e : MalformedCombinator}

/-- The failures of all smaller schemas name a combinator. -/
def NamedBelow (defs : List Definition) (size : Nat) : Prop :=
  ∀ schema e, sizeOf schema < size → convert defs schema = .error e → e.keyword ∈ combinators

theorem NamedBelow.all {size : Nat} (below : NamedBelow defs size) {schemas : List Json}
    (small : sizeOf schemas ≤ size) (failed : convertAll defs schemas = .error e) :
    e.keyword ∈ combinators := by
  rw [convertAll_eq_mapM] at failed
  obtain ⟨schema, listed, here⟩ := exists_of_mapM_eq_error failed
  have := List.sizeOf_lt_of_mem listed
  exact below schema e (by omega) here

theorem NamedBelow.convertArray (below : NamedBelow defs (sizeOf members))
    (failed : convertArray defs members = .error e) : e.keyword ∈ combinators := by
  rw [convertArray_eq] at failed
  split at failed
  · cases failed
  · rename_i schemas found
    have small := sizeOf_lt_of_find? found
    simp only [Json.array.sizeOf_spec] at small
    exact below.all (by omega) (map_eq_error.mp failed)
  · rename_i schema _ found
    exact below schema e (sizeOf_lt_of_find? found) (map_eq_error.mp failed)

theorem NamedBelow.convertObject (below : NamedBelow defs (sizeOf members))
    (failed : convertObject defs members = .error e) : e.keyword ∈ combinators := by
  rw [convertObject_eq] at failed
  split at failed
  · rename_i properties found
    rw [map_eq_error, convertFields_eq_mapM] at failed
    obtain ⟨⟨key, schema⟩, listed, here⟩ := exists_of_mapM_eq_error failed
    have small := sizeOf_lt_of_find? found
    have := List.sizeOf_lt_of_mem listed
    simp only [Json.object.sizeOf_spec, Prod.mk.sizeOf_spec] at small this
    exact below schema e (by omega) (map_eq_error.mp here)
  · cases failed

theorem NamedBelow.convertKind (below : NamedBelow defs (sizeOf members)) {kind : Json}
    (failed : convertKind defs members kind = .error e) : e.keyword ∈ combinators := by
  rw [Schema.convertKind] at failed
  split at failed
  · exact below.convertArray failed
  · split at failed
    · exact below.convertObject failed
    · split at failed
      · exact below.convertArray failed
      · cases failed

theorem NamedBelow.convertTypes (below : NamedBelow defs (sizeOf members))
    (failed : convertTypes defs members = .error e) : e.keyword ∈ combinators := by
  unfold Schema.convertTypes at failed
  split at failed
  · rw [map_eq_error, convertKinds_eq_mapM] at failed
    obtain ⟨kind, -, here⟩ := exists_of_mapM_eq_error failed
    exact below.convertKind here
  · exact below.convertKind failed
  · exact below.convertKind failed

/-- A combinator fails itself, or one of its schemas does. -/
theorem NamedBelow.list {size : Nat} (below : NamedBelow defs size) {keyword : Text} {list : Json}
    (known : keyword ∈ combinators) (small : sizeOf list ≤ size)
    (failed : convertList defs keyword list = .error e) : e.keyword ∈ combinators := by
  cases list with
  | array schemas =>
      rw [convertList] at failed
      split at failed
      · simp only [Json.array.sizeOf_spec] at small
        exact below.all (by omega) failed
      · cases failed
        exact known
  | _ =>
      rw [convertList] at failed
      · cases failed
        exact known
      · simp

theorem keyword_of_convert {schema : Json} (failed : convert defs schema = .error e) :
    e.keyword ∈ combinators := by
  induction size : sizeOf schema using Nat.strongRecOn generalizing schema e with
  | _ n ih =>
      subst size
      cases schema with
      | object members =>
          have below : NamedBelow defs (sizeOf members) := by
            intro schema e small here
            exact ih _ (by simp only [Json.object.sizeOf_spec]; omega) here rfl
          have combined {keyword : Text} {list : Json} (known : keyword ∈ combinators)
              (found : find? keyword members = some list)
              {combine : List TypeExpr → TypeExpr}
              (here : (convertList defs keyword list).map combine = .error e) :
              e.keyword ∈ combinators :=
            below.list known (Nat.le_of_lt (sizeOf_lt_of_find? found)) (map_eq_error.mp here)
          rw [convert] at failed
          split at failed
          · cases failed
          split at failed
          · cases failed
          split at failed
          · cases failed
          split at failed
          · exact combined (by simp [combinators]) ‹_› failed
          split at failed
          · exact combined (by simp [combinators]) ‹_› failed
          split at failed
          · exact combined (by simp [combinators]) ‹_› failed
          · exact below.convertTypes failed
      | _ =>
          rw [convert] at failed
          · cases failed
          · simp

end

/-- The code for a value fails only at a combinator of the document or of a definition. -/
theorem keyword_of_code {v : Json} {e : MalformedCombinator} (failed : code v = .error e) :
    e.keyword ∈ combinators := by
  unfold code at failed
  split at failed
  · unfold codeOfDocument at failed
    rw [bind_eq_error] at failed
    rcases failed with document | ⟨type, -, failed⟩
    · exact keyword_of_convert document
    · rw [bind_eq_error] at failed
      rcases failed with others | ⟨texts, -, none⟩
      · obtain ⟨d, -, failed⟩ := exists_of_mapM_eq_error others
        rw [bind_eq_error] at failed
        rcases failed with definition | ⟨type, -, none⟩
        · exact keyword_of_convert definition
        · cases none
      · cases none
  · cases failed

end Recast.Schema
