import Recast.Proofs.Schema.Conversion

/-! # Types that conversion builds

A schema is converted to types without parts and to combinations of the types of smaller
schemas. What holds of the former and is kept by the latter holds of all types of schemas.
-/

namespace Recast.Schema

/-- The condition holds of the types without parts, and of those made of types that it
holds of. -/
structure Closed (defs : List Definition) (P : TypeExpr → Prop) : Prop where
  unknown : P .unknown
  primitive : ∀ kind, P (.primitive kind)
  literal : ∀ v, P (literal v)
  named : ∀ name, (name = Name.root ∨ ∃ d ∈ defs, d.name = name) → P (.named name)
  array : ∀ item, P item → P (.array item true)
  union : ∀ types, (∀ type ∈ types, P type) → P (.unionOf types)
  intersection : ∀ types, (∀ type ∈ types, P type) → P (.intersectionOf types)
  record : ∀ fields : List (Field TypeExpr), (∀ field ∈ fields, P field.type) → P (.record fields)

section

variable {defs : List Definition} {P : TypeExpr → Prop} {members : List (Text × Json)}

theorem Closed.resolve (closed : Closed defs P) (ref : Json) : P (resolve defs ref) := by
  unfold Schema.resolve
  split
  · split
    · exact closed.named _ (.inl rfl)
    · split
      · exact closed.unknown
      · split
        · split
          · split
            · rename_i d found
              exact closed.named _ (.inr ⟨d, List.mem_of_find?_eq_some found, rfl⟩)
            · exact closed.unknown
          · exact closed.unknown
        · exact closed.unknown
  · exact closed.unknown

theorem Closed.scalar (closed : Closed defs P) (kind : Json) :
    P ((scalarType? kind).getD .unknown) := by
  unfold scalarType?
  split
  · repeat' split
    all_goals first | exact closed.primitive _ | exact closed.unknown
  · exact closed.unknown

/-- All smaller schemas convert to types that the condition holds of. -/
def Below (defs : List Definition) (P : TypeExpr → Prop) (size : Nat) : Prop :=
  ∀ schema type, sizeOf schema < size → convert defs schema = .ok type → P type

theorem Below.all {size : Nat} (below : Below defs P size) {schemas : List Json}
    (small : sizeOf schemas ≤ size) {types : List TypeExpr}
    (converted : convertAll defs schemas = .ok types) : ∀ type ∈ types, P type := by
  intro type member
  obtain ⟨schema, listed, here⟩ :=
    exists_of_forall₂_right (convertAll_eq_ok.mp converted) member
  have := List.sizeOf_lt_of_mem listed
  exact below schema type (by omega) here

theorem Closed.convertArray (closed : Closed defs P) (below : Below defs P (sizeOf members))
    {type : TypeExpr} (converted : convertArray defs members = .ok type) : P type := by
  rw [convertArray_eq] at converted
  split at converted
  · cases converted
    exact closed.array _ closed.unknown
  · rename_i schemas found
    have small := sizeOf_lt_of_find? found
    rw [map_eq_ok] at converted
    obtain ⟨types, each, rfl⟩ := converted
    simp only [Json.array.sizeOf_spec] at small
    exact closed.array _ (closed.union _ (below.all (by omega) each))
  · rename_i schema _ found
    rw [map_eq_ok] at converted
    obtain ⟨type, here, rfl⟩ := converted
    exact closed.array _ (below schema type (sizeOf_lt_of_find? found) here)

theorem Closed.convertObject (closed : Closed defs P) (below : Below defs P (sizeOf members))
    {type : TypeExpr} (converted : convertObject defs members = .ok type) : P type := by
  rw [convertObject_eq] at converted
  split at converted
  · rename_i properties found
    have small := sizeOf_lt_of_find? found
    rw [map_eq_ok] at converted
    obtain ⟨fields, each, rfl⟩ := converted
    refine closed.record _ fun field member => ?_
    obtain ⟨⟨key, schema⟩, listed, here⟩ :=
      exists_of_forall₂_right (convertFields_eq_ok.mp each) member
    have := List.sizeOf_lt_of_mem listed
    simp only [Json.object.sizeOf_spec, Prod.mk.sizeOf_spec] at small this
    exact below schema field.type (by omega) (convertField_eq_ok.mp here).1
  · cases converted
    exact closed.record _ (by simp)

theorem Closed.convertKind (closed : Closed defs P) (below : Below defs P (sizeOf members))
    {kind : Json} {type : TypeExpr} (converted : convertKind defs members kind = .ok type) :
    P type := by
  rw [Schema.convertKind] at converted
  split at converted
  · exact closed.convertArray below converted
  · split at converted
    · exact closed.convertObject below converted
    · split at converted
      · exact closed.convertArray below converted
      · cases converted
        exact closed.scalar kind

theorem Below.list {size : Nat} (below : Below defs P size) {keyword : Text} {list : Json}
    (small : sizeOf list ≤ size) {types : List TypeExpr}
    (converted : convertList defs keyword list = .ok types) : ∀ type ∈ types, P type := by
  cases list with
  | array schemas =>
      rw [convertList] at converted
      split at converted
      · simp only [Json.array.sizeOf_spec] at small
        exact below.all (by omega) converted
      · cases converted
  | _ =>
      rw [convertList] at converted
      · cases converted
      · simp

theorem Closed.convertTypes (closed : Closed defs P) (below : Below defs P (sizeOf members))
    {type : TypeExpr} (converted : convertTypes defs members = .ok type) : P type := by
  unfold Schema.convertTypes at converted
  split at converted
  · rw [map_eq_ok] at converted
    obtain ⟨types, each, rfl⟩ := converted
    refine closed.union _ fun type member => ?_
    obtain ⟨kind, -, here⟩ := exists_of_forall₂_right (convertKinds_eq_ok.mp each) member
    exact closed.convertKind below here
  · exact closed.convertKind below converted
  · exact closed.convertKind below converted

/-- A condition that is closed holds of all types that schemas convert to. -/
theorem Closed.convert (closed : Closed defs P) {schema : Json} {type : TypeExpr}
    (converted : convert defs schema = .ok type) : P type := by
  induction size : sizeOf schema using Nat.strongRecOn generalizing schema type with
  | _ n ih =>
      subst size
      have below : Below defs P (sizeOf schema) := fun schema type small here =>
        ih _ small here rfl
      cases schema with
      | object members =>
          simp only [Json.object.sizeOf_spec] at below
          have inside : Below defs P (sizeOf members) := fun schema type small here =>
            below schema type (by omega) here
          have combined {keyword : Text} {list : Json} {combine : List TypeExpr → TypeExpr}
              (found : Json.find? keyword members = some list)
              (combines : ∀ types, (∀ type ∈ types, P type) → P (combine types))
              (here : (convertList defs keyword list).map combine = .ok type) : P type := by
            rw [map_eq_ok] at here
            obtain ⟨types, each, rfl⟩ := here
            exact combines types (inside.list (Nat.le_of_lt (sizeOf_lt_of_find? found)) each)
          rw [Schema.convert] at converted
          split at converted
          · cases converted
            refine closed.union _ fun type member => ?_
            obtain ⟨v, -, rfl⟩ := List.mem_map.mp member
            exact closed.literal v
          split at converted
          · cases converted
            exact closed.resolve _
          split at converted
          · cases converted
            exact closed.literal _
          split at converted
          · exact combined ‹_› closed.union converted
          split at converted
          · exact combined ‹_› closed.union converted
          split at converted
          · exact combined ‹_› closed.intersection converted
          · exact closed.convertTypes inside converted
      | _ =>
          rw [Schema.convert] at converted
          · cases converted
            exact closed.unknown
          · simp
end

end Recast.Schema
