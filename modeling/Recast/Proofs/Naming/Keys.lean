import Recast.Proofs.Json.Written
import Recast.Proofs.Types.Interface
import Recast.Proofs.Validator.Reading

/-! # Reading the keys of a sample

The interfaces and the validator of a sample name the keys of its objects. They read back as
these keys, unless one of them is an identifier with a line feed behind it: that one reads as
the bare identifier.
-/

namespace Recast.Json

open Name TypeExpr

/-! ## Distinct keys -/

mutual
theorem nodup_objects {v : Json} (distinct : v.Distinct) :
    ∀ object ∈ v.objects, (object.map (·.1)).Nodup := by
  cases v with
  | null | bool | int | float | string => exact List.forall_mem_nil _
  | array items => exact nodup_objectsOfItems distinct
  | object members =>
      exact List.forall_mem_append.mpr
        ⟨nodup_objectsOfMembers distinct.2, List.forall_mem_singleton.mpr distinct.1⟩
termination_by sizeOf v

theorem nodup_objectsOfItems {items : List Json} (distinct : DistinctItems items) :
    ∀ object ∈ objectsOfItems items, (object.map (·.1)).Nodup := by
  cases items with
  | nil => exact List.forall_mem_nil _
  | cons item items =>
      exact List.forall_mem_append.mpr
        ⟨nodup_objects distinct.1, nodup_objectsOfItems distinct.2⟩
termination_by sizeOf items

theorem nodup_objectsOfMembers {members : List (Text × Json)} (distinct : DistinctMembers members) :
    ∀ object ∈ objectsOfMembers members, (object.map (·.1)).Nodup := by
  cases members with
  | nil => exact List.forall_mem_nil _
  | cons member members =>
      cases member with
      | mk key value =>
          exact List.forall_mem_append.mpr
            ⟨nodup_objects distinct.1, nodup_objectsOfMembers distinct.2⟩
termination_by sizeOf members
end

mutual
theorem sampled_subset (v : Json) : v.sampled ⊆ v.objects := by
  cases v with
  | null | bool | int | float | string => exact List.Subset.refl _
  | array items =>
      cases items with
      | nil => exact List.Subset.refl _
      | cons item items => exact List.subset_append_of_subset_left _ (sampled_subset item)
  | object members =>
      refine List.cons_subset.mpr ⟨List.mem_append_right _ (List.mem_singleton_self _), ?_⟩
      exact List.subset_append_of_subset_left _ (sampledOfMembers_subset members)
termination_by sizeOf v

theorem sampledOfMembers_subset (members : List (Text × Json)) :
    sampledOfMembers members ⊆ objectsOfMembers members := by
  cases members with
  | nil => exact List.Subset.refl _
  | cons member members =>
      obtain ⟨key, value⟩ := member
      exact List.append_subset.mpr
        ⟨List.subset_append_of_subset_left _ (sampled_subset value),
          List.subset_append_of_subset_right _ (sampledOfMembers_subset members)⟩
termination_by sizeOf members
end

/-! ## Reading -/

/-- The interfaces of a sample read as the keys of its objects, each once, in order and required,
exactly when none of the keys is an identifier with a line feed behind it. So does the
validator, for the objects that it describes. -/
theorem read_keys_iff {members : List (Text × Json)} (distinct : (object members).Distinct)
    (depth : Nat) :
    ((describe (.object members)).declarations.map Declaration.readInterface? =
        ((members :: objectsOfMembers members).map fun object =>
          some (object.map fun (key, _) => (key, false))) ↔
      ∀ object ∈ members :: objectsOfMembers members, ∀ member ∈ object, ¬ LineFed member.1) ∧
    ((Validator.read? ((Validator.ofValue (.object members)).render depth)).map Validator.keys =
        some ((sampled (.object members)).map fun object => object.map (·.1)) ↔
      ∀ object ∈ sampled (.object members), ∀ member ∈ object, ¬ LineFed member.1) ∧
    ∀ object ∈ members :: objectsOfMembers members ++ sampled (.object members),
      (object.map (·.1)).Nodup := by
  refine ⟨?_, ?_, ?_⟩
  · rw [readInterface?_describe]
    simp only [List.map_inj_left, Option.some.injEq, Prod.mk.injEq, and_true, spoken_eq_iff]
  · rw [Validator.map_keys_read?_render, Option.some.injEq]
    simp only [List.map_inj_left, spoken_eq_iff]
  · intro inner known
    apply nodup_objects distinct
    rcases List.mem_append.mp known with listed | described
    · rcases List.mem_cons.mp listed with rfl | nested
      · exact List.mem_append_right _ (List.mem_singleton_self _)
      · exact List.mem_append_left _ nested
    · exact sampled_subset _ described

/-- Keys with blanks, quotes and line feeds, in objects of an array and of the object itself. -/
def oddKeys : List (Text × Json) :=
  [("a\n b", .array [.object [("\"é\"", .null), ("\n", .int 1)], .object [("a_1", .bool true)]]),
    ("2\n", .object [])]

theorem read_keys_oddKeys :
    (object oddKeys).Distinct ∧
      (describe (.object oddKeys)).declarations.map Declaration.readInterface? =
        [some [("a\n b".toList, false), ("2\n".toList, false)],
          some [("\"é\"".toList, false), ("\n".toList, false)], some [("a_1".toList, false)],
          some []] ∧
      (Validator.read? ((Validator.ofValue (.object oddKeys)).render 1)).map Validator.keys =
        some [["a\n b".toList, "2\n".toList], ["\"é\"".toList, "\n".toList], []] := by
  have distinct : (object oddKeys).Distinct :=
    ⟨by decide, ⟨⟨by decide, trivial, trivial, trivial⟩, ⟨by decide, trivial, trivial⟩, trivial⟩,
      ⟨by decide, trivial⟩, trivial⟩
  obtain ⟨interfaces, validator, -⟩ := read_keys_iff distinct 1
  exact ⟨distinct, interfaces.mpr (by decide), validator.mpr (by decide)⟩

/-- The second key of this object reads as the first. -/
def lineFedKey : List (Text × Json) := [("a", .int 1), ("a\n", .int 2)]

theorem misread_lineFedKey :
    (describe (.object lineFedKey)).declarations.map Declaration.readInterface? =
        [some [("a".toList, false), ("a".toList, false)]] ∧
      (Validator.read? ((Validator.ofValue (.object lineFedKey)).render 0)).map Validator.keys =
        some [["a".toList, "a".toList]] ∧
      lineFedKey.map (·.1) ≠ ["a".toList, "a".toList] := by
  refine ⟨by decide, by decide, by decide⟩

end Recast.Json
