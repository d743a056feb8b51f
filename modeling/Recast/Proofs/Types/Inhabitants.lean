import Recast.Proofs.Json.Accepted
import Recast.Proofs.Schema.Membership
import Recast.Proofs.Types.Unambiguous
import Recast.Proofs.Types.Unfolding

/-! # The values of inferred types

A sample belongs to the type inferred from it. The item type of every array inside it is made
of the types of its items and of nothing else: each of them occurs, and only once.
-/

namespace Recast.TypeExpr

open Json Schema

/-- The value belongs to the type. An object of a record type has the keys of the fields and
no others. Names, literals and intersections are not inferred and have no values here. -/
inductive Contains : TypeExpr → Json → Prop
  | primitive {kind : Primitive} {v : Json} :
      inPrimitive kind v = true → Contains (.primitive kind) v
  | unknown {v : Json} : Contains .unknown v
  | emptyRecord : Contains .emptyRecord (.object [])
  | array {item : TypeExpr} {grouped : Bool} {items : List Json} :
      (∀ x ∈ items, Contains item x) → Contains (.array item grouped) (.array items)
  | union {types : List TypeExpr} {type : TypeExpr} {v : Json} :
      type ∈ types → Contains type v → Contains (.union types) v
  | record {fields : List (Field TypeExpr)} {members : List (Text × Json)} :
      (∀ key, key ∈ fields.map Field.key ↔ key ∈ members.map Prod.fst) →
      (∀ field ∈ fields, ∀ x, find? field.key members = some x → Contains field.type x) →
      Contains (.record fields) (.object members)

/-- The first value is the second or lies inside it. -/
inductive Within : Json → Json → Prop
  | refl {v : Json} : Within v v
  | item {v item : Json} {items : List Json} :
      item ∈ items → Within v item → Within v (.array items)
  | member {v value : Json} {key : Text} {members : List (Text × Json)} :
      (key, value) ∈ members → Within v value → Within v (.object members)

/-- The first type is the second or stands inside it. -/
inductive Part : TypeExpr → TypeExpr → Prop
  | refl {type : TypeExpr} : Part type type
  | item {type item : TypeExpr} {grouped : Bool} :
      Part type item → Part type (.array item grouped)
  | choice {type member : TypeExpr} {members : List TypeExpr} :
      member ∈ members → Part type member → Part type (.union members)
  | both {type member : TypeExpr} {members : List TypeExpr} :
      member ∈ members → Part type member → Part type (.intersection members)
  | field {type : TypeExpr} {field : Field TypeExpr} {fields : List (Field TypeExpr)} :
      field ∈ fields → Part type field.type → Part type (.record fields)

/-- The types that a type is the union of: none for the unknown type, one for a type that
is no union. -/
def alternatives : TypeExpr → List TypeExpr
  | .unknown => []
  | .union members => members
  | type => [type]

/-! ## Unions -/

section

variable {types : List TypeExpr} {type : TypeExpr}

theorem contains_unionOf {v : Json} (member : type ∈ types) (contains : Contains type v) :
    Contains (unionOf types) v := by
  have kept := mem_distinct.mpr member
  unfold unionOf
  split
  · exact .unknown
  · rename_i only single
    rw [single, List.mem_singleton] at kept
    exact kept ▸ contains
  · exact .union kept contains

theorem part_unionOf (member : type ∈ types) : Part type (unionOf types) := by
  have kept := mem_distinct.mpr member
  unfold unionOf
  split
  · rename_i empty
    rw [empty] at kept
    cases kept
  · rename_i only single
    rw [single, List.mem_singleton] at kept
    exact kept ▸ .refl
  · exact .choice kept .refl

theorem part_of_unionOf (part : Part type (unionOf types)) :
    type = unionOf types ∨ ∃ member ∈ types, Part type member := by
  generalize whole : unionOf types = union at part
  unfold unionOf at whole
  split at whole
  · subst whole
    cases part
    exact .inl rfl
  · rename_i only single
    subst whole
    exact .inr ⟨only, mem_distinct.mp (single ▸ List.mem_singleton_self only), part⟩
  · subst whole
    cases part with
    | refl => exact .inl rfl
    | choice member inside => exact .inr ⟨_, mem_distinct.mp member, inside⟩

/-- Types that are neither unknown nor a union. -/
def isSingle : TypeExpr → Bool
  | .unknown | .union _ => false
  | _ => true

theorem alternatives_of_isSingle (single : type.isSingle) : alternatives type = [type] := by
  cases type with
  | unknown | union => cases single
  | _ => rfl

theorem alternatives_unionOf (single : ∀ type ∈ types, type.isSingle) :
    alternatives (unionOf types) = distinct types := by
  unfold unionOf
  split
  · rename_i empty
    exact empty.symm
  · rename_i only kept
    rw [kept]
    apply alternatives_of_isSingle
    exact single only (mem_distinct.mp (kept ▸ List.mem_singleton_self only))
  · rfl

theorem distinct_of_unionOf {members : List TypeExpr} (single : ∀ type ∈ types, type.isSingle)
    (h : unionOf types = .union members) : distinct types = members ∧ 2 ≤ members.length := by
  have kept := alternatives_unionOf single
  rw [h, alternatives] at kept
  refine ⟨kept.symm, ?_⟩
  unfold unionOf at h
  rw [← kept] at h
  match members with
  | [] => cases h
  | [only] =>
      have := single only (mem_distinct.mp (kept ▸ List.mem_singleton_self only))
      rw [show only = .union [only] from h] at this
      cases this
  | _ :: _ :: _ => simp

end

/-! ## The types of items and members -/

theorem mem_ofItems {items : List Json} {type : TypeExpr} :
    type ∈ ofItems items ↔ ∃ x ∈ items, ofValue x = type := by
  induction items with
  | nil => simp [ofItems]
  | cons item items ih => simp [ofItems, ih, eq_comm]

theorem mem_ofMembers {members : List (Text × Json)} {field : Field TypeExpr} :
    field ∈ ofMembers members ↔
      ∃ member ∈ members, field = { key := member.1, type := ofValue member.2 } := by
  induction members with
  | nil => simp [ofMembers]
  | cons member members ih => simp [ofMembers, ih]

theorem keys_ofMembers (members : List (Text × Json)) :
    (ofMembers members).map Field.key = members.map Prod.fst := by
  induction members with
  | nil => rfl
  | cons member members ih => exact congrArg (member.1 :: ·) ih

theorem isSingle_ofValue (v : Json) : (ofValue v).isSingle := by
  cases v with
  | null | bool | int | float | string => rfl
  | array items =>
      rw [ofValue_array]
      rfl
  | object members => cases members <;> rfl

theorem isSingle_ofItems (items : List Json) : ∀ type ∈ ofItems items, type.isSingle := by
  intro type member
  obtain ⟨x, -, rfl⟩ := mem_ofItems.mp member
  exact isSingle_ofValue x

/-! ## A sample has its type -/

theorem contains_ofItems {items : List Json} (each : ∀ x ∈ items, Contains (ofValue x) x) :
    Contains (ofValue (.array items)) (.array items) := by
  rw [ofValue_array]
  apply Contains.array
  intro x member
  exact contains_unionOf (mem_ofItems.mpr ⟨x, member, rfl⟩) (each x member)

theorem contains_ofMembers {members : List (Text × Json)}
    (distinct : (members.map Prod.fst).Nodup)
    (each : ∀ member ∈ members, Contains (ofValue member.2) member.2) :
    Contains (.record (ofMembers members)) (.object members) := by
  apply Contains.record
  · intro key
    rw [keys_ofMembers]
  · intro field listed x found
    obtain ⟨member, inside, rfl⟩ := mem_ofMembers.mp listed
    obtain ⟨before, after, split, -⟩ := List.lookup_eq_some_iff.mp found
    have same : member = (member.1, x) :=
      List.inj_on_of_nodup_map distinct inside (by simp [split]) rfl
    have here := each member inside
    rwa [same] at here ⊢

theorem sizeOf_member_lt {member : Text × Json} {members : List (Text × Json)}
    (listed : member ∈ members) : sizeOf member.2 < sizeOf (Json.object members) := by
  have inside := sizeOf_value_lt member
  have smaller := List.sizeOf_lt_of_mem listed
  simp only [Json.object.sizeOf_spec]
  omega

theorem contains_ofValue (v : Json) (distinct : v.Distinct) : Contains (ofValue v) v := by
  cases v with
  | null | bool | int | float | string => exact .primitive rfl
  | array items =>
      apply contains_ofItems
      intro x member
      exact contains_ofValue x (distinctItems_iff.mp distinct x member)
  | object members =>
      obtain ⟨keys, inside⟩ := distinct
      have each : ∀ member ∈ members, Contains (ofValue member.2) member.2 := by
        intro member listed
        have smaller := sizeOf_member_lt listed
        exact contains_ofValue member.2 (distinctMembers_iff.mp inside member listed)
      cases members with
      | nil => exact .emptyRecord
      | cons member members => exact contains_ofMembers keys each
termination_by sizeOf v

/-! ## Types inside the type of a sample -/

theorem Part.trans {first second third : TypeExpr} (inner : Part first second)
    (outer : Part second third) : Part first third := by
  induction outer with
  | refl => exact inner
  | item _ ih => exact .item ih
  | choice member _ ih => exact .choice member ih
  | both member _ ih => exact .both member ih
  | field member _ ih => exact .field member ih

/-- The type of what lies inside a sample stands inside the type of the sample. -/
theorem part_ofValue {w v : Json} (inside : Within w v) : Part (ofValue w) (ofValue v) := by
  induction inside with
  | refl => exact .refl
  | @item x items member _ ih =>
      rw [ofValue_array]
      exact .item (ih.trans (part_unionOf (mem_ofItems.mpr ⟨x, member, rfl⟩)))
  | @member value key members member _ ih =>
      obtain ⟨first, others, rfl⟩ := List.exists_cons_of_ne_nil (List.ne_nil_of_mem member)
      exact .field (mem_ofMembers.mpr ⟨_, member, rfl⟩) ih

/-- The type is that of a value inside the sample, or the item type of an array inside it. -/
def Arises (v : Json) (type : TypeExpr) : Prop :=
  (∃ w, Within w v ∧ type = ofValue w) ∨
    ∃ items, Within (.array items) v ∧ type = unionOf (ofItems items)

theorem Arises.imp {v w : Json} {type : TypeExpr} (h : Arises v type)
    (wider : ∀ x, Within x v → Within x w) : Arises w type := by
  rcases h with ⟨x, inside, same⟩ | ⟨items, inside, same⟩
  · exact .inl ⟨x, wider x inside, same⟩
  · exact .inr ⟨items, wider _ inside, same⟩

theorem arises_of_part (v : Json) {type : TypeExpr} (part : Part type (ofValue v)) :
    Arises v type := by
  cases v with
  | null | bool | int | float | string =>
      cases part
      exact .inl ⟨_, .refl, rfl⟩
  | array items =>
      rw [ofValue_array] at part
      cases part with
      | refl => exact .inl ⟨_, .refl, (ofValue_array items).symm⟩
      | item inside =>
          rcases part_of_unionOf inside with same | ⟨member, listed, within⟩
          · exact .inr ⟨items, .refl, same⟩
          · obtain ⟨x, member, rfl⟩ := mem_ofItems.mp listed
            exact (arises_of_part x within).imp fun _ => .item member
  | object members =>
      cases members with
      | nil =>
          cases part
          exact .inl ⟨_, .refl, rfl⟩
      | cons first others =>
          cases part with
          | refl => exact .inl ⟨_, .refl, rfl⟩
          | field listed inside =>
              obtain ⟨⟨key, value⟩, member, rfl⟩ := mem_ofMembers.mp listed
              have smaller := sizeOf_member_lt member
              exact (arises_of_part value inside).imp fun _ => .member member
termination_by sizeOf v

/-- A sample belongs to its type. At every array inside it the alternatives of the item type
are the types of the items, each of them once, and there are no other unions in the type. -/
theorem inference_sound {v : Json} (distinct : v.Distinct) :
    Contains (ofValue v) v ∧
      (∀ items, Within (.array items) v → ∃ item, ofValue (.array items) = .array item false ∧
        Part (.array item false) (ofValue v) ∧ (alternatives item).Nodup ∧
          ∀ type, type ∈ alternatives item ↔ ∃ x ∈ items, ofValue x = type) ∧
      ∀ members, Part (.union members) (ofValue v) →
        2 ≤ members.length ∧ members.Nodup ∧
          ∃ items, Within (.array items) v ∧
            ofValue (.array items) = .array (.union members) false := by
  refine ⟨contains_ofValue v distinct, ?_, ?_⟩
  · intro items inside
    have part := part_ofValue inside
    rw [ofValue_array] at part ⊢
    refine ⟨_, rfl, part, ?_, ?_⟩
    · rw [alternatives_unionOf (isSingle_ofItems items)]
      exact nodup_eraseDups _
    · intro type
      rw [alternatives_unionOf (isSingle_ofItems items), mem_distinct, mem_ofItems]
  · intro members part
    rcases arises_of_part v part with ⟨w, -, same⟩ | ⟨items, inside, same⟩
    · have single := isSingle_ofValue w
      rw [← same] at single
      cases single
    · obtain ⟨kept, several⟩ := distinct_of_unionOf (isSingle_ofItems items) same.symm
      refine ⟨several, kept ▸ nodup_eraseDups _, items, inside, ?_⟩
      rw [ofValue_array, same]

/-- Items of four kinds, two of them of one type, and arrays inside an object and an array. -/
def mixedItems : List Json :=
  [.object [("a", .array [.int 1, .bool true, .null]), ("b", .array [])], .array [.int 1],
    .string "x", .array [.int 2, .int 3], .object []]

theorem inference_sound_mixedItems :
    (Json.array mixedItems).Distinct ∧
      Contains
        (.array (.union [
          .record [⟨"a", .array (.union [.primitive .number, .primitive .boolean,
            .primitive .null]) false, false⟩, ⟨"b", .array .unknown false, false⟩],
          .array (.primitive .number) false, .primitive .string, .emptyRecord]) false)
        (.array mixedItems) := by
  have distinct : (Json.array mixedItems).Distinct := by
    simp [mixedItems, Json.Distinct, DistinctItems, DistinctMembers]
  exact ⟨distinct, (inference_sound distinct).1⟩

end Recast.TypeExpr
