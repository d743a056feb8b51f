import Recast.Proofs.Naming.Keys
import Recast.Proofs.Types.Lifting

/-! # What validators accept

A validator accepts values, an object as soon as the listed keys have values that are accepted.
A sample is accepted by its own validator, read from the text that is written for it, when the
items of every array in it are described alike.
-/

namespace Recast.Validator

open Json Name

mutual
/-- Does the value pass? A number is finite, an integer is whole in either notation, and an
object may have more keys than are listed. -/
def accepts : Validator → Json → Bool
  | .unknown, _ => true
  | .null, .null => true
  | .boolean, .bool _ => true
  | .string, .string _ => true
  | .number, .int _ => true
  | .number, .float x => x.isFinite
  | .integer, .int _ => true
  | .integer, .float x => x.isIntegral
  | .array item, .array items => items.all fun v => accepts item v
  | .object fields, .object members => acceptsFields fields members
  | _, _ => false

def acceptsFields : List (Text × Validator) → List (Text × Json) → Bool
  | [], _ => true
  | (key, value) :: fields, members =>
    (find? key members).any (fun v => accepts value v) && acceptsFields fields members
end

theorem accepts_array {item : Validator} {items : List Json} :
    accepts (.array item) (.array items) ↔ ∀ v ∈ items, accepts item v := by
  rw [accepts, List.all_eq_true]

theorem acceptsFields_iff {fields : List (Text × Validator)} {members : List (Text × Json)} :
    acceptsFields fields members ↔
      ∀ field ∈ fields, ∃ v, find? field.1 members = some v ∧ accepts field.2 v := by
  induction fields with
  | nil => simp [acceptsFields]
  | cons field fields ih =>
      obtain ⟨key, value⟩ := field
      rw [acceptsFields, Bool.and_eq_true, ih, Option.any_eq_true, List.forall_mem_cons]

theorem accepts_object {fields : List (Text × Validator)} {members : List (Text × Json)} :
    accepts (.object fields) (.object members) ↔
      ∀ field ∈ fields, ∃ v, find? field.1 members = some v ∧ accepts field.2 v := by
  rw [accepts, acceptsFields_iff]

/-! ## Reading a validator whose keys are read as they are -/

mutual
theorem spoken_of_keys (v : Validator) (same : ∀ object ∈ v.keys, ∀ key ∈ object, Name.spoken key = key) :
    spoken v = v := by
  cases v with
  | null | boolean | number | integer | string | unknown => rfl
  | array item => exact congrArg Validator.array (spoken_of_keys item same)
  | object fields =>
      rw [keys, List.forall_mem_cons] at same
      rw [spoken, spokenFields_of_keys fields same.1 same.2]
termination_by sizeOf v

theorem spokenFields_of_keys (fields : List (Text × Validator))
    (here : ∀ key ∈ fields.map (·.1), Name.spoken key = key)
    (inside : ∀ object ∈ keysOfFields fields, ∀ key ∈ object, Name.spoken key = key) :
    spokenFields fields = fields := by
  cases fields with
  | nil => rfl
  | cons field fields =>
      cases field with
      | mk key value =>
          rw [List.map_cons, List.forall_mem_cons] at here
          rw [keysOfFields, List.forall_mem_append] at inside
          rw [spokenFields, here.1, spoken_of_keys value inside.1,
            spokenFields_of_keys fields here.2 inside.2]
termination_by sizeOf fields
end

end Recast.Validator

namespace Recast.Json

open TypeExpr (Within)

/-- In no object inside has a key a line feed. -/
def KeysOnOneLine (v : Json) : Prop :=
  ∀ members, Within (.object members) v → ∀ member ∈ members, '\n' ∉ member.1

/-- The items of each array inside are described by one expression. -/
def Uniform (v : Json) : Prop :=
  ∀ items, Within (.array items) v → ∃ depth, ∀ x ∈ items, ∀ y ∈ items,
    (Validator.ofValue x).render depth = (Validator.ofValue y).render depth

theorem Uniform.array {items : List Json} (each : ∀ x ∈ items, x.Uniform) (depth : Nat)
    (alike : ∀ x ∈ items, ∀ y ∈ items,
      (Validator.ofValue x).render depth = (Validator.ofValue y).render depth) :
    (Json.array items).Uniform := by
  intro others inside
  cases inside with
  | refl => exact ⟨depth, alike⟩
  | item listed inside => exact each _ listed others inside

theorem Uniform.object {members : List (Text × Json)} (each : ∀ member ∈ members, member.2.Uniform) :
    (Json.object members).Uniform := by
  intro items inside
  cases inside with
  | member listed inside => exact each _ listed items inside

theorem keysOnOneLine_iff {v : Json} :
    v.KeysOnOneLine ↔ ∀ members ∈ v.objects, ∀ member ∈ members, '\n' ∉ member.1 := by
  simp only [KeysOnOneLine, mem_objects_iff]

/-- A value that its validator can be read from and that has no array of unlike items. -/
structure Regular (v : Json) : Prop where
  distinct : v.Distinct
  uniform : v.Uniform
  finite : v.everywhere finiteNumber = true
  single : v.KeysOnOneLine

theorem Regular.item {items : List Json} (h : Regular (.array items)) {x : Json}
    (listed : x ∈ items) : Regular x where
  distinct := distinctItems_iff.mp h.distinct x listed
  uniform := fun others inside => h.uniform others (.item listed inside)
  finite := everywhereItems_iff.mp h.finite x listed
  single := fun members inside => h.single members (.item listed inside)

theorem Regular.member {members : List (Text × Json)} (h : Regular (.object members))
    {member : Text × Json} (listed : member ∈ members) : Regular member.2 where
  distinct := distinctMembers_iff.mp h.distinct.2 member listed
  uniform := fun items inside => h.uniform items (.member listed inside)
  finite := everywhereMembers_iff.mp h.finite member listed
  single := fun others inside => h.single others (.member listed inside)

end Recast.Json

namespace Recast.Validator

open Json Name

theorem not_lineFed {key : Text} (single : '\n' ∉ key) : ¬ LineFed key := by
  rintro ⟨word, -, rfl⟩
  exact single (List.mem_append_right word List.mem_cons_self)

theorem spoken_ofValue {v : Json} (single : v.KeysOnOneLine) : spoken (ofValue v) = ofValue v := by
  apply spoken_of_keys
  intro keys listed key known
  rw [keys_ofValue] at listed
  obtain ⟨members, object, rfl⟩ := List.mem_map.mp listed
  obtain ⟨member, inside, rfl⟩ := List.mem_map.mp known
  have within := mem_objects_iff.mp (sampled_subset v object)
  exact spoken_eq_iff.mpr (not_lineFed (single members within member inside))

/-- The text that is written for a validator tells it. -/
theorem ofValue_eq_of_render {v w : Json} {depth : Nat} (single : v.KeysOnOneLine)
    (single' : w.KeysOnOneLine) (same : (ofValue v).render depth = (ofValue w).render depth) :
    ofValue v = ofValue w := by
  have read := read?_render (ofValue v) depth
  rw [same, read?_render, spoken_ofValue single, spoken_ofValue single'] at read
  exact (Option.some.inj read).symm

/-! ## Samples -/

theorem mem_ofMembers {members : List (Text × Json)} {field : Text × Validator} :
    field ∈ ofMembers members ↔ ∃ member ∈ members, field = (member.1, ofValue member.2) := by
  induction members with
  | nil => simp [ofMembers]
  | cons member members ih => simp [ofMembers, ih]

/-- The first item stands for all of them. -/
theorem accepts_ofValue_array {items : List Json} (regular : Regular (.array items))
    (each : ∀ x ∈ items, accepts (ofValue x) x) :
    accepts (ofValue (.array items)) (.array items) := by
  cases items with
  | nil => rfl
  | cons first rest =>
      obtain ⟨depth, alike⟩ := regular.uniform _ .refl
      rw [ofValue, accepts_array]
      intro x listed
      have here : first ∈ first :: rest := List.mem_cons_self
      have same : ofValue x = ofValue first :=
        ofValue_eq_of_render (regular.item listed).single (regular.item here).single
          (alike x listed first here)
      rw [← same]
      exact each x listed

theorem accepts_ofValue_object {members : List (Text × Json)}
    (distinct : (members.map (·.1)).Nodup)
    (each : ∀ member ∈ members, accepts (ofValue member.2) member.2) :
    accepts (ofValue (.object members)) (.object members) := by
  rw [ofValue, accepts_object]
  intro field listed
  obtain ⟨member, inside, rfl⟩ := mem_ofMembers.mp listed
  exact ⟨member.2, find?_of_nodup distinct inside, each member inside⟩

theorem accepts_ofValue (v : Json) (regular : Regular v) : accepts (ofValue v) v := by
  cases v with
  | null | bool | int | string => rfl
  | float x =>
      rw [ofValue]
      split
      · rename_i whole
        exact whole
      · exact regular.finite
  | array items =>
      apply accepts_ofValue_array regular
      intro x listed
      exact accepts_ofValue x (regular.item listed)
  | object members =>
      apply accepts_ofValue_object regular.distinct.1
      intro member listed
      have smaller := TypeExpr.sizeOf_member_lt listed
      exact accepts_ofValue member.2 (regular.member listed)
termination_by sizeOf v

/-- The expression that is written for a sample, at any depth, reads as a validator that accepts
the sample. -/
theorem read_render_accepts {v : Json} (distinct : v.Distinct) (uniform : v.Uniform)
    (finite : v.everywhere finiteNumber = true) (single : v.KeysOnOneLine) (depth : Nat) :
    ∃ schema, read? ((ofValue v).render depth) = some schema ∧ schema.accepts v := by
  refine ⟨ofValue v, ?_, accepts_ofValue v ⟨distinct, uniform, finite, single⟩⟩
  rw [read?_render, spoken_ofValue single]

/-- Two orders, with counts in either notation and a key that is quoted. -/
def orders : List Json :=
  [.object [("unit price", .float (.ofDecimal false 125 (-2))), ("counts", .array [.int 3])],
    .object [("unit price", .float (.ofDecimal false 5 (-1))),
      ("counts", .array [.float (.ofDecimal false 2 0), .int 1])]]

theorem read_render_accepts_orders :
    (Json.array orders).Distinct ∧ (Json.array orders).Uniform ∧
      (Json.array orders).everywhere finiteNumber = true ∧ (Json.array orders).KeysOnOneLine ∧
        ∃ schema, read? ((ofValue (.array orders)).render 2) = some schema ∧
          schema.accepts (.array orders) := by
  have distinct : (Json.array orders).Distinct := by
    simp [orders, Json.Distinct, DistinctItems, DistinctMembers]
  have uniform : (Json.array orders).Uniform := by
    have int (n : Int) : (Json.int n).Uniform := by
      intro _ inside
      cases inside
    have float (x : Binary64) : (Json.float x).Uniform := by
      intro _ inside
      cases inside
    have order (price : Binary64) (counts : List Json) (counted : (Json.array counts).Uniform) :
        (Json.object [("unit price", .float price), ("counts", .array counts)]).Uniform :=
      .object (by simpa using ⟨float price, counted⟩)
    have first := order (.ofDecimal false 125 (-2)) [.int 3]
      (.array (by simpa using int 3) 0 (by decide))
    have second := order (.ofDecimal false 5 (-1)) [.float (.ofDecimal false 2 0), .int 1]
      (.array (by simpa using ⟨float (.ofDecimal false 2 0), int 1⟩) 0 (by decide))
    exact .array (by simpa [orders] using ⟨first, second⟩) 2 (by decide)
  have finite : (Json.array orders).everywhere finiteNumber = true := by
    decide
  have single : (Json.array orders).KeysOnOneLine :=
    keysOnOneLine_iff.mpr (by decide)
  exact ⟨distinct, uniform, finite, single,
    read_render_accepts distinct uniform finite single 2⟩

end Recast.Validator
