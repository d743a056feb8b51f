import Recast.Proofs.Distinct
import Recast.Proofs.Naming.Declared

/-! # Unfolding declared names

A sample is described in two ways, by declarations that refer to each other and by one
expression. Writing each declaration out where it is referred to leads from the first
to the second.
-/

namespace Recast.TypeExpr

/-! ## Unions under a map -/

/-- Repeated members may be dropped before or after a map, the order of the rest is the same. -/
theorem distinct_map_distinct (f : TypeExpr → TypeExpr) (types : List TypeExpr) :
    distinct ((distinct types).map f) = distinct (types.map f) := by
  simp only [distinct]
  induction types using List.reverseRecOn with
  | nil => rfl
  | append_singleton types type ih =>
      rw [eraseDups_concat, List.map_append, List.map_singleton, eraseDups_concat]
      split
      · rename_i known
        rw [if_pos (List.mem_map_of_mem known)]
        exact ih
      · rw [List.map_append, List.map_singleton, eraseDups_concat, ih]
        simp only [List.mem_map, List.mem_eraseDups]

/-! ## Replacing names -/

mutual
/-- Every name replaced by what `f` gives for it, and unions formed anew. -/
def replaceNames (f : Text → TypeExpr) : TypeExpr → TypeExpr
  | .named name => f name
  | .array item grouped => .array (replaceNames f item) grouped
  | .union members => unionOf (replaceMembers f members)
  | .intersection members => .intersection (replaceMembers f members)
  | .record fields => .record (replaceFields f fields)
  | type => type

def replaceMembers (f : Text → TypeExpr) : List TypeExpr → List TypeExpr
  | [] => []
  | member :: members => replaceNames f member :: replaceMembers f members

def replaceFields (f : Text → TypeExpr) : List (Field TypeExpr) → List (Field TypeExpr)
  | [] => []
  | ⟨key, type, optional⟩ :: fields => ⟨key, replaceNames f type, optional⟩ :: replaceFields f fields
end

theorem replaceMembers_eq_map (f : Text → TypeExpr) (members : List TypeExpr) :
    replaceMembers f members = members.map (replaceNames f) := by
  induction members with
  | nil => rfl
  | cons member members ih => rw [replaceMembers, ih, List.map_cons]

theorem replaceNames_unionOf (f : Text → TypeExpr) (types : List TypeExpr) :
    replaceNames f (unionOf types) = unionOf (types.map (replaceNames f)) := by
  have again := distinct_map_distinct (replaceNames f) types
  rw [unionOf]
  split
  · rename_i empty
    rw [empty] at again
    rw [unionOf, ← again]
    rfl
  · rename_i only single
    rw [single] at again
    rw [unionOf, ← again]
    rfl
  · rw [replaceNames, replaceMembers_eq_map, unionOf, again, ← unionOf]

end Recast.TypeExpr

namespace Recast

/-- The type that a declaration gives a name to. -/
def Declaration.type (declaration : Declaration) : TypeExpr :=
  match declaration.fields with
  | [] => .emptyRecord
  | fields => .record fields

namespace TypeExpr

/-- The type that a name stands for, with `fuel` names unfolded on each way into it. -/
def unfoldName (declarations : List Declaration) : Nat → Text → TypeExpr
  | 0, name => .named name
  | fuel + 1, name =>
    match declarations.find? fun d => d.name = name with
    | some d => replaceNames (unfoldName declarations fuel) d.type
    | none => .named name

/-! ## Samples -/

theorem ofValue_array (items : List Json) :
    ofValue (.array items) = .array (unionOf (ofItems items)) false := by
  cases items with
  | nil => rfl
  | cons item items => rfl

/-- Each of the declarations is the one that its name is looked up as. -/
def Known (declarations new : List Declaration) : Prop :=
  ∀ d ∈ new, (declarations.find? fun d' => d'.name = d.name) = some d

theorem known_self {declarations : List Declaration}
    (distinct : (declarations.map Declaration.name).Nodup) : Known declarations declarations := by
  induction declarations with
  | nil => exact nofun
  | cons first others ih =>
      obtain ⟨new, distinct⟩ := List.nodup_cons.mp distinct
      intro d member
      rcases List.mem_cons.mp member with rfl | later
      · exact List.find?_cons_of_pos (by simp)
      · have other : first.name ≠ d.name := by
          intro same
          exact new (same ▸ List.mem_map_of_mem later)
        rw [List.find?_cons_of_neg (by simpa using other)]
        exact ih distinct d later

/-- From one state to a later one declarations are added, and whenever these are known and
there is fuel for each of them, the unfolding has the property. -/
def Unfolds (before later : Lifting) (property : (Text → TypeExpr) → Prop) : Prop :=
  ∃ new : List Declaration, later.declarations = before.declarations ++ new ∧
    ∀ declarations fuel, Known declarations new → new.length ≤ fuel →
      property (unfoldName declarations fuel)

section

variable {first second third : Lifting} {p q : (Text → TypeExpr) → Prop}

theorem Unfolds.refl (holds : ∀ f, p f) : Unfolds first first p :=
  ⟨[], (List.append_nil _).symm, fun _ _ _ _ => holds _⟩

theorem Unfolds.imp (h : Unfolds first second p) (weaker : ∀ f, p f → q f) :
    Unfolds first second q := by
  obtain ⟨new, grown, holds⟩ := h
  exact ⟨new, grown, fun ds fuel known enough => weaker _ (holds ds fuel known enough)⟩

theorem Unfolds.trans (h : Unfolds first second p) (h' : Unfolds second third q) :
    Unfolds first third fun f => p f ∧ q f := by
  obtain ⟨new, grown, holds⟩ := h
  obtain ⟨new', grown', holds'⟩ := h'
  refine ⟨new ++ new', by rw [grown', grown, List.append_assoc], ?_⟩
  intro declarations fuel known enough
  rw [List.length_append] at enough
  constructor
  · exact holds _ _ (fun d member => known d (List.mem_append_left _ member)) (by omega)
  · exact holds' _ _ (fun d member => known d (List.mem_append_right _ member)) (by omega)

/-- One more name is unfolded where the fields have been. -/
theorem Unfolds.object {state inner : Lifting} {pool : NamePool} {name : Text}
    {fields fields' : List (Field TypeExpr)}
    (h : Unfolds { state with pool } inner fun f => replaceFields f fields = fields') :
    Unfolds state { inner with declarations := inner.declarations ++ [⟨name, fields⟩] }
      fun f => f name = Declaration.type ⟨name, fields'⟩ := by
  obtain ⟨new, grown, holds⟩ := h
  refine ⟨new ++ [⟨name, fields⟩], by simp only [grown, List.append_assoc], ?_⟩
  intro declarations fuel known enough
  rw [List.length_append, List.length_singleton] at enough
  obtain ⟨fuel, rfl⟩ : ∃ less, fuel = less + 1 := ⟨fuel - 1, by omega⟩
  have inside := holds declarations fuel (fun d member => known d (List.mem_append_left _ member))
    (by omega)
  have found := known ⟨name, fields⟩ (List.mem_append_right _ (List.mem_singleton_self _))
  simp only [unfoldName, found]
  rw [← inside]
  cases fields <;> rfl

end

theorem ofValue_object (name : Text) (members : List (Text × Json)) :
    ofValue (.object members) = Declaration.type ⟨name, ofMembers members⟩ := by
  cases members with
  | nil => rfl
  | cons member members => rfl

mutual
theorem lift_unfolds (name : Text) (state : Lifting) (v : Json) :
    Unfolds state (lift name state v).2 fun f =>
      replaceNames f (lift name state v).1 = ofValue v := by
  cases v with
  | array items =>
      rw [lift_array, ofValue_array]
      refine (liftItems_unfolds (itemName name) state items).imp ?_
      intro f unfolded
      rw [replaceNames, replaceNames_unionOf, unfolded]
  | object members =>
      rw [ofValue_object (state.pool.claim (Name.pascal Name.root name)).1]
      exact (liftMembers_unfolds
        { state with pool := (state.pool.claim (Name.pascal Name.root name)).2 } members).object
  | null | bool | int | float | string => exact Unfolds.refl fun _ => rfl
termination_by sizeOf v

theorem liftItems_unfolds (name : Text) (state : Lifting) (items : List Json) :
    Unfolds state (liftItems name state items).2 fun f =>
      (liftItems name state items).1.map (replaceNames f) = ofItems items := by
  cases items with
  | nil => exact Unfolds.refl fun _ => rfl
  | cons item items =>
      refine ((lift_unfolds name state item).trans (liftItems_unfolds name _ items)).imp ?_
      rintro f ⟨here, later⟩
      rw [ofItems, ← here, ← later]
      rfl
termination_by sizeOf items

theorem liftMembers_unfolds (state : Lifting) (members : List (Text × Json)) :
    Unfolds state (liftMembers state members).2 fun f =>
      replaceFields f (liftMembers state members).1 = ofMembers members := by
  cases members with
  | nil => exact Unfolds.refl fun _ => rfl
  | cons member members =>
      obtain ⟨key, value⟩ := member
      refine ((lift_unfolds key state value).trans (liftMembers_unfolds _ members)).imp ?_
      rintro f ⟨here, later⟩
      rw [ofMembers, ← here, ← later]
      rfl
termination_by sizeOf members
end

/-- A sample's declarations, written out from the main one on, are its expression. -/
theorem unfoldName_root {members : List (Text × Json)}
    (distinct : ((declarationsOf members).map Declaration.name).Nodup) {fuel : Nat}
    (enough : (declarationsOf members).length ≤ fuel) :
    unfoldName (declarationsOf members) fuel Name.root = ofValue (.object members) := by
  have known := known_self distinct
  obtain ⟨new, grown, holds⟩ := liftMembers_unfolds { pool := (NamePool.claim Name.root []).2 } members
  have split : declarationsOf members =
      ⟨Name.root, (liftMembers { pool := (NamePool.claim Name.root []).2 } members).1⟩ :: new :=
    congrArg (_ :: ·) grown
  rw [split, List.length_cons] at enough
  obtain ⟨fuel, rfl⟩ : ∃ less, fuel = less + 1 := ⟨fuel - 1, by omega⟩
  have inside := holds (declarationsOf members) fuel
    (fun d member => known d (split ▸ List.mem_cons_of_mem _ member)) (by omega)
  have found := known _ (split ▸ List.mem_cons_self)
  simp only [unfoldName, found]
  rw [ofValue_object Name.root, ← inside]
  generalize (liftMembers _ members).1 = fields
  cases fields <;> rfl

/-- Two users of one shape, and an owner with tags. -/
def accountSample : List (Text × Json) :=
  [("users", .array [.object [("id", .int 1)], .object [("id", .int 2)], .null]),
    ("owner", .object [("tags", .array []), ("address", .object [])])]

theorem unfoldName_accountSample :
    ((declarationsOf accountSample).map Declaration.name).Nodup ∧
      (declarationsOf accountSample).length = 5 ∧
      unfoldName (declarationsOf accountSample) 5 Name.root = ofValue (.object accountSample) := by
  have distinct : ((declarationsOf accountSample).map Declaration.name).Nodup := by decide
  have size : (declarationsOf accountSample).length = 5 := by decide
  exact ⟨distinct, size, unfoldName_root distinct (Nat.le_of_eq size)⟩

end TypeExpr
end Recast
