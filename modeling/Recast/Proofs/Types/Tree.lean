import Mathlib.Logic.Basic
import Recast.TypeExpr.Basic

/-! # Types as trees

What a type says, whichever parentheses it is written with. A combination directly inside
another one with the same operator says the same as one combination of all their parts.
-/

namespace Recast

inductive Operator where
  | or
  | and
  deriving DecidableEq, Repr

/-- A type as it is understood, in which the constants of a literal are types of their own. -/
inductive TypeTree where
  | keyword (word : Text)
  | reference (name : Text)
  /-- The type of one string or number. -/
  | literal (text : Text)
  | array (item : TypeTree)
  | tuple (items : List TypeTree)
  | combination (op : Operator) (members : List TypeTree)
  | record (fields : List (Field TypeTree))
  deriving Repr, Inhabited

namespace TypeTree

def isUnion : TypeTree → Bool
  | .combination .or _ => true
  | _ => false

/-- The combination of some types, where one alone stands for itself. -/
def joined (op : Operator) : List TypeTree → TypeTree
  | [type] => type
  | types => .combination op types

/-- The types that a type joins by an operator: itself, if it is no such combination. -/
def parts (op : Operator) : TypeTree → List TypeTree
  | .combination op' members =>
    if op' = op then members else [.combination op' members]
  | type => [type]

mutual
/-- The tree with no combination directly inside one with the same operator. -/
def flat : TypeTree → TypeTree
  | .keyword word => .keyword word
  | .reference name => .reference name
  | .literal text => .literal text
  | .array item => .array (flat item)
  | .tuple items => .tuple (flatAll items)
  | .combination op members => joined op ((flatAll members).flatMap (parts op))
  | .record fields => .record (flatFields fields)

def flatAll : List TypeTree → List TypeTree
  | [] => []
  | type :: types => flat type :: flatAll types

def flatFields : List (Field TypeTree) → List (Field TypeTree)
  | [] => []
  | ⟨key, type, optional⟩ :: fields => ⟨key, flat type, optional⟩ :: flatFields fields
end

theorem sizeOf_type_lt (field : Field TypeTree) : sizeOf field.type < sizeOf field := by
  obtain ⟨key, type, optional⟩ := field
  rw [Field.mk.sizeOf_spec]
  change sizeOf type < _
  omega

/-- A tree is reached through its items, members and fields. -/
@[elab_as_elim, induction_eliminator]
theorem induction {motive : TypeTree → Prop} (keyword : ∀ word, motive (.keyword word))
    (reference : ∀ name, motive (.reference name)) (literal : ∀ text, motive (.literal text))
    (array : ∀ item, motive item → motive (.array item))
    (tuple : ∀ items, (∀ item ∈ items, motive item) → motive (.tuple items))
    (combination : ∀ op members, (∀ member ∈ members, motive member) →
      motive (.combination op members))
    (record : ∀ fields, (∀ field ∈ fields, motive field.type) → motive (.record fields))
    (type : TypeTree) : motive type := by
  cases type with
  | keyword word => exact keyword word
  | reference name => exact reference name
  | literal text => exact literal text
  | array item =>
      exact array item
        (induction keyword reference literal array tuple combination record item)
  | tuple items =>
      exact tuple items fun item _ =>
        induction keyword reference literal array tuple combination record item
  | combination op members =>
      exact combination op members fun member _ =>
        induction keyword reference literal array tuple combination record member
  | record fields =>
      exact record fields fun field _ =>
        induction keyword reference literal array tuple combination record field.type
termination_by sizeOf type
decreasing_by
  · rw [TypeTree.array.sizeOf_spec]
    omega
  · have := List.sizeOf_lt_of_mem ‹item ∈ items›
    rw [TypeTree.tuple.sizeOf_spec]
    omega
  · have := List.sizeOf_lt_of_mem ‹member ∈ members›
    rw [TypeTree.combination.sizeOf_spec]
    omega
  · have := List.sizeOf_lt_of_mem ‹field ∈ fields›
    have := sizeOf_type_lt field
    rw [TypeTree.record.sizeOf_spec]
    omega

theorem flatAll_eq_map (types : List TypeTree) : flatAll types = types.map flat := by
  induction types with
  | nil => rfl
  | cons type types ih => rw [flatAll, ih, List.map_cons]

theorem flatFields_eq_map (fields : List (Field TypeTree)) :
    flatFields fields =
      fields.map fun field => ⟨field.key, field.type.flat, field.optional⟩ := by
  induction fields with
  | nil => rfl
  | cons field fields ih => rw [flatFields, ih, List.map_cons]

/-! ## Nodes -/

mutual
def nodes : TypeTree → List TypeTree
  | .array item => .array item :: nodes item
  | .tuple items => .tuple items :: nodesAll items
  | .combination op members => .combination op members :: nodesAll members
  | .record fields => .record fields :: nodesFields fields
  | type => [type]

def nodesAll : List TypeTree → List TypeTree
  | [] => []
  | type :: types => nodes type ++ nodesAll types

def nodesFields : List (Field TypeTree) → List TypeTree
  | [] => []
  | ⟨_, type, _⟩ :: fields => nodes type ++ nodesFields fields
end

def Everywhere (p : TypeTree → Prop) (type : TypeTree) : Prop := ∀ node ∈ type.nodes, p node

instance (p : TypeTree → Prop) [DecidablePred p] (type : TypeTree) :
    Decidable (Everywhere p type) :=
  inferInstanceAs (Decidable (∀ node ∈ type.nodes, p node))

section

variable {p : TypeTree → Prop}

theorem mem_nodesAll {node : TypeTree} {types : List TypeTree} :
    node ∈ nodesAll types ↔ ∃ type ∈ types, node ∈ type.nodes := by
  induction types with
  | nil => exact ⟨nofun, nofun⟩
  | cons type types ih =>
      simp only [List.mem_cons, exists_eq_or_imp, ← ih]
      exact List.mem_append

theorem mem_nodesFields {node : TypeTree} {fields : List (Field TypeTree)} :
    node ∈ nodesFields fields ↔ ∃ field ∈ fields, node ∈ field.type.nodes := by
  induction fields with
  | nil => exact ⟨nofun, nofun⟩
  | cons field fields ih =>
      simp only [List.mem_cons, exists_eq_or_imp, ← ih]
      exact List.mem_append

theorem everywhere_nodesAll {types : List TypeTree} :
    (∀ node ∈ nodesAll types, p node) ↔ ∀ type ∈ types, Everywhere p type := by
  simp only [mem_nodesAll]
  exact ⟨fun h type member node inside => h node ⟨type, member, inside⟩,
    fun h node ⟨type, member, inside⟩ => h type member node inside⟩

theorem everywhere_nodesFields {fields : List (Field TypeTree)} :
    (∀ node ∈ nodesFields fields, p node) ↔ ∀ field ∈ fields, Everywhere p field.type := by
  simp only [mem_nodesFields]
  exact ⟨fun h field member node inside => h node ⟨field, member, inside⟩,
    fun h node ⟨field, member, inside⟩ => h field member node inside⟩

@[simp] theorem everywhere_keyword {word : Text} : Everywhere p (.keyword word) ↔ p (.keyword word) :=
  List.forall_mem_singleton

@[simp] theorem everywhere_reference {name : Text} :
    Everywhere p (.reference name) ↔ p (.reference name) :=
  List.forall_mem_singleton

@[simp] theorem everywhere_literal {text : Text} : Everywhere p (.literal text) ↔ p (.literal text) :=
  List.forall_mem_singleton

@[simp] theorem everywhere_array {item : TypeTree} :
    Everywhere p (.array item) ↔ p (.array item) ∧ Everywhere p item :=
  List.forall_mem_cons

@[simp] theorem everywhere_tuple {items : List TypeTree} :
    Everywhere p (.tuple items) ↔ p (.tuple items) ∧ ∀ item ∈ items, Everywhere p item :=
  List.forall_mem_cons.trans (and_congr_right fun _ => everywhere_nodesAll)

@[simp] theorem everywhere_combination {op : Operator} {members : List TypeTree} :
    Everywhere p (.combination op members) ↔
      p (.combination op members) ∧ ∀ member ∈ members, Everywhere p member :=
  List.forall_mem_cons.trans (and_congr_right fun _ => everywhere_nodesAll)

@[simp] theorem everywhere_record {fields : List (Field TypeTree)} :
    Everywhere p (.record fields) ↔
      p (.record fields) ∧ ∀ field ∈ fields, Everywhere p field.type :=
  List.forall_mem_cons.trans (and_congr_right fun _ => everywhere_nodesFields)

end

/-! ## Conditions on nodes -/

def wide : TypeTree → Bool
  | .combination _ members => decide (2 ≤ members.length)
  | _ => true

def layered : TypeTree → Bool
  | .combination .and members => members.all fun member => !member.isUnion
  | _ => true

/-- The words for numbers that are not finite. -/
def nonFinite : List Text := ["Infinity", "-Infinity", "NaN"]

def finite : TypeTree → Bool
  | .literal text => decide (text ∉ nonFinite)
  | _ => true

abbrev Wide (type : TypeTree) : Prop := Everywhere (wide ·) type

abbrev Layered (type : TypeTree) : Prop := Everywhere (layered ·) type

abbrev Finite (type : TypeTree) : Prop := Everywhere (finite ·) type

def literals (type : TypeTree) : List Text :=
  type.nodes.filterMap fun
    | .literal text => some text
    | _ => none

theorem mem_literals {text : Text} {type : TypeTree} :
    text ∈ type.literals ↔ .literal text ∈ type.nodes := by
  rw [literals, List.mem_filterMap]
  constructor
  · rintro ⟨node, inside, found⟩
    cases node <;> cases found
    exact inside
  · intro inside
    exact ⟨_, inside, rfl⟩

theorem finite_iff {type : TypeTree} :
    Finite type ↔ ∀ text ∈ type.literals, text ∉ nonFinite := by
  constructor
  · intro h text member
    simpa [finite] using h _ (mem_literals.mp member)
  · intro h node inside
    cases node with
    | literal text => simpa [finite] using h text (mem_literals.mpr inside)
    | _ => rfl

theorem finite_array {item : TypeTree} : Finite (.array item) ↔ Finite item :=
  everywhere_array.trans (and_iff_right rfl)

theorem finite_tuple {items : List TypeTree} :
    Finite (.tuple items) ↔ ∀ item ∈ items, Finite item :=
  everywhere_tuple.trans (and_iff_right rfl)

theorem finite_combination {op : Operator} {members : List TypeTree} :
    Finite (.combination op members) ↔ ∀ member ∈ members, Finite member :=
  everywhere_combination.trans (and_iff_right rfl)

theorem finite_record {fields : List (Field TypeTree)} :
    Finite (.record fields) ↔ ∀ field ∈ fields, Finite field.type :=
  everywhere_record.trans (and_iff_right rfl)

theorem mem_literals_array {text : Text} {item : TypeTree} :
    text ∈ literals (.array item) ↔ text ∈ item.literals := by
  rw [mem_literals, mem_literals]
  exact List.mem_cons.trans (or_iff_right nofun)

theorem mem_literals_tuple {text : Text} {items : List TypeTree} :
    text ∈ literals (.tuple items) ↔ ∃ item ∈ items, text ∈ item.literals := by
  simp only [mem_literals, ← mem_nodesAll]
  exact List.mem_cons.trans (or_iff_right nofun)

theorem mem_literals_combination {text : Text} {op : Operator} {members : List TypeTree} :
    text ∈ literals (.combination op members) ↔ ∃ member ∈ members, text ∈ member.literals := by
  simp only [mem_literals, ← mem_nodesAll]
  exact List.mem_cons.trans (or_iff_right nofun)

theorem mem_literals_record {text : Text} {fields : List (Field TypeTree)} :
    text ∈ literals (.record fields) ↔ ∃ field ∈ fields, text ∈ field.type.literals := by
  simp only [mem_literals, ← mem_nodesFields]
  exact List.mem_cons.trans (or_iff_right nofun)

/-! ## Flat trees -/

section

variable {op : Operator} {types : List TypeTree}

theorem joined_of_two_le (two : 2 ≤ types.length) : joined op types = .combination op types := by
  match types, two with
  | _ :: _ :: _, _ => rfl

theorem joined_parts {type : TypeTree} (wide : type.wide) : joined op (parts op type) = type := by
  cases type with
  | combination op' members =>
      by_cases same : op' = op
      · subst same
        rw [parts, if_pos rfl, joined_of_two_le (by simpa [TypeTree.wide] using wide)]
      · rw [parts, if_neg same, joined]
  | _ => rfl

theorem parts_ne_nil {type : TypeTree} (wide : type.wide) : parts op type ≠ [] := by
  cases type with
  | combination op' members =>
      have two : 2 ≤ members.length := by simpa [TypeTree.wide] using wide
      by_cases same : op' = op
      · rw [parts, if_pos same]
        rintro rfl
        simp at two
      · simp [parts, same]
  | _ => simp [parts]

theorem length_le_flatMap_parts (wide : ∀ type ∈ types, type.wide) :
    types.length ≤ (types.flatMap (parts op)).length := by
  induction types with
  | nil => simp
  | cons type types ih =>
      rw [List.forall_mem_cons] at wide
      have here := List.length_pos_iff.mpr (@parts_ne_nil op _ wide.1)
      have more := ih wide.2
      rw [List.flatMap_cons, List.length_append, List.length_cons]
      omega

end

/-- No combination of a flat tree gets too few members. -/
theorem wide_flat {type : TypeTree} (h : Wide type) : type.flat.wide := by
  induction type with
  | combination op members ih =>
      rw [Wide, everywhere_combination] at h
      have two : 2 ≤ members.length := by simpa [TypeTree.wide] using h.1
      have more := @length_le_flatMap_parts op (members.map flat)
        (List.forall_mem_map.mpr fun member inside => ih member inside (h.2 member inside))
      rw [List.length_map] at more
      rw [flat, flatAll_eq_map, joined_of_two_le (by omega)]
      simp only [TypeTree.wide, decide_eq_true_eq]
      omega
  | _ => rfl

theorem flat_combination {op : Operator} {members : List TypeTree}
    (h : Wide (.combination op members)) :
    flat (.combination op members) =
      .combination op ((members.map flat).flatMap (parts op)) := by
  rw [Wide, everywhere_combination] at h
  have two : 2 ≤ members.length := by simpa [TypeTree.wide] using h.1
  have more := @length_le_flatMap_parts op (members.map flat)
    (List.forall_mem_map.mpr fun member inside => wide_flat (h.2 member inside))
  rw [List.length_map] at more
  rw [flat, flatAll_eq_map, joined_of_two_le (by omega)]

theorem isUnion_flat {type : TypeTree} (h : Wide type) : type.flat.isUnion = type.isUnion := by
  cases type with
  | combination op members => rw [flat_combination h]; cases op <;> rfl
  | _ => rfl

theorem layered_of_parts {type : TypeTree} (op : Operator)
    (plain : op = .and → ∀ part ∈ parts op type, part.isUnion = false)
    (h : ∀ part ∈ parts op type, Layered part) : Layered type := by
  cases type with
  | combination op' members =>
      by_cases same : op' = op
      · subst same
        rw [parts, if_pos rfl] at plain h
        rw [Layered, everywhere_combination]
        refine ⟨?_, h⟩
        cases op' with
        | or => rfl
        | and => simpa [layered] using plain rfl
      · rw [parts, if_neg same] at h
        exact h _ (List.mem_singleton_self _)
  | _ => exact h _ (List.mem_singleton_self _)

theorem mem_parts_of_isUnion {type : TypeTree} (h : type.isUnion) : type ∈ parts .and type := by
  match type, h with
  | .combination .or types, _ => simp [parts]

/-- An intersection does not take a union apart, so a member without one among its operands
is none itself. -/
theorem isUnion_eq_false_of_parts {type : TypeTree} (wide : Wide type)
    (plain : ∀ part ∈ parts .and type.flat, part.isUnion = false) : type.isUnion = false := by
  rw [← isUnion_flat wide, Bool.eq_false_iff]
  intro union
  exact Bool.eq_false_iff.mp (plain _ (mem_parts_of_isUnion union)) union

theorem layered_combination_of_flat {op : Operator} {members : List TypeTree}
    (wide : Wide (.combination op members)) (h : Layered (flat (.combination op members)))
    (each : ∀ member ∈ members, Layered member.flat → Layered member) :
    Layered (.combination op members) := by
  rw [flat_combination wide, Layered, everywhere_combination, List.flatMap_map,
    List.forall_mem_flatMap] at h
  rw [Wide, everywhere_combination] at wide
  have plain (same : op = .and) (member : TypeTree) (inside : member ∈ members)
      (part : TypeTree) (found : part ∈ parts op member.flat) : part.isUnion = false := by
    subst same
    have all := h.1
    rw [layered, List.all_eq_true] at all
    simpa using all part (List.mem_flatMap.mpr ⟨member, inside, found⟩)
  refine everywhere_combination.mpr ⟨?_, fun member inside => ?_⟩
  · cases op with
    | or => rfl
    | and =>
        rw [layered, List.all_eq_true]
        intro member inside
        rw [isUnion_eq_false_of_parts (wide.2 member inside) (plain rfl member inside)]
        rfl
  · exact each member inside
      (layered_of_parts op (fun same => plain same member inside) (h.2 member inside))

/-- Flattening does not move a union out of an intersection. -/
theorem layered_of_flat {type : TypeTree} (wide : Wide type) (h : Layered type.flat) :
    Layered type := by
  induction type with
  | array item ih =>
      rw [Wide, everywhere_array] at wide
      rw [flat, Layered, everywhere_array] at h
      exact everywhere_array.mpr ⟨rfl, ih wide.2 h.2⟩
  | tuple items ih =>
      rw [Wide, everywhere_tuple] at wide
      rw [flat, flatAll_eq_map, Layered, everywhere_tuple, List.forall_mem_map] at h
      exact everywhere_tuple.mpr
        ⟨rfl, fun item inside => ih item inside (wide.2 item inside) (h.2 item inside)⟩
  | record fields ih =>
      rw [Wide, everywhere_record] at wide
      rw [flat, flatFields_eq_map, Layered, everywhere_record, List.forall_mem_map] at h
      exact everywhere_record.mpr
        ⟨rfl, fun field inside => ih field inside (wide.2 field inside) (h.2 field inside)⟩
  | combination op members ih =>
      have inner := everywhere_combination.mp wide
      exact layered_combination_of_flat wide h
        fun member inside => ih member inside (inner.2 member inside)
  | _ => exact h

theorem mem_literals_joined {text : Text} {op : Operator} {types : List TypeTree} :
    text ∈ (joined op types).literals ↔ ∃ type ∈ types, text ∈ type.literals := by
  match types with
  | [] | _ :: _ :: _ => exact mem_literals_combination
  | [type] => simp [joined]

theorem finite_joined {op : Operator} {types : List TypeTree}
    (h : ∀ type ∈ types, Finite type) : Finite (joined op types) := by
  match types with
  | [] | _ :: _ :: _ => exact finite_combination.mpr h
  | [type] => exact h type (List.mem_singleton_self _)

theorem mem_literals_parts {text : Text} {op : Operator} {type : TypeTree} :
    (∃ part ∈ parts op type, text ∈ part.literals) ↔ text ∈ type.literals := by
  cases type with
  | combination op' members =>
      by_cases same : op' = op
      · rw [parts, if_pos same, mem_literals_combination]
      · simp [parts, same]
  | _ => simp [parts]

/-- Flattening keeps the constants. -/
theorem mem_literals_flat {text : Text} {type : TypeTree} :
    text ∈ type.flat.literals ↔ text ∈ type.literals := by
  induction type with
  | keyword | reference | literal => rfl
  | array item ih =>
      rw [flat, mem_literals_array, mem_literals_array]
      exact ih
  | tuple items ih =>
      simp only [flat, flatAll_eq_map, mem_literals_tuple, List.mem_map, exists_exists_and_eq_and]
      exact exists_congr fun item => and_congr_right fun member => ih item member
  | combination op members ih =>
      rw [flat, flatAll_eq_map, mem_literals_joined, mem_literals_combination]
      simp only [List.mem_flatMap, List.mem_map]
      constructor
      · rintro ⟨part, ⟨_, ⟨member, inside, rfl⟩, found⟩, text⟩
        exact ⟨member, inside, (ih member inside).mp (mem_literals_parts.mp ⟨part, found, text⟩)⟩
      · rintro ⟨member, inside, text⟩
        obtain ⟨part, found, text⟩ := mem_literals_parts.mpr ((ih member inside).mpr text)
        exact ⟨part, ⟨_, ⟨member, inside, rfl⟩, found⟩, text⟩
  | record fields ih =>
      simp only [flat, flatFields_eq_map, mem_literals_record, List.mem_map,
        exists_exists_and_eq_and]
      exact exists_congr fun field => and_congr_right fun member => ih field member

theorem finite_flat {type : TypeTree} : Finite type.flat ↔ Finite type := by
  simp only [finite_iff, mem_literals_flat]

end TypeTree
end Recast
