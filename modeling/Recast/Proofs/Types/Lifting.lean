import Recast.Proofs.Types.Inhabitants
import Recast.Proofs.Types.Interface

/-! # Lifting objects

Every object inside a sample gets one declaration. Declarations are made in an order in which
names are only referred to after they are declared, and no declaration is left that nothing
refers to.
-/

namespace Recast

/-- A field has a type in which the name stands. -/
def Declaration.RefersTo (declaration : Declaration) (name : Text) : Prop :=
  ∃ field ∈ declaration.fields, TypeExpr.Part (.named name) field.type

namespace TypeExpr

/-- Each declaration refers to names of earlier ones only. -/
inductive Ordered : List Declaration → Prop
  | nil : Ordered []
  | snoc {earlier : List Declaration} {declaration : Declaration} :
      Ordered earlier →
      (∀ name, declaration.RefersTo name → name ∈ earlier.map Declaration.name) →
      Ordered (earlier ++ [declaration])

theorem Ordered.mem_earlier {declarations earlier later : List Declaration}
    {declaration : Declaration} (ordered : Ordered declarations)
    (split : declarations = earlier ++ declaration :: later) {name : Text}
    (refers : declaration.RefersTo name) : name ∈ earlier.map Declaration.name := by
  induction ordered generalizing later with
  | nil => simp at split
  | @snoc start last _ back ih =>
      rcases List.eq_nil_or_concat later with rfl | ⟨between, final, rfl⟩
      · obtain ⟨rfl, same⟩ := List.append_inj' split rfl
        cases same
        exact back name refers
      · rw [List.concat_eq_append, ← List.cons_append, ← List.append_assoc] at split
        exact ih (List.append_inj' split rfl).1

end TypeExpr

/-! ## Objects -/

namespace Json

open TypeExpr

theorem mem_objectsOfItems {items : List Json} {object : List (Text × Json)} :
    object ∈ objectsOfItems items ↔ ∃ item ∈ items, object ∈ item.objects := by
  induction items with
  | nil => simp [objectsOfItems]
  | cons item items ih => simp [objectsOfItems, ih]

theorem mem_objectsOfMembers {members : List (Text × Json)} {object : List (Text × Json)} :
    object ∈ objectsOfMembers members ↔ ∃ member ∈ members, object ∈ member.2.objects := by
  induction members with
  | nil => simp [objectsOfMembers]
  | cons member members ih => simp [objectsOfMembers, ih]

theorem within_of_mem_objects (v : Json) {object : List (Text × Json)} (h : object ∈ v.objects) :
    Within (.object object) v := by
  cases v with
  | null | bool | int | float | string => cases h
  | array items =>
      obtain ⟨item, listed, inside⟩ := mem_objectsOfItems.mp h
      exact .item listed (within_of_mem_objects item inside)
  | object members =>
      rcases List.mem_append.mp h with nested | here
      · obtain ⟨⟨key, value⟩, listed, inside⟩ := mem_objectsOfMembers.mp nested
        have smaller := sizeOf_member_lt listed
        exact .member listed (within_of_mem_objects value inside)
      · rw [List.mem_singleton.mp here]
        exact .refl
termination_by sizeOf v

/-- The objects of a value are those inside it. -/
theorem mem_objects_iff {v : Json} {object : List (Text × Json)} :
    object ∈ v.objects ↔ Within (.object object) v := by
  refine ⟨within_of_mem_objects v, ?_⟩
  generalize whole : Json.object object = w
  intro inside
  induction inside with
  | refl =>
      subst whole
      exact List.mem_append_right _ (List.mem_singleton_self object)
  | item listed _ ih => exact mem_objectsOfItems.mpr ⟨_, listed, ih⟩
  | member listed _ ih =>
      exact List.mem_append_left _ (mem_objectsOfMembers.mpr ⟨_, listed, ih⟩)

end Json

/-! ## Names in types -/

namespace TypeExpr

theorem part_named_unionOf {types : List TypeExpr} {name : Text} :
    Part (.named name) (unionOf types) ↔ ∃ type ∈ types, Part (.named name) type := by
  constructor
  · intro part
    rcases part_of_unionOf part with same | inside
    · unfold unionOf at same
      split at same
      · cases same
      · rename_i only kept
        have listed : only ∈ types := Schema.mem_distinct.mp (kept ▸ List.mem_singleton_self only)
        exact ⟨only, listed, same ▸ .refl⟩
      · cases same
    · exact inside
  · rintro ⟨type, member, inside⟩
    exact inside.trans (part_unionOf member)

/-- From one state to a later one declarations are added in order. The names mentioned in the
result are names of new declarations, and each of these is mentioned in the result or in
another one. -/
structure Extends (before later : Lifting) (new : List Declaration) (mentions : Text → Prop) :
    Prop where
  grown : later.declarations = before.declarations ++ new
  ordered : Ordered before.declarations → Ordered later.declarations
  declared : ∀ name, mentions name → name ∈ new.map Declaration.name
  used : ∀ d ∈ new, mentions d.name ∨ ∃ d' ∈ new, d'.RefersTo d.name

def Lifts (before later : Lifting) (mentions : Text → Prop) : Prop :=
  ∃ new, Extends before later new mentions

section

variable {first second third : Lifting} {p q : Text → Prop}

theorem Lifts.refl (none : ∀ name, ¬ p name) : Lifts first first p :=
  ⟨[], (List.append_nil _).symm, id, fun name known => absurd known (none name),
    List.forall_mem_nil _⟩

theorem Lifts.congr (h : Lifts first second p) (same : ∀ name, q name ↔ p name) :
    Lifts first second q := by
  rwa [show q = p from funext fun name => propext (same name)]

theorem Lifts.trans (h : Lifts first second p) (h' : Lifts second third q) :
    Lifts first third fun name => p name ∨ q name := by
  obtain ⟨new, grown, ordered, declared, used⟩ := h
  obtain ⟨new', grown', ordered', declared', used'⟩ := h'
  refine ⟨new ++ new', by rw [grown', grown, List.append_assoc], ordered' ∘ ordered, ?_, ?_⟩
  · intro name mentioned
    rw [List.map_append, List.mem_append]
    exact mentioned.imp (declared name) (declared' name)
  · intro d member
    rcases List.mem_append.mp member with here | later
    · rcases used d here with mentioned | ⟨d', known, refers⟩
      · exact .inl (.inl mentioned)
      · exact .inr ⟨d', List.mem_append_left _ known, refers⟩
    · rcases used' d later with mentioned | ⟨d', known, refers⟩
      · exact .inl (.inr mentioned)
      · exact .inr ⟨d', List.mem_append_right _ known, refers⟩

/-- The declaration of an object refers to those of the objects inside it. -/
theorem Lifts.object {state inner : Lifting} {pool : NamePool} {declaration : Declaration}
    (h : Lifts { state with pool } inner declaration.RefersTo) :
    Lifts state { inner with declarations := inner.declarations ++ [declaration] }
      fun name => name = declaration.name := by
  obtain ⟨new, grown, ordered, declared, used⟩ := h
  refine ⟨new ++ [declaration], ?_, ?_, ?_, ?_⟩
  · simp only [grown, List.append_assoc]
  · intro before
    refine .snoc (ordered before) fun name refers => ?_
    rw [grown, List.map_append]
    exact List.mem_append_right _ (declared name refers)
  · rintro name rfl
    simp
  · have last : declaration ∈ new ++ [declaration] := by simp
    intro d member
    rcases List.mem_append.mp member with inside | own
    · rcases used d inside with refers | ⟨d', known, refers⟩
      · exact .inr ⟨declaration, last, refers⟩
      · exact .inr ⟨d', List.mem_append_left _ known, refers⟩
    · rw [List.mem_singleton.mp own]
      exact .inl rfl

end

/-! ## Samples -/

theorem not_part_named_primitive (name : Text) (kind : Primitive) :
    ¬ Part (.named name) (.primitive kind) := nofun

mutual
theorem lift_lifts (name : Text) (state : Lifting) (v : Json) :
    Lifts state (lift name state v).2 fun n => Part (.named n) (lift name state v).1 := by
  cases v with
  | null | bool | int | float | string => exact .refl fun n => not_part_named_primitive n _
  | array items =>
      rw [lift_array]
      refine (liftItems_lifts (itemName name) state items).congr fun n => ?_
      rw [← part_named_unionOf]
      exact ⟨fun | .item inside => inside, .item⟩
  | object members =>
      have inside := liftMembers_lifts
        { state with pool := (state.pool.claim (Name.pascal Name.root name)).2 } members
      refine (Lifts.object inside).congr fun n => ?_
      constructor
      · rintro ⟨⟩
        rfl
      · rintro rfl
        exact .refl
termination_by sizeOf v

theorem liftItems_lifts (name : Text) (state : Lifting) (items : List Json) :
    Lifts state (liftItems name state items).2 fun n =>
      ∃ type ∈ (liftItems name state items).1, Part (.named n) type := by
  cases items with
  | nil => exact .refl fun n => by simp [liftItems]
  | cons item items =>
      refine ((lift_lifts name state item).trans (liftItems_lifts name _ items)).congr fun n => ?_
      exact List.exists_mem_cons_iff ..
termination_by sizeOf items

theorem liftMembers_lifts (state : Lifting) (members : List (Text × Json)) :
    Lifts state (liftMembers state members).2 fun n =>
      ∃ field ∈ (liftMembers state members).1, Part (.named n) field.type := by
  cases members with
  | nil => exact .refl fun n => by simp [liftMembers]
  | cons member members =>
      obtain ⟨key, value⟩ := member
      refine ((lift_lifts key state value).trans (liftMembers_lifts _ members)).congr fun n => ?_
      exact List.exists_mem_cons_iff ..
termination_by sizeOf members
end

/-- A sample has one declaration for each object inside it, its own first. Each of the others
refers to names of earlier ones among them, and the first to names of the others. None of the
others is declared without being referred to. -/
theorem declarationsOf_ordered (members : List (Text × Json)) :
    ∃ root nested, declarationsOf members = root :: nested ∧ root.name = Name.root ∧
      describe (.object members) = ⟨root.name, (root :: nested).map Declaration.render⟩ ∧
      List.Forall₂ Describes (root :: nested) (members :: Json.objectsOfMembers members) ∧
      (∀ object, object ∈ members :: Json.objectsOfMembers members ↔
        Within (.object object) (.object members)) ∧
      (∀ earlier d later, nested = earlier ++ d :: later → ∀ name, d.RefersTo name →
        name ∈ earlier.map Declaration.name) ∧
      (∀ name, root.RefersTo name → name ∈ nested.map Declaration.name) ∧
      ∀ d ∈ nested, ∃ d' ∈ root :: nested, d'.RefersTo d.name := by
  have lifted := liftMembers_lifts { pool := (NamePool.claim Name.root []).2 } members
  obtain ⟨new, grown, ordered, declared, used⟩ := lifted
  rw [List.nil_append] at grown
  refine ⟨_, _, declarationsOf_eq members, rfl, rfl, declarationsOf_describes members, ?_, ?_, ?_,
    ?_⟩
  · intro object
    rw [← Json.mem_objects_iff, Json.objects, List.mem_append, List.mem_cons, List.mem_singleton,
      or_comm]
  · intro earlier d later split name refers
    exact (ordered .nil).mem_earlier split refers
  · rw [grown]
    exact declared
  · rw [grown]
    intro d member
    rcases used d member with mentioned | ⟨d', known, refers⟩
    · exact ⟨_, List.mem_cons_self, mentioned⟩
    · exact ⟨d', List.mem_cons_of_mem _ known, refers⟩

/-- The innermost object is declared before the one around it. -/
example : (declarationsOf [("a", .object [("b", .object [("c", .int 1)])])]).map Declaration.name =
    ["Root".toList, "B".toList, "A".toList] := by
  decide

end TypeExpr
end Recast
