import Recast.Proofs.Naming.Claims
import Recast.TypeExpr.Schema

/-! # Declared names

Samples and schemas get their type names from one fresh pool each. Which names are claimed
follows from the keys alone, so it can be told from a sample or a document whether two of
its declarations have come to share a name.
-/

namespace Recast.TypeExpr

open NamePool

/-! ## Samples -/

mutual
/-- The base names that a value known as `name` claims, in order. -/
def basesOf (name : Text) : Json → List Text
  | .array items => basesOfItems (itemName name) items
  | .object members => Name.pascal Name.root name :: basesOfMembers members
  | _ => []

def basesOfItems (name : Text) : List Json → List Text
  | [] => []
  | item :: items => basesOf name item ++ basesOfItems name items

def basesOfMembers : List (Text × Json) → List Text
  | [] => []
  | (key, value) :: members => basesOf key value ++ basesOfMembers members
end

theorem lift_array (name : Text) (state : Lifting) (items : List Json) :
    lift name state (.array items) =
      (.array (unionOf (liftItems (itemName name) state items).1) false,
        (liftItems (itemName name) state items).2) := by
  cases items with
  | nil => rfl
  | cons item items => rfl

/-- From one state to a later one the bases are claimed, and each name becomes that of one
new declaration. -/
def Grown (before later : Lifting) (bases : List Text) : Prop :=
  later.pool = after before.pool bases ∧
    ∃ new : List Declaration, later.declarations = before.declarations ++ new ∧
      (new.map Declaration.name).Perm (claimAll before.pool bases)

theorem Grown.refl (state : Lifting) : Grown state state [] :=
  ⟨rfl, [], (List.append_nil _).symm, .nil⟩

theorem Grown.trans {first second third : Lifting} {as bs : List Text}
    (h : Grown first second as) (h' : Grown second third bs) : Grown first third (as ++ bs) := by
  obtain ⟨pool, new, grown, names⟩ := h
  obtain ⟨pool', new', grown', names'⟩ := h'
  refine ⟨?_, new ++ new', ?_, ?_⟩
  · rw [pool', pool, after_append]
  · rw [grown', grown, List.append_assoc]
  · rw [List.map_append, claimAll_append, ← pool]
    exact names.append names'

/-- A name that is claimed before the children is declared after them. -/
theorem Grown.object {state inner : Lifting} {base : Text} {bases : List Text}
    {fields : List (Field TypeExpr)}
    (h : Grown { state with pool := (state.pool.claim base).2 } inner bases) :
    Grown state
      { inner with
        declarations := inner.declarations ++ [{ name := (state.pool.claim base).1, fields }] }
      (base :: bases) := by
  obtain ⟨pool, new, grown, names⟩ := h
  refine ⟨pool, new ++ [{ name := (state.pool.claim base).1, fields }], ?_, ?_⟩
  · simp only [grown, List.append_assoc]
  · rw [List.map_append, claimAll]
    exact List.perm_append_comm.trans (names.cons _)

mutual
theorem lift_grown (name : Text) (state : Lifting) (v : Json) :
    Grown state (lift name state v).2 (basesOf name v) := by
  cases v with
  | array items =>
      rw [lift_array]
      exact liftItems_grown (itemName name) state items
  | object members =>
      exact Grown.object (liftMembers_grown
        { state with pool := (state.pool.claim (Name.pascal Name.root name)).2 } members)
  | null | bool | int | float | string => exact Grown.refl state
termination_by sizeOf v

theorem liftItems_grown (name : Text) (state : Lifting) (items : List Json) :
    Grown state (liftItems name state items).2 (basesOfItems name items) := by
  cases items with
  | nil => exact Grown.refl state
  | cons item items => exact (lift_grown name state item).trans (liftItems_grown name _ items)
termination_by sizeOf items

theorem liftMembers_grown (state : Lifting) (members : List (Text × Json)) :
    Grown state (liftMembers state members).2 (basesOfMembers members) := by
  cases members with
  | nil => exact Grown.refl state
  | cons member members =>
      obtain ⟨key, value⟩ := member
      exact (lift_grown key state value).trans (liftMembers_grown _ members)
termination_by sizeOf members
end

def sampleBases (members : List (Text × Json)) : List Text := Name.root :: basesOfMembers members

theorem declarationsOf_eq (members : List (Text × Json)) :
    declarationsOf members =
      { name := Name.root,
        fields := (liftMembers { pool := (claim Name.root []).2 } members).1 } ::
        (liftMembers { pool := (claim Name.root []).2 } members).2.declarations :=
  rfl

/-- The names of a sample's declarations are the names that it claims. -/
theorem perm_declarationsOf (members : List (Text × Json)) :
    ((declarationsOf members).map Declaration.name).Perm (claimAll [] (sampleBases members)) := by
  obtain ⟨-, new, grown, names⟩ := liftMembers_grown { pool := (claim Name.root []).2 } members
  rw [declarationsOf_eq, sampleBases, claimAll, List.map_cons, grown]
  exact names.cons _

end Recast.TypeExpr

namespace Recast.Schema

open NamePool TypeExpr

/-! ## Schemas -/

theorem map_name_nameDefinitions (pool : NamePool) (schemas : List (Text × Json)) :
    (nameDefinitions pool schemas).map Definition.name =
      claimAll pool (schemas.map fun (key, _) => Name.pascal Name.root key) := by
  induction schemas generalizing pool with
  | nil => rfl
  | cons schema schemas ih => exact congrArg (_ :: ·) (ih _)

def documentBases (document : Json) : List Text :=
  Name.root :: (definitionSchemas document).map fun (key, _) => Name.pascal Name.root key

theorem root_cons_map_definitions (document : Json) :
    Name.root :: (definitions document).map Definition.name =
      claimAll [] (documentBases document) := by
  rw [definitions, map_name_nameDefinitions, documentBases, claimAll]
  rfl

/-- Declared names are different exactly when the claimed bases are apart, be it in any
sequence of claims on one fresh pool, in the declarations of a sample or in those of a
document. -/
theorem nodup_names_iff (bases : List Text) (members : List (Text × Json)) (document : Json) :
    ((claimAll [] bases).Nodup ↔ Apart bases) ∧
      (((declarationsOf members).map Declaration.name).Nodup ↔ Apart (sampleBases members)) ∧
      ((Name.root :: (definitions document).map Definition.name).Nodup ↔
        Apart (documentBases document)) := by
  refine ⟨nodup_claimAll, ?_, ?_⟩
  · rw [(perm_declarationsOf members).nodup_iff, nodup_claimAll]
  · rw [root_cons_map_definitions, nodup_claimAll]

/-- An object under `a` inside of another one, and one under `a2` beside it. -/
def nestedSample : List (Text × Json) :=
  [("a", .object [("a", .object [])]), ("a2", .object [])]

/-- Definitions under `a`, `A` and `a2`. -/
def similarDefinitions : Json :=
  .object [("$defs", .object [("a", .object []), ("A", .object []), ("a2", .object [])])]

/-- The second claim of `A` and the first one of `A2` are given one name. -/
theorem names_clash :
    claimAll [] ["A", "A", "A2"] = ["A".toList, "A2".toList, "A2".toList] ∧
      ¬ ((declarationsOf nestedSample).map Declaration.name).Nodup ∧
      ¬ (Name.root :: (definitions similarDefinitions).map Definition.name).Nodup := by
  refine ⟨by decide, by decide, by decide⟩

end Recast.Schema
