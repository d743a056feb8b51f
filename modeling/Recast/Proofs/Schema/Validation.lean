import Mathlib.Data.List.Forall2
import Recast.TypeExpr.Schema

/-! # Which values a schema accepts

The rules of the schema keywords that become types. All keywords of a schema count, those
that the conversion passes over included. References may lead in a circle, so a verdict
needs fuel, and without enough of it there is none.
-/

namespace Recast.Schema

open Json

/-! ## Equality of values -/

mutual
/-- Are two values equal, numbers by what they are and members in any order? -/
def equalTo : Json → Json → Bool
  | .null, .null => true
  | .bool a, .bool b => a == b
  | .int m, .int n => m == n
  | .int m, .float x => x.toInt? == some m
  | .float x, .int m => x.toInt? == some m
  | .float x, .float y => x == y || (x.isZero && y.isZero)
  | .string s, .string t => s == t
  | .array xs, .array ys => equalItems xs ys
  | .object ms, .object ns => equalMembers ms ns && ns.all fun (key, _) => (find? key ms).isSome
  | _, _ => false

def equalItems : List Json → List Json → Bool
  | [], [] => true
  | x :: xs, y :: ys => equalTo x y && equalItems xs ys
  | _, _ => false

/-- Does the other object have each of the members? -/
def equalMembers : List (Text × Json) → List (Text × Json) → Bool
  | [], _ => true
  | (key, x) :: ms, ns =>
    (match find? key ns with
      | some y => equalTo x y
      | none => false) && equalMembers ms ns
end

/-! ## Verdicts -/

/-- Accepted, refused, or not known. -/
abbrev Verdict := Option Bool

/-- Are all accepted? One that is refused decides it. -/
def every (verdicts : List Verdict) : Verdict :=
  if some false ∈ verdicts then some false
  else if none ∈ verdicts then none
  else some true

/-- Is any accepted? One that is accepted decides it. -/
def any (verdicts : List Verdict) : Verdict :=
  if some true ∈ verdicts then some true
  else if none ∈ verdicts then none
  else some false

/-- Is exactly one accepted? -/
def exactlyOne (verdicts : List Verdict) : Verdict :=
  if none ∈ verdicts then none
  else some (verdicts.count (some true) == 1)

theorem every_eq_true {verdicts : List Verdict} :
    every verdicts = some true ↔ ∀ verdict ∈ verdicts, verdict = some true := by
  unfold every
  constructor
  · intro h verdict member
    split at h
    · cases h
    · split at h
      · cases h
      · rename_i refused unknown
        match verdict with
        | some true => rfl
        | some false => exact absurd member refused
        | none => exact absurd member unknown
  · intro all
    have refused : some false ∉ verdicts := fun member => by cases all _ member
    have unknown : none ∉ verdicts := fun member => by cases all _ member
    rw [if_neg refused, if_neg unknown]

theorem every_eq_false {verdicts : List Verdict} :
    every verdicts = some false ↔ some false ∈ verdicts := by
  unfold every
  split
  · simpa
  · rename_i refused
    split <;> simpa

theorem any_eq_true {verdicts : List Verdict} :
    any verdicts = some true ↔ some true ∈ verdicts := by
  unfold any
  split
  · simpa
  · rename_i accepted
    split <;> simpa

theorem any_eq_false {verdicts : List Verdict} :
    any verdicts = some false ↔ ∀ verdict ∈ verdicts, verdict = some false := by
  unfold any
  constructor
  · intro h verdict member
    split at h
    · cases h
    · split at h
      · cases h
      · rename_i accepted unknown
        match verdict with
        | some false => rfl
        | some true => exact absurd member accepted
        | none => exact absurd member unknown
  · intro all
    have accepted : some true ∉ verdicts := fun member => by cases all _ member
    have unknown : none ∉ verdicts := fun member => by cases all _ member
    rw [if_neg accepted, if_neg unknown]

theorem mem_of_exactlyOne {verdicts : List Verdict} (h : exactlyOne verdicts = some true) :
    some true ∈ verdicts := by
  unfold exactlyOne at h
  split at h
  · cases h
  · have one : verdicts.count (some true) = 1 := by simpa using h
    exact List.count_pos_iff.mp (by omega)

/-! ## Keywords -/

/-- What is said of a schema and a value. -/
abbrev Checker := Json → Json → Verdict

/-- Does the value have the type of this name? A whole number counts as an integer. -/
def hasKind (kind : Text) : Json → Bool
  | .null => kind = "null"
  | .bool _ => kind = "boolean"
  | .int _ => kind = "number" || kind = "integer"
  | .float x => kind = "number" || (kind = "integer" && x.isIntegral)
  | .string _ => kind = "string"
  | .array _ => kind = "array"
  | .object _ => kind = "object"

/-- `type`: the name of a type or a list of such names. -/
def typeHolds (members : List (Text × Json)) (v : Json) : Bool :=
  match find? "type" members with
  | none => true
  | some (.string kind) => hasKind kind v
  | some (.array kinds) => kinds.any fun
    | .string kind => hasKind kind v
    | _ => false
  | some _ => false

/-- `enum`: the value is one of the list. -/
def enumHolds (members : List (Text × Json)) (v : Json) : Bool :=
  match find? "enum" members with
  | none => true
  | some (.array values) => values.any fun w => equalTo w v
  | some _ => false

/-- `const`: the value is this one. -/
def constHolds (members : List (Text × Json)) (v : Json) : Bool :=
  match find? "const" members with
  | none => true
  | some w => equalTo w v

/-- `required`: an object has these keys. -/
def requiredHolds (members : List (Text × Json)) (v : Json) : Bool :=
  match find? "required" members, v with
  | some (.array keys), .object ms => keys.all fun
    | .string key => (find? key ms).isSome
    | _ => true
  | _, _ => true

/-- `properties`: each value that an object has under one of the keys is accepted. -/
def propertiesHold (check : Checker) (members : List (Text × Json)) (v : Json) : Verdict :=
  match find? "properties" members, v with
  | some (.object properties), .object ms => every (properties.map fun (key, schema) =>
    match find? key ms with
    | some x => check schema x
    | none => some true)
  | _, _ => some true

/-- `items`: each item of an array is accepted. -/
def itemsHold (check : Checker) (members : List (Text × Json)) (v : Json) : Verdict :=
  match find? "items" members, v with
  | some schema, .array xs => every (xs.map (check schema))
  | _, _ => some true

/-- The keywords that combine the verdicts of a list of schemas. -/
def combinationHolds (check : Checker) (keyword : Text) (combine : List Verdict → Verdict)
    (members : List (Text × Json)) (v : Json) : Verdict :=
  match find? keyword members with
  | none => some true
  | some (.array schemas) => combine (schemas.map fun schema => check schema v)
  | some _ => none

/-- A key as a token of a pointer. -/
def escapeToken (key : Text) : Text :=
  key.flatMap fun c => if c = '~' then ['~', '0'] else if c = '/' then ['~', '1'] else [c]

/-- The reference to the definition under a key. -/
def pointer (key : Text) : Text := "#/$defs/" ++ escapeToken key

/-- The definitions of a document. -/
def defsOf (document : Json) : List (Text × Json) :=
  match document.get? "$defs" with
  | some (.object defs) => defs
  | _ => []

/-- The definition that a reference points at. -/
def target? (document : Json) (ref : Text) : Option Json :=
  ((defsOf document).find? fun (key, _) => pointer key = ref).map Prod.snd

/-- `$ref`: the schema that it points at accepts the value. -/
def referenceHolds (document : Json) (check : Checker) (members : List (Text × Json))
    (v : Json) : Verdict :=
  match find? "$ref" members with
  | none => some true
  | some (.string ref) => (target? document ref).bind fun schema => check schema v
  | some _ => none

/-- The verdicts of all keywords of a schema. -/
def verdicts (document : Json) (check : Checker) (members : List (Text × Json)) (v : Json) :
    List Verdict :=
  [some (typeHolds members v), some (enumHolds members v), some (constHolds members v),
    some (requiredHolds members v), propertiesHold check members v, itemsHold check members v,
    referenceHolds document check members v, combinationHolds check "anyOf" any members v,
    combinationHolds check "oneOf" exactlyOne members v,
    combinationHolds check "allOf" every members v]

/-- Does a schema of the document accept the value? `fuel` bounds the schemas on a way. -/
def check (document : Json) : Nat → Checker
  | 0, _, _ => none
  | _ + 1, .bool b, _ => some b
  | fuel + 1, .object members, v => every (verdicts document (check document fuel) members v)
  | _ + 1, _, _ => none

/-- The value is accepted in finitely many steps. -/
def Valid (document schema v : Json) : Prop := ∃ fuel, check document fuel schema v = some true

/-! ## Verdicts are final -/

/-- What is known before is known after. -/
def Settles (before after : Verdict) : Prop := ∀ answer, before = some answer → after = some answer

theorem settles_refl (verdict : Verdict) : Settles verdict verdict := fun _ => id

section

variable {before after : List Verdict}

theorem exists_settled (h : List.Forall₂ Settles before after) {answer : Bool}
    (member : some answer ∈ before) : some answer ∈ after := by
  induction h with
  | nil => cases member
  | cons here _ ih =>
      rcases List.mem_cons.mp member with same | later
      · exact here answer same.symm ▸ List.mem_cons_self
      · exact List.mem_cons_of_mem _ (ih later)

theorem all_settled (h : List.Forall₂ Settles before after) {answer : Bool}
    (all : ∀ verdict ∈ before, verdict = some answer) :
    ∀ verdict ∈ after, verdict = some answer := by
  induction h with
  | nil => exact all
  | cons here _ ih =>
      rw [List.forall_mem_cons] at all ⊢
      exact ⟨here answer all.1, ih all.2⟩

theorem settles_every (h : List.Forall₂ Settles before after) :
    Settles (every before) (every after) := by
  rintro (_ | _) decided
  · exact every_eq_false.mpr (exists_settled h (every_eq_false.mp decided))
  · exact every_eq_true.mpr (all_settled h (every_eq_true.mp decided))

theorem settles_any (h : List.Forall₂ Settles before after) :
    Settles (any before) (any after) := by
  rintro (_ | _) decided
  · exact any_eq_false.mpr (all_settled h (any_eq_false.mp decided))
  · exact any_eq_true.mpr (exists_settled h (any_eq_true.mp decided))

theorem settles_exactlyOne (h : List.Forall₂ Settles before after) :
    Settles (exactlyOne before) (exactlyOne after) := by
  intro answer decided
  have known : none ∉ before := by
    intro member
    simp [exactlyOne, member] at decided
  -- A new verdict might change the number of those that accept, but there is no new one.
  have same : after = before := by
    clear decided
    induction h with
    | nil => rfl
    | @cons a b as bs here _ ih =>
        simp only [List.mem_cons, not_or] at known
        obtain ⟨x, rfl⟩ := Option.ne_none_iff_exists'.mp (Ne.symm known.1)
        rw [here x rfl, ih known.2]
  rw [same]
  exact decided

theorem settles_map {α : Type} (xs : List α) {f g : α → Verdict}
    (h : ∀ x, Settles (f x) (g x)) : List.Forall₂ Settles (xs.map f) (xs.map g) := by
  induction xs with
  | nil => exact .nil
  | cons x xs ih => exact .cons (h x) ih

end

section

variable {check check' : Checker} (later : ∀ schema v, Settles (check schema v) (check' schema v))
  (members : List (Text × Json)) (v : Json)

include later

theorem settles_propertiesHold :
    Settles (propertiesHold check members v) (propertiesHold check' members v) := by
  unfold propertiesHold
  split
  · refine settles_every (settles_map _ fun property => ?_)
    obtain ⟨key, schema⟩ := property
    dsimp only
    split
    · exact later _ _
    · exact settles_refl _
  · exact settles_refl _

theorem settles_itemsHold : Settles (itemsHold check members v) (itemsHold check' members v) := by
  unfold itemsHold
  split
  · exact settles_every (settles_map _ fun x => later _ x)
  · exact settles_refl _

theorem settles_combinationHolds {combine : List Verdict → Verdict} (keyword : Text)
    (settles : ∀ {before after}, List.Forall₂ Settles before after →
      Settles (combine before) (combine after)) :
    Settles (combinationHolds check keyword combine members v)
      (combinationHolds check' keyword combine members v) := by
  unfold combinationHolds
  split
  · exact settles_refl _
  · exact settles (settles_map _ fun schema => later schema v)
  · exact settles_refl _

theorem settles_referenceHolds (document : Json) :
    Settles (referenceHolds document check members v)
      (referenceHolds document check' members v) := by
  unfold referenceHolds
  split
  · exact settles_refl _
  · intro answer decided
    obtain ⟨schema, found, decided⟩ := Option.bind_eq_some_iff.mp decided
    exact Option.bind_eq_some_iff.mpr ⟨schema, found, later schema v answer decided⟩
  · exact settles_refl _

theorem settles_verdicts (document : Json) :
    List.Forall₂ Settles (verdicts document check members v)
      (verdicts document check' members v) :=
  .cons (settles_refl _) <| .cons (settles_refl _) <| .cons (settles_refl _) <|
    .cons (settles_refl _) <| .cons (settles_propertiesHold later members v) <|
      .cons (settles_itemsHold later members v) <|
        .cons (settles_referenceHolds later members v document) <|
          .cons (settles_combinationHolds later members v _ settles_any) <|
            .cons (settles_combinationHolds later members v _ settles_exactlyOne) <|
              .cons (settles_combinationHolds later members v _ settles_every) .nil

end

theorem settles_check_succ (document : Json) (fuel : Nat) (schema v : Json) :
    Settles (check document fuel schema v) (check document (fuel + 1) schema v) := by
  induction fuel generalizing schema v with
  | zero => exact fun answer decided => by cases decided
  | succ fuel ih =>
      cases schema with
      | object members => exact settles_every (settles_verdicts ih members v document)
      | _ => exact settles_refl _

/-- More fuel changes no verdict. -/
theorem settles_check {document : Json} {fuel fuel' : Nat} (enough : fuel ≤ fuel')
    (schema v : Json) :
    Settles (check document fuel schema v) (check document fuel' schema v) := by
  induction enough with
  | refl => exact settles_refl _
  | step _ ih => exact fun answer decided => settles_check_succ _ _ _ _ answer (ih answer decided)

/-- What is refused once is never accepted. -/
theorem not_valid_of_refused {document schema v : Json} {fuel : Nat}
    (refused : check document fuel schema v = some false) : ¬ Valid document schema v := by
  rintro ⟨fuel', accepted⟩
  have first := settles_check (Nat.le_max_left fuel fuel') schema v _ refused
  have second := settles_check (Nat.le_max_right fuel fuel') schema v _ accepted
  rw [first] at second
  cases second

end Recast.Schema
