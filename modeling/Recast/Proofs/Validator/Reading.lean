import Recast.Proofs.Naming.Property
import Recast.Proofs.Text.Cut
import Recast.Validator

/-! # Reading validators

A validator expression is read by its first word: a scalar is the word alone, an array has its
item in parentheses after it, and an object has fields with a comma after each. What is written
for a validator reads as the validator, up to how its keys are read.
-/

namespace Recast.Validator

open TypeExpr (indent)

/-- The expressions for scalars. One stands before those that it begins with. -/
def scalars : List (Text × Validator) :=
  [("z.null()", .null), ("z.boolean()", .boolean), ("z.number().int()", .integer),
    ("z.number()", .number), ("z.string()", .string), ("z.unknown()", .unknown)]

def readScalar? (t : Text) : Option (Validator × Text) :=
  scalars.findSome? fun (text, v) => (Text.after? text t).map (v, ·)

mutual
/-- The validator that a text begins with, and the rest of the text. -/
def readValue? : Nat → Text → Option (Validator × Text)
  | 0, _ => none
  | fuel + 1, t =>
    match Text.after? "z.array(" t, Text.after? "z.object(" t with
    | some item, _ => do
      let (item, rest) ← readValue? fuel item
      let rest ← Text.after? [')'] rest
      return (.array item, rest)
    | none, some fields => do
      let fields ← Text.after? ['{'] fields
      let (fields, rest) ← readFields? fuel fields
      let rest ← Text.after? [')'] rest
      return (.object fields, rest)
    | none, none => readScalar? t

/-- The fields up to the closing brace. -/
def readFields? : Nat → Text → Option (List (Text × Validator) × Text)
  | 0, _ => none
  | fuel + 1, t =>
    match Json.skipSpace t with
    | '}' :: rest => some ([], rest)
    | t => do
      let (key, rest) ← Name.readProperty? t
      let value ← Text.after? [':'] rest
      let (value, rest) ← readValue? fuel (Json.skipSpace value)
      match Json.skipSpace rest with
      | ',' :: rest =>
        let (fields, rest) ← readFields? fuel rest
        return ((key, value) :: fields, rest)
      | '}' :: rest => return ([(key, value)], rest)
      | _ => none
end

/-- The validator that the whole text is read as. -/
def read? (t : Text) : Option Validator :=
  match readValue? t.length t with
  | some (v, []) => some v
  | _ => none

mutual
/-- The validator with each key as it is read. -/
def spoken : Validator → Validator
  | .array item => .array (spoken item)
  | .object fields => .object (spokenFields fields)
  | v => v

def spokenFields : List (Text × Validator) → List (Text × Validator)
  | [] => []
  | (key, value) :: fields => (Name.spoken key, spoken value) :: spokenFields fields
end

/-! ## Reading what is written -/

variable {depth fuel : Nat} {rest : Text}

theorem readScalar?_number (apart : rest.head? ≠ some '.') :
    readScalar? ("z.number()".toList ++ rest) = some (.number, rest) := by
  have integer : Text.after? "z.number().int()" ("z.number()".toList ++ rest) = none := by
    cases rest with
    | nil => rfl
    | cons c rest =>
        have other : ('.' == c) = false := by
          rw [beq_eq_false_iff_ne]
          rintro rfl
          exact apart rfl
        simp [Text.after?, List.isPrefixOf?, other]
  simp only [readScalar?, scalars, List.findSome?_cons, integer, Text.after?_append]
  rfl

/-- A scalar is read whole. Only a number could go on, as an integer. -/
theorem readValue?_scalar {v : Validator} {word : Text} (known : (word, v) ∈ scalars)
    (apart : rest.head? ≠ some '.') : readValue? (fuel + 1) (word ++ rest) = some (v, rest) := by
  simp only [scalars, List.mem_cons, List.not_mem_nil, or_false, Prod.mk.injEq] at known
  rcases known with ⟨rfl, rfl⟩ | ⟨rfl, rfl⟩ | ⟨rfl, rfl⟩ | ⟨rfl, rfl⟩ | ⟨rfl, rfl⟩ | ⟨rfl, rfl⟩
  case inr.inr.inr.inl => exact readScalar?_number apart
  all_goals rfl

theorem readValue?_array {t : Text} {item : Validator}
    (inner : readValue? fuel t = some (item, ')' :: rest)) :
    readValue? (fuel + 1) ("z.array(".toList ++ t) = some (.array item, rest) := by
  rw [readValue?, Text.after?_append]
  simp only [inner, Option.bind_eq_bind, Option.bind_some, Text.after?_cons]
  rfl

theorem readValue?_object {t : Text} {fields : List (Text × Validator)}
    (inner : readFields? fuel t = some (fields, ')' :: rest)) :
    readValue? (fuel + 1) ("z.object(".toList ++ '{' :: t) = some (.object fields, rest) := by
  have other : Text.after? "z.array(" ("z.object(".toList ++ '{' :: t) = none := rfl
  rw [readValue?, other, Text.after?_append]
  simp only [inner, Option.bind_eq_bind, Option.bind_some, Text.after?_cons]
  rfl

theorem readFields?_space {c : Char} (space : Json.isSpace c) (t : Text) :
    readFields? fuel (c :: t) = readFields? fuel t := by
  cases fuel with
  | zero => rfl
  | succ fuel => rw [readFields?, readFields?, Json.skipSpace, List.dropWhile_cons_of_pos space,
      ← Json.skipSpace]

theorem readFields?_indent (t : Text) : readFields? fuel (indent depth ++ t) = readFields? fuel t := by
  unfold indent
  induction 2 * depth with
  | zero => rfl
  | succ n ih => rw [Text.copies, List.replicate_succ, List.cons_append, readFields?_space rfl, ih]

theorem readFields?_closing (rest : Text) : readFields? (fuel + 1) ('}' :: rest) = some ([], rest) :=
  rfl

/-- A field with the comma after it. -/
theorem readFields?_field {key t t' : Text} {value : Validator} {fields : List (Text × Validator)}
    (starts : Json.skipSpace t = t) (here : readValue? fuel t = some (value, ',' :: t'))
    (later : readFields? fuel t' = some (fields, rest)) :
    readFields? (fuel + 1) (Name.property key ++ ':' :: ' ' :: t) =
      some ((Name.spoken key, value) :: fields, rest) := by
  obtain ⟨c, more, spelled, -, apart⟩ := Name.exists_property key
  have next : Json.skipSpace (' ' :: t) = t := starts
  rw [readFields?, Name.skipSpace_property]
  split
  · rename_i closing
    rw [spelled, List.cons_append, List.cons.injEq] at closing
    exact absurd closing.1 apart
  · simp only [Name.readProperty?_property (.inl rfl), Option.bind_eq_bind, Option.bind_some,
      Text.after?_cons, next, here]
    rw [show Json.skipSpace (',' :: t') = ',' :: t' from rfl]
    simp only [later, Option.bind_some]
    rfl

/-! ## Whole expressions -/

theorem exists_render (depth : Nat) (v : Validator) : ∃ more, render depth v = 'z' :: more := by
  cases v with
  | object fields => cases fields <;> exact ⟨_, rfl⟩
  | null | boolean | number | integer | string | unknown | array => exact ⟨_, rfl⟩

/-- Fields with a line feed before and a comma after each. -/
def lines (depth : Nat) (fields : List (Text × Validator)) : Text :=
  fields.flatMap fun field => '\n' :: (renderField depth field ++ [','])

theorem cons_renderFields (depth : Nat) (field : Text × Validator)
    (fields : List (Text × Validator)) :
    '\n' :: (renderFields depth (field :: fields) ++ [',']) = lines depth (field :: fields) := by
  induction fields generalizing field with
  | nil => exact (List.append_nil _).symm
  | cons next fields ih =>
      have later := ih next
      rw [lines] at later ⊢
      rw [List.flatMap_cons, ← later, renderFields_cons]
      simp only [List.append_assoc, List.cons_append, List.nil_append]

theorem render_array_append (item : Validator) :
    render depth (.array item) ++ rest =
      "z.array(".toList ++ (render depth item ++ ')' :: rest) := by
  rw [render_array, List.append_assoc, List.append_assoc, List.singleton_append]

theorem render_object_append (field : Text × Validator) (fields : List (Text × Validator)) :
    render depth (.object (field :: fields)) ++ rest = "z.object(".toList ++
      '{' :: (lines (depth + 1) (field :: fields) ++
        '\n' :: (indent depth ++ '}' :: ')' :: rest)) := by
  rw [render_object, ← cons_renderFields]
  simp only [List.append_assoc, List.cons_append, List.nil_append]

theorem lines_cons (key : Text) (value : Validator) (fields : List (Text × Validator)) :
    lines depth ((key, value) :: fields) ++ rest =
      '\n' :: (indent depth ++ (Name.property key ++ ':' :: ' ' ::
        (render depth value ++ ',' :: (lines depth fields ++ rest)))) := by
  rw [lines, List.flatMap_cons, renderField_eq]
  simp only [lines, List.append_assoc, List.cons_append, List.nil_append]

mutual
/-- With fuel for the length of the whole text an expression is read and what follows it is left.
A point is what could go on with the expression for a number. -/
theorem readValue?_render (v : Validator) {depth fuel : Nat} {rest : Text}
    (apart : rest.head? ≠ some '.') (enough : (render depth v ++ rest).length ≤ fuel) :
    readValue? fuel (render depth v ++ rest) = some (v.spoken, rest) := by
  obtain ⟨more, start⟩ := exists_render depth v
  obtain ⟨fuel, rfl⟩ : ∃ n, fuel = n + 1 := by
    rw [start, List.cons_append, List.length_cons] at enough
    exact Nat.exists_eq_succ_of_ne_zero (by omega)
  cases v with
  | null => exact readValue?_scalar (.head _) apart
  | boolean => exact readValue?_scalar (.tail _ (.head _)) apart
  | integer => exact readValue?_scalar (.tail _ (.tail _ (.head _))) apart
  | number => exact readValue?_scalar (.tail _ (.tail _ (.tail _ (.head _)))) apart
  | string => exact readValue?_scalar (.tail _ (.tail _ (.tail _ (.tail _ (.head _))))) apart
  | unknown =>
      exact readValue?_scalar (.tail _ (.tail _ (.tail _ (.tail _ (.tail _ (.head _)))))) apart
  | array item =>
      rw [render_array_append] at enough ⊢
      rw [List.length_append, show "z.array(".toList.length = 8 from rfl] at enough
      exact readValue?_array (readValue?_render item (by simp) (by omega))
  | object fields =>
      cases fields with
      | nil =>
          obtain ⟨fuel, rfl⟩ : ∃ n, fuel = n + 1 := by
            rw [List.length_append, show (render depth (.object [])).length = 12 from rfl] at enough
            exact Nat.exists_eq_succ_of_ne_zero (by omega)
          exact readValue?_object (readFields?_closing (')' :: rest))
      | cons field fields =>
          rw [render_object_append] at enough ⊢
          rw [List.length_append, List.length_cons,
            show "z.object(".toList.length = 9 from rfl] at enough
          exact readValue?_object (readFields?_lines (field :: fields) (by omega))
termination_by sizeOf v

theorem readFields?_lines (fields : List (Text × Validator)) {depth fuel : Nat} {rest : Text}
    (enough : (lines (depth + 1) fields ++ '\n' :: (indent depth ++ '}' :: rest)).length ≤ fuel) :
    readFields? fuel (lines (depth + 1) fields ++ '\n' :: (indent depth ++ '}' :: rest)) =
      some (spokenFields fields, rest) := by
  obtain ⟨fuel, rfl⟩ : ∃ n, fuel = n + 1 := by
    rw [List.length_append, List.length_cons] at enough
    exact Nat.exists_eq_succ_of_ne_zero (by omega)
  cases fields with
  | nil => exact (readFields?_space rfl _).trans (readFields?_indent _)
  | cons field fields =>
      cases field with
      | mk key value =>
          obtain ⟨more, start⟩ := exists_render (depth + 1) value
          rw [lines_cons] at enough ⊢
          rw [readFields?_space rfl, readFields?_indent]
          simp only [List.length_append, List.length_cons] at enough
          refine readFields?_field ?_ (readValue?_render value (by simp) ?_)
            (readFields?_lines fields ?_)
          · rw [start]
            exact Json.skipSpace_cons rfl _
          · simp only [List.length_append, List.length_cons]
            omega
          · simp only [List.length_append, List.length_cons]
            omega
termination_by sizeOf fields
end

/-- What is written for a validator is read as it, but for the keys that are read otherwise. -/
theorem read?_render (v : Validator) (depth : Nat) : read? (render depth v) = some v.spoken := by
  have whole : readValue? (render depth v).length (render depth v ++ []) = some (v.spoken, []) :=
    readValue?_render v nofun (by rw [List.append_nil])
  rw [List.append_nil] at whole
  rw [read?, whole]

/-! ## Keys -/

mutual
/-- The keys of each object, an object before the ones inside it. -/
def keys : Validator → List (List Text)
  | .array item => keys item
  | .object fields => fields.map (·.1) :: keysOfFields fields
  | _ => []

def keysOfFields : List (Text × Validator) → List (List Text)
  | [] => []
  | (_, value) :: fields => keys value ++ keysOfFields fields
end

theorem map_fst_spokenFields (fields : List (Text × Validator)) :
    (spokenFields fields).map (·.1) = (fields.map (·.1)).map Name.spoken := by
  induction fields with
  | nil => rfl
  | cons field fields ih => exact congrArg (Name.spoken field.1 :: ·) ih

mutual
theorem keys_spoken (v : Validator) : keys (spoken v) = (keys v).map (·.map Name.spoken) := by
  cases v with
  | null | boolean | number | integer | string | unknown => rfl
  | array item => exact keys_spoken item
  | object fields =>
      rw [spoken, keys, keys, List.map_cons, map_fst_spokenFields, keysOfFields_spoken fields]
termination_by sizeOf v

theorem keysOfFields_spoken (fields : List (Text × Validator)) :
    keysOfFields (spokenFields fields) = (keysOfFields fields).map (·.map Name.spoken) := by
  cases fields with
  | nil => rfl
  | cons field fields =>
      obtain ⟨key, value⟩ := field
      rw [spokenFields, keysOfFields, keysOfFields, List.map_append, keys_spoken value,
        keysOfFields_spoken fields]
termination_by sizeOf fields
end

end Recast.Validator

namespace Recast.Json

mutual
/-- The objects that a validator describes: each one before those inside it, and of an array
those of its first item only. -/
def sampled : Json → List (List (Text × Json))
  | .array [] => []
  | .array (item :: _) => sampled item
  | .object members => members :: sampledOfMembers members
  | _ => []

def sampledOfMembers : List (Text × Json) → List (List (Text × Json))
  | [] => []
  | (_, value) :: members => sampled value ++ sampledOfMembers members
end

end Recast.Json

namespace Recast.Validator

theorem map_fst_ofMembers (members : List (Text × Json)) :
    (ofMembers members).map (·.1) = members.map (·.1) := by
  induction members with
  | nil => rfl
  | cons member members ih => exact congrArg (member.1 :: ·) ih

mutual
theorem keys_ofValue (v : Json) : keys (ofValue v) = v.sampled.map (·.map (·.1)) := by
  cases v with
  | null | bool | int | string => rfl
  | float x =>
      rw [ofValue]
      split <;> rfl
  | array items =>
      cases items with
      | nil => rfl
      | cons item items => exact keys_ofValue item
  | object members =>
      rw [ofValue, keys, Json.sampled, List.map_cons, map_fst_ofMembers,
        keysOfFields_ofMembers members]
termination_by sizeOf v

theorem keysOfFields_ofMembers (members : List (Text × Json)) :
    keysOfFields (ofMembers members) = (Json.sampledOfMembers members).map (·.map (·.1)) := by
  cases members with
  | nil => rfl
  | cons member members =>
      obtain ⟨key, value⟩ := member
      rw [ofMembers, keysOfFields, Json.sampledOfMembers, List.map_append, keys_ofValue value,
        keysOfFields_ofMembers members]
termination_by sizeOf members
end

/-- The objects of a validator are read as those of its sample. -/
theorem map_keys_read?_render (v : Json) (depth : Nat) :
    (read? ((ofValue v).render depth)).map keys =
      some (v.sampled.map fun object => object.map fun (key, _) => Name.spoken key) := by
  rw [read?_render, Option.map_some, keys_spoken, keys_ofValue, List.map_map]
  simp only [Function.comp_def, List.map_map]

end Recast.Validator
