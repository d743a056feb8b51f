import Recast.Proofs.Naming.Declared
import Recast.Proofs.Naming.Property
import Recast.Proofs.Naming.TypeName

/-! # Reading interfaces

An interface is read back field by field. The types of declared fields never go beyond their
line, so each line after the first gives one field. The interfaces of a sample are those of the
objects inside it, each with the fields of its object.
-/

namespace Recast

namespace Text

theorem cons_join (c : Char) {parts : List Text} (some : parts ≠ []) :
    c :: join [c] parts = parts.flatMap (c :: ·) := by
  induction parts with
  | nil => exact absurd rfl some
  | cons part parts ih =>
      cases parts with
      | nil => simp [join]
      | cons next parts =>
          rw [join, List.flatMap_cons, ← ih (by simp)]
          · simp
          · simp

end Text

/-- As the type of a field it does not go beyond its line. -/
def TypeExpr.OneLine (type : TypeExpr) : Prop := '\n' ∉ type.render 1

namespace Declaration

/-- Is there a question mark, and the text after it. -/
def readMark : Text → Bool × Text
  | '?' :: rest => (true, Json.skipSpace rest)
  | t => (false, t)

/-- A field's name and whether it may be absent. The rest is given from the end of the line on,
where the type of the field ends too. -/
def readField? (t : Text) : Option ((Text × Bool) × Text) := do
  let (key, rest) ← Name.readProperty? t
  let (optional, rest) := readMark rest
  let type ← Text.after? [':'] rest
  return ((key, optional), type.dropWhile (· != '\n'))

def readFields? : Nat → Text → Option (List (Text × Bool))
  | 0, _ => none
  | fuel + 1, t =>
    if Json.skipSpace t = ['}'] then some []
    else do
      let (field, rest) ← readField? (Json.skipSpace t)
      let fields ← readFields? fuel rest
      return field :: fields

/-- The fields of an interface, each with whether it may be absent. -/
def readInterface? (t : Text) : Option (List (Text × Bool)) := do
  let rest ← Text.after? "export interface " t
  let (_, rest) ← Name.readWord? rest
  let body ← Text.after? ['{'] rest
  readFields? body.length body

/-! ## Fields -/

variable {field : Field TypeExpr} {fields : List (Field TypeExpr)}

theorem readMark_optionalMark (optional : Bool) (rest : Text) :
    readMark (TypeExpr.optionalMark optional ++ ':' :: rest) = (optional, ':' :: rest) := by
  cases optional <;> rfl

theorem readProperty?_marked (key : Text) (optional : Bool) (rest : Text) :
    Name.readProperty? (Name.property key ++ (TypeExpr.optionalMark optional ++ ':' :: rest)) =
      some (Name.spoken key, TypeExpr.optionalMark optional ++ ':' :: rest) := by
  cases optional with
  | false => exact Name.readProperty?_property (.inl rfl) key rest
  | true => exact Name.readProperty?_property (.inr rfl) key (':' :: rest)

theorem readField?_of_oneLine (single : field.type.OneLine) (rest : Text) :
    readField? (Name.property field.key ++ (TypeExpr.optionalMark field.optional ++
        ':' :: ' ' :: (field.type.render 1 ++ '\n' :: rest))) =
      some ((Name.spoken field.key, field.optional), '\n' :: rest) := by
  have inside : ∀ c ∈ field.type.render 1, (c != '\n') = true := by
    intro c member
    rw [bne_iff_ne]
    rintro rfl
    exact single member
  rw [readField?, readProperty?_marked]
  simp only [Option.bind_eq_bind, Option.bind_some, readMark_optionalMark, Text.after?_cons]
  rw [List.dropWhile_cons_of_pos (by decide), List.dropWhile_append_of_pos inside]
  rfl

theorem skipSpace_line (field : Field TypeExpr) (rest : Text) :
    Json.skipSpace ('\n' :: (renderField field ++ rest)) =
      Name.property field.key ++ (TypeExpr.optionalMark field.optional ++
        ':' :: ' ' :: (field.type.render 1 ++ rest)) := by
  have line : '\n' :: (renderField field ++ rest) =
      '\n' :: ' ' :: ' ' :: (Name.property field.key ++ (TypeExpr.optionalMark field.optional ++
        ':' :: ' ' :: (field.type.render 1 ++ rest))) := by
    simp [renderField, TypeExpr.indent, List.replicate]
  rw [line]
  exact Name.skipSpace_property _ _

theorem readFields?_lines (single : ∀ field ∈ fields, field.type.OneLine) {fuel : Nat}
    (enough : fields.length < fuel) :
    readFields? fuel ((fields.map renderField).flatMap ('\n' :: ·) ++ ['\n', '}']) =
      some (fields.map fun field => (Name.spoken field.key, field.optional)) := by
  induction fields generalizing fuel with
  | nil =>
      obtain ⟨fuel, rfl⟩ := Nat.exists_eq_succ_of_ne_zero (Nat.ne_zero_of_lt enough)
      rfl
  | cons field fields ih =>
      obtain ⟨fuel, rfl⟩ := Nat.exists_eq_succ_of_ne_zero (Nat.ne_zero_of_lt enough)
      rw [List.forall_mem_cons] at single
      have later := ih single.2 (Nat.lt_of_succ_lt_succ enough)
      obtain ⟨rest, following⟩ : ∃ rest,
          (fields.map renderField).flatMap ('\n' :: ·) ++ ['\n', '}'] = '\n' :: rest := by
        cases fields <;> exact ⟨_, rfl⟩
      obtain ⟨c, more, spelled, -, apart⟩ := Name.exists_property field.key
      rw [following] at later
      rw [List.map_cons, List.flatMap_cons, List.append_assoc, following, List.cons_append,
        readFields?, skipSpace_line, if_neg (by simp [spelled, apart]),
        readField?_of_oneLine single.1]
      simp only [Option.bind_eq_bind, Option.bind_some, later]
      rfl

theorem length_le_lines (fields : List (Field TypeExpr)) :
    fields.length ≤ ((fields.map renderField).flatMap ('\n' :: ·)).length := by
  induction fields with
  | nil => exact Nat.le_refl 0
  | cons field fields ih =>
      rw [List.map_cons, List.flatMap_cons, List.length_append, List.length_cons, List.length_cons]
      omega

/-- What stands after the opening brace. -/
def body : List (Field TypeExpr) → Text
  | [] => ['}']
  | fields => (fields.map renderField).flatMap ('\n' :: ·) ++ ['\n', '}']

theorem render_eq (declaration : Declaration) :
    declaration.render = "export interface ".toList ++
      (declaration.name ++ ' ' :: '{' :: body declaration.fields) := by
  obtain ⟨name, fields⟩ := declaration
  cases fields with
  | nil => simp [render, body]
  | cons field fields =>
      have some : (field :: fields).map renderField ≠ [] := by simp
      rw [body, ← Text.cons_join '\n' some]
      · simp [render]
      · simp

theorem readFields?_body (single : ∀ field ∈ fields, field.type.OneLine) :
    readFields? (body fields).length (body fields) =
      some (fields.map fun field => (Name.spoken field.key, field.optional)) := by
  unfold body
  split
  · rfl
  · refine readFields?_lines single ?_
    rw [List.length_append]
    exact Nat.lt_of_le_of_lt (length_le_lines fields) (Nat.lt_add_of_pos_right (by decide))

/-- The fields of an interface are read in order, whatever their keys are. -/
theorem readInterface?_render {declaration : Declaration} (word : TypeText.IsWord declaration.name)
    (single : ∀ field ∈ declaration.fields, field.type.OneLine) :
    readInterface? declaration.render =
      some (declaration.fields.map fun field => (Name.spoken field.key, field.optional)) := by
  have next : Json.skipSpace (' ' :: '{' :: body declaration.fields) =
      '{' :: body declaration.fields := rfl
  rw [render_eq, readInterface?, Text.after?_append, Option.bind_eq_bind, Option.bind_some,
    Name.readWord?_append word (by decide), next]
  simp only [Option.bind_eq_bind, Option.bind_some, Text.after?_cons]
  exact readFields?_body single

end Declaration

/-! ## Samples -/

namespace Json

mutual
/-- The objects in a value, each after the ones inside it. -/
def objects : Json → List (List (Text × Json))
  | .array items => objectsOfItems items
  | .object members => objectsOfMembers members ++ [members]
  | _ => []

def objectsOfItems : List Json → List (List (Text × Json))
  | [] => []
  | item :: items => objects item ++ objectsOfItems items

def objectsOfMembers : List (Text × Json) → List (List (Text × Json))
  | [] => []
  | (_, value) :: members => objects value ++ objectsOfMembers members
end

end Json

namespace TypeExpr

instance (type : TypeExpr) : Decidable (OneLine type) := inferInstanceAs (Decidable (_ ∉ _))

theorem oneLine_primitive (kind : Primitive) : OneLine (.primitive kind) := by
  cases kind <;> decide

theorem oneLine_unknown : OneLine .unknown := by decide

theorem oneLine_named {name : Text} (h : IsTypeName name) : OneLine (.named name) := by
  obtain ⟨c, rest, rfl, first, all⟩ := h
  intro member
  rcases List.mem_cons.mp member with rfl | later
  · exact absurd first (by decide)
  · exact absurd (all _ later) (by decide)

theorem oneLine_array {item : TypeExpr} (single : OneLine item) : OneLine (.array item false) := by
  unfold OneLine at single ⊢
  rw [render_array]
  split <;> simp [single]

theorem oneLine_union {members : List TypeExpr} (single : ∀ member ∈ members, OneLine member) :
    OneLine (.union members) := by
  show '\n' ∉ renderMembers 1 " | " members
  induction members with
  | nil => exact List.not_mem_nil
  | cons member members ih =>
      rw [List.forall_mem_cons] at single
      cases members with
      | nil => exact single.1
      | cons next members =>
          rw [renderMembers]
          · simp only [List.mem_append, not_or]
            exact ⟨⟨single.1, by decide⟩, ih single.2⟩
          · simp

theorem oneLine_unionOf {types : List TypeExpr} (single : ∀ type ∈ types, OneLine type) :
    OneLine (unionOf types) := by
  have kept : ∀ type ∈ distinct types, OneLine type :=
    fun type member => single type (List.mem_eraseDups.mp member)
  unfold unionOf
  split
  · exact oneLine_unknown
  · rename_i type only
    exact kept type (by simp [only])
  · exact oneLine_union kept

/-- The fields have the keys of an object, none of them may be absent and each is one line. -/
structure Lists (fields : List (Field TypeExpr)) (object : List (Text × Json)) : Prop where
  keys : fields.map (fun field => (field.key, field.optional)) =
    object.map fun (key, _) => (key, false)
  lines : ∀ field ∈ fields, field.type.OneLine

def Describes (declaration : Declaration) (object : List (Text × Json)) : Prop :=
  IsTypeName declaration.name ∧ Lists declaration.fields object

/-- From one state to a later one each of the objects is described by one new declaration. -/
def Covers (before later : Lifting) (objects : List (List (Text × Json))) : Prop :=
  ∃ new, later.declarations = before.declarations ++ new ∧ List.Forall₂ Describes new objects

theorem Covers.refl (state : Lifting) : Covers state state [] :=
  ⟨[], (List.append_nil _).symm, .nil⟩

theorem Covers.trans {first second third : Lifting} {as bs : List (List (Text × Json))}
    (h : Covers first second as) (h' : Covers second third bs) : Covers first third (as ++ bs) := by
  obtain ⟨new, grown, each⟩ := h
  obtain ⟨new', grown', each'⟩ := h'
  exact ⟨new ++ new', by rw [grown', grown, List.append_assoc], List.rel_append each each'⟩

theorem Covers.object {state inner : Lifting} {pool : NamePool} {declaration : Declaration}
    {object : List (Text × Json)} {objects : List (List (Text × Json))}
    (h : Covers { state with pool } inner objects) (here : Describes declaration object) :
    Covers state { inner with declarations := inner.declarations ++ [declaration] }
      (objects ++ [object]) := by
  obtain ⟨new, grown, each⟩ := h
  refine ⟨new ++ [declaration], ?_, List.rel_append each (.cons here .nil)⟩
  simp only [grown, List.append_assoc]

theorem isTypeName_claim (key : Text) (pool : NamePool) :
    IsTypeName (pool.claim (Name.pascal Name.root key)).1 := by
  rw [NamePool.claim_eq_numbered]
  exact (Name.isTypeName_pascal key).numbered _

mutual
theorem lift_covers (name : Text) (state : Lifting) (v : Json) :
    OneLine (lift name state v).1 ∧ Covers state (lift name state v).2 v.objects := by
  cases v with
  | null | bool | int | float | string => exact ⟨oneLine_primitive _, .refl state⟩
  | array items =>
      obtain ⟨single, covered⟩ := liftItems_covers (itemName name) state items
      rw [lift_array]
      exact ⟨oneLine_array (oneLine_unionOf single), covered⟩
  | object members =>
      obtain ⟨listed, covered⟩ := liftMembers_covers
        { state with pool := (state.pool.claim (Name.pascal Name.root name)).2 } members
      have word := isTypeName_claim name state.pool
      exact ⟨oneLine_named word, covered.object ⟨word, listed⟩⟩
termination_by sizeOf v

theorem liftItems_covers (name : Text) (state : Lifting) (items : List Json) :
    (∀ type ∈ (liftItems name state items).1, OneLine type) ∧
      Covers state (liftItems name state items).2 (Json.objectsOfItems items) := by
  cases items with
  | nil => exact ⟨List.forall_mem_nil _, .refl state⟩
  | cons item items =>
      obtain ⟨single, covered⟩ := lift_covers name state item
      obtain ⟨others, more⟩ := liftItems_covers name (lift name state item).2 items
      exact ⟨List.forall_mem_cons.mpr ⟨single, others⟩, covered.trans more⟩
termination_by sizeOf items

theorem liftMembers_covers (state : Lifting) (members : List (Text × Json)) :
    Lists (liftMembers state members).1 members ∧
      Covers state (liftMembers state members).2 (Json.objectsOfMembers members) := by
  cases members with
  | nil => exact ⟨⟨rfl, List.forall_mem_nil _⟩, .refl state⟩
  | cons member members =>
      obtain ⟨key, value⟩ := member
      obtain ⟨single, covered⟩ := lift_covers key state value
      obtain ⟨listed, more⟩ := liftMembers_covers (lift key state value).2 members
      exact ⟨⟨congrArg ((key, false) :: ·) listed.keys,
        List.forall_mem_cons.mpr ⟨single, listed.lines⟩⟩, covered.trans more⟩
termination_by sizeOf members
end

theorem declarationsOf_describes (members : List (Text × Json)) :
    List.Forall₂ Describes (declarationsOf members) (members :: Json.objectsOfMembers members) := by
  obtain ⟨listed, new, grown, each⟩ :=
    liftMembers_covers { pool := (NamePool.claim Name.root []).2 } members
  rw [declarationsOf_eq, grown]
  exact .cons ⟨Name.isTypeName_root, listed⟩ each

theorem readInterface?_of_describes {declaration : Declaration} {object : List (Text × Json)}
    (h : Describes declaration object) :
    Declaration.readInterface? declaration.render =
      some (object.map fun (key, _) => (Name.spoken key, false)) := by
  obtain ⟨word, listed⟩ := h
  have same := congrArg (List.map fun (key, optional) => (Name.spoken key, optional)) listed.keys
  rw [List.map_map, List.map_map] at same
  rw [Declaration.readInterface?_render word.isWord listed.lines]
  exact congrArg some same

theorem map_readInterface? {declarations : List Declaration}
    {objects : List (List (Text × Json))} (h : List.Forall₂ Describes declarations objects) :
    (declarations.map Declaration.render).map Declaration.readInterface? =
      objects.map fun object => some (object.map fun (key, _) => (Name.spoken key, false)) := by
  induction h with
  | nil => rfl
  | cons here _ ih =>
      rw [List.map_cons, List.map_cons, List.map_cons, ih, readInterface?_of_describes here]

/-- The interfaces of a sample read as its objects, the sample itself first. -/
theorem readInterface?_describe (members : List (Text × Json)) :
    (describe (.object members)).declarations.map Declaration.readInterface? =
      (members :: Json.objectsOfMembers members).map fun object =>
        some (object.map fun (key, _) => (Name.spoken key, false)) :=
  map_readInterface? (declarationsOf_describes members)

end TypeExpr
end Recast
