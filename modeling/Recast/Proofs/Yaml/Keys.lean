import Recast.Proofs.Convert.JsonOutput

/-! # Keys and their names

Each key is written as a text, the name of a member. Different keys of a mapping have one name
only when one of them is a string that spells the other, or when both are NaN. Exactly then
entries are lost when the output is read.
-/

namespace Recast.Yaml

namespace Value

/-! ## Names -/

def isNan : Value → Bool
  | .float .nan | .ownNan _ => true
  | _ => false

/-- Is a text what a key is written as? -/
def isNamed (key : Value) (name : Text) : Bool :=
  match key.keyText with
  | .ok written => written == name
  | .error _ => false

/-- Does a string spell the other key, or are both NaN? -/
def clash : Value → Value → Bool
  | .string _, .string _ => false
  | .string s, l => l.isNamed s
  | k, .string s => k.isNamed s
  | k, l => k.isNan && l.isNan

/-- The JSON value that a key which is no string spells. -/
def spelled? : Value → Option Json
  | .null => some .null
  | .bool b => some (.bool b)
  | .int n => some (.int n)
  | .float x => if x.isFinite then some (.float x) else none
  | _ => none

variable {k l : Value} {a b : Text}

/-- The name of a key that is no string reads as the key, if it is not infinite or NaN. -/
theorem read_keyText (other : ∀ s, k ≠ .string s) (sound : k.Sound) (named : k.keyText = .ok a) :
    (Json.readAtom a).toOption.map (·.1) = k.spelled? := by
  cases k with
  | null =>
      cases named
      rfl
  | bool b =>
      cases named
      cases b <;> rfl
  | int n =>
      simp only [keyText] at named
      obtain ⟨m, checked, rfl⟩ := map_eq_ok.mp named
      obtain ⟨rfl, bounded⟩ := checkedInt_eq_ok.mp checked
      rw [Json.readAtom_int bounded]
      rfl
  | float x =>
      cases named
      cases finite : x.isFinite with
      | true =>
          obtain ⟨y, read, same⟩ := Json.readAtom_finite finite
          rw [same sound] at read
          simp only [Json.compact, Json.write, read, spelled?, finite, if_true]
          rfl
      | false =>
          obtain ⟨name, refused⟩ := Json.readAtom_not_finite finite []
          rw [List.append_nil] at refused
          simp only [Json.compact, Json.write, refused, spelled?, finite]
          rfl
  | ownNan place =>
      cases named
      rfl
  | string s => exact absurd rfl (other s)
  | _ => cases named

/-- The key that a JSON value spells. -/
def ofSpelled : Json → Value
  | .bool b => .bool b
  | .int n => .int n
  | .float x => .float x
  | _ => .null

theorem ofSpelled_spelled? {w : Json} (h : k.spelled? = some w) : ofSpelled w = k := by
  cases k with
  | float x =>
      simp only [spelled?, Option.ite_none_right_eq_some, Option.some.injEq] at h
      rw [← h.2]
      rfl
  | null | bool | int =>
      cases h
      rfl
  | _ => cases h

theorem isSameKey_self (named : k.keyText = .ok a) : k.isSameKey k = true := by
  have number (n : Int ⊕ Binary64) : (n == n) = true := by
    cases n with
    | inl n => exact beq_self_eq_true n
    | inr x => exact beq_self_eq_true x
  cases k with
  | null => rfl
  | bool | int | float => exact number _
  | string | ownNan => exact beq_self_eq_true _
  | octets | date | instant | sequence | mapping | set | cycle => cases named

/-- The name of a value that is infinite or NaN. -/
theorem keyText_of_not_spelled (other : ∀ s, k ≠ .string s) (h : k.spelled? = none)
    (named : k.keyText = .ok a) :
    (k.isNan = true ∧ a = "NaN") ∨
      ∃ negative, k = .float (.infinite negative) ∧ a = if negative then "-Infinity" else "Infinity" := by
  cases k with
  | string s => exact absurd rfl (other s)
  | ownNan place =>
      cases named
      exact .inl ⟨rfl, rfl⟩
  | float x =>
      cases named
      cases x with
      | finite => simp [spelled?, Binary64.isFinite] at h
      | nan => exact .inl ⟨rfl, rfl⟩
      | infinite negative => exact .inr ⟨negative, rfl, by cases negative <;> rfl⟩
  | null | bool | int => cases h
  | octets | date | instant | sequence | mapping | set | cycle => cases named

theorem keyText_of_isNan (nan : k.isNan = true) : k.keyText = .ok "NaN" := by
  cases k with
  | float x =>
      cases x with
      | nan => rfl
      | _ => cases nan
  | ownNan => rfl
  | _ => cases nan

/-- Keys that are no strings have a name each, but for the NaNs. -/
theorem name_inj (other : ∀ s, k ≠ .string s) (other' : ∀ s, l ≠ .string s) (sound : k.Sound)
    (sound' : l.Sound) (named : k.keyText = .ok a) (named' : l.keyText = .ok a) :
    k = l ∨ k.isNan = true ∧ l.isNan = true := by
  have same := (read_keyText other sound named).symm.trans (read_keyText other' sound' named')
  cases spelled : k.spelled? with
  | some w =>
      exact .inl ((ofSpelled_spelled? spelled).symm.trans
        (ofSpelled_spelled? (same.symm.trans spelled)))
  | none =>
      rw [spelled] at same
      have word := keyText_of_not_spelled other spelled named
      have word' := keyText_of_not_spelled other' same.symm named'
      rcases word with ⟨nan, rfl⟩ | ⟨negative, rfl, rfl⟩
      · rcases word' with ⟨nan', -⟩ | ⟨negative', rfl, word'⟩
        · exact .inr ⟨nan, nan'⟩
        · exact absurd word' (by cases negative' <;> decide)
      · rcases word' with ⟨-, word'⟩ | ⟨negative', rfl, word'⟩
        · exact absurd word' (by cases negative <;> decide)
        · cases negative <;> cases negative' <;> first
            | exact .inl rfl
            | exact absurd word' (by decide)

/-- Different keys have one name exactly when a string spells the other or both are NaN. -/
theorem name_eq_iff (sound : k.Sound) (sound' : l.Sound) (different : k.isSameKey l = false)
    (named : k.keyText = .ok a) (named' : l.keyText = .ok b) : a = b ↔ k.clash l = true := by
  by_cases first : ∃ s, k = .string s
  · obtain ⟨s, rfl⟩ := first
    cases named
    by_cases second : ∃ t, l = .string t
    · obtain ⟨t, rfl⟩ := second
      cases named'
      simpa [isSameKey, clash] using different
    · have spells : (string a).clash l = (b == a) := by
        rw [clash.eq_2 _ _ fun t same => second ⟨t, same⟩, isNamed, named']
      rw [spells, beq_iff_eq, eq_comm]
  · have other : ∀ s, k ≠ .string s := fun s same => first ⟨s, same⟩
    by_cases second : ∃ t, l = .string t
    · obtain ⟨t, rfl⟩ := second
      cases named'
      have spells : k.clash (string b) = (a == b) := by
        rw [clash.eq_3 _ _ other, isNamed, named]
      rw [spells, beq_iff_eq]
    · have other' : ∀ t, l ≠ .string t := fun t same => second ⟨t, same⟩
      have numbers : k.clash l = (k.isNan && l.isNan) :=
        clash.eq_4 _ _ other other' fun s t same => absurd same (other s)
      rw [numbers, Bool.and_eq_true]
      constructor
      · rintro rfl
        rcases name_inj other other' sound sound' named named' with rfl | nan
        · rw [isSameKey_self named] at different
          cases different
        · exact nan
      · rintro ⟨nan, nan'⟩
        rw [keyText_of_isNan nan] at named
        rw [keyText_of_isNan nan'] at named'
        exact Except.ok.inj (named.symm.trans named')

theorem forall_keyText_ne_iff {keys : List Value} {names : List Text} (named : k.keyText = .ok a)
    (sound : k.Sound) (all : List.Forall₂ (fun k a => k.keyText = .ok a) keys names)
    (sounds : ∀ l ∈ keys, l.Sound) (different : ∀ l ∈ keys, k.isSameKey l = false) :
    (∀ b ∈ names, a ≠ b) ↔ ∀ l ∈ keys, k.clash l = false := by
  induction all with
  | nil => simp
  | cons here later ih =>
      rw [List.forall_mem_cons] at sounds different
      rw [List.forall_mem_cons, List.forall_mem_cons, ih sounds.2 different.2, Ne,
        name_eq_iff sound sounds.1 different.1 named here, Bool.not_eq_true]

theorem nodup_keyTexts_iff {keys : List Value} {names : List Text}
    (all : List.Forall₂ (fun k a => k.keyText = .ok a) keys names) (sounds : ∀ l ∈ keys, l.Sound)
    (different : Different keys) :
    names.Nodup ↔ keys.Pairwise fun k l => k.clash l = false := by
  induction all with
  | nil => simp
  | cons here later ih =>
      rw [List.forall_mem_cons] at sounds
      obtain ⟨first, different⟩ := List.pairwise_cons.mp different
      rw [List.Nodup, List.pairwise_cons, List.pairwise_cons, ← List.Nodup, ih sounds.2 different,
        forall_keyText_ne_iff here sounds.1 later sounds.2 first]

/-! ## Documents -/

mutual
/-- Do no two keys of a mapping clash? -/
def Apart : Value → Prop
  | .sequence items => ApartItems items
  | .mapping entries =>
    (entries.map (·.1)).Pairwise (fun k l => k.clash l = false) ∧ ApartEntries entries
  | _ => True

def ApartItems : List Value → Prop
  | [] => True
  | item :: items => item.Apart ∧ ApartItems items

def ApartEntries : List (Value × Value) → Prop
  | [] => True
  | (_, value) :: entries => value.Apart ∧ ApartEntries entries
end

theorem converted_distinct : Converted fun v w => v.Sound → (w.Distinct ↔ v.Apart) where
  scalar := fun {v w} key h _ => by
    have distinct := (single_scalarJson h).distinct
    cases v with
    | sequence | mapping | set | cycle => cases key
    | _ => exact ⟨fun _ => trivial, fun _ => distinct⟩
  sequence := fun {items ws} all sound => by
    simp only [Sound, Json.Distinct, Apart] at sound ⊢
    induction all with
    | nil => exact Iff.rfl
    | cons here later ih =>
        rw [Json.DistinctItems, ApartItems, here sound.1, ih sound.2]
  mapping := fun {entries members} all sound => by
    obtain ⟨different, sounds⟩ := sound
    have named : List.Forall₂ (fun k a => k.keyText = .ok a) (entries.map (·.1))
        (members.map (·.1)) :=
      List.forall₂_map_left_iff.mpr (List.forall₂_map_right_iff.mpr (all.imp fun _ _ h => h.1))
    have keys := nodup_keyTexts_iff named (fun key member => by
      obtain ⟨entry, known, rfl⟩ := List.mem_map.mp member
      exact (soundEntries_iff.mp sounds entry known).1) different
    rw [Json.Distinct, Apart, keys]
    refine and_congr Iff.rfl ?_
    clear keys different named
    induction all with
    | nil => exact Iff.rfl
    | cons here later ih =>
        rw [Json.DistinctMembers, ApartEntries, here.2 sounds.2.1, ih sounds.2.2]
  set := fun {items ws} all _ => by
    simp only [Json.Distinct, Apart, iff_true]
    refine Json.distinctItems_iff.mpr fun w member => ?_
    obtain ⟨item, -, same⟩ := all w member
    exact (single_scalarJson same).distinct

end Value

/-- Each entry of a document is written as a member, and the members of an object have different
    keys exactly when no two keys of a mapping clash. Exactly then reading the output gives as many
    members as there were entries, and gives what was written. -/
theorem entries_kept_iff {t : Text} {v : Value} (loaded : load t = .ok v)
    (settings : List (Text × Json)) :
    (v.Plain → ∃ w, v.toJson = .ok w ∧ w.everywhere Json.finiteNumber = true) ∧
    ∀ w, v.toJson = .ok w →
      Engine.yamlToJson.run settings t = .ok (Json.pretty w) ∧ w.count = v.count ∧
      (w.Distinct ↔ v.Apart) ∧
      (w.everywhere Json.finiteNumber = true →
        ∃ u, Json.parse (Json.pretty w) = .ok u ∧ (u.count = v.count ↔ v.Apart) ∧
          (v.Apart → u = w)) := by
  have sound : v.Sound := closed_sound.load loaded
  refine ⟨Value.exists_toJson v, fun w converted => ?_⟩
  have read : toJson t = .ok w := by rw [toJson, loaded, ok_bind, converted]
  have count := Value.converted_count.toJson v converted
  have distinct := Value.converted_distinct.toJson v converted sound
  refine ⟨by rw [Engine.run, read]; rfl, count, distinct, fun finite => ?_⟩
  rw [← count, ← distinct]
  exact Json.exists_parse_write .pretty (bounded_toJson read)
    (Value.converted_canonical.toJson v converted sound) finite (nesting_of_load loaded converted)

/-- Keys of two types that do not clash. -/
def mixedText : Text := "1: a\n~: b"

def mixedValue : Value := .mapping [(.int 1, .string "a"), (.null, .string "b")]

theorem entries_kept_iff_mixedText :
    load mixedText = .ok mixedValue ∧ mixedValue.Plain ∧ mixedValue.Apart ∧ mixedValue.count = 2 ∧
    ∃ w, Engine.yamlToJson.run [] mixedText = .ok (Json.pretty w) ∧ w.count = 2 ∧ w.Distinct ∧
      Json.parse (Json.pretty w) = .ok w := by
  have loaded : load mixedText = .ok mixedValue := by decide +kernel
  have plain : mixedValue.Plain := ⟨by decide +kernel, trivial, rfl, trivial, trivial⟩
  have apart : mixedValue.Apart := ⟨by decide +kernel, trivial, trivial, trivial⟩
  obtain ⟨emitted, kept⟩ := entries_kept_iff loaded []
  obtain ⟨w, converted, finite⟩ := emitted plain
  obtain ⟨output, count, distinct, read⟩ := kept w converted
  obtain ⟨u, parsed, -, same⟩ := read finite
  rw [same apart] at parsed
  exact ⟨loaded, plain, apart, rfl, w, output, count, distinct.mpr apart, parsed⟩

/-- An integer and the string that spells it. -/
def clashText : Text := "1: a\n\"1\": b"

def clashValue : Value := .mapping [(.int 1, .string "a"), (.string "1", .string "b")]

theorem entries_lost :
    load clashText = .ok clashValue ∧ clashValue.Plain ∧ clashValue.count = 2 ∧
    Engine.yamlToJson.run [] clashText =
      .ok (Json.pretty (.object [("1", .string "a"), ("1", .string "b")])) ∧
    Json.parse (Json.pretty (.object [("1", .string "a"), ("1", .string "b")])) =
      .ok (.object [("1", .string "b")]) :=
  ⟨by decide +kernel, ⟨by decide +kernel, trivial, rfl, trivial, trivial⟩, rfl, by decide +kernel,
    by decide +kernel⟩

end Recast.Yaml
