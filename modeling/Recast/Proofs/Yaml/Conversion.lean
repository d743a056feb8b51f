import Recast.Proofs.Json.Entries
import Recast.Proofs.Yaml.Loaded

/-! # Documents and their JSON values

A value and its JSON value have the same shape: lists become arrays, and each entry of a mapping
becomes one member, whatever its key. So members are lost only when the text is read again.
-/

namespace Recast.Yaml

theorem checkedInt_eq_ok {n m : Int} :
    checkedInt n = .ok m ↔ n = m ∧ n.natAbs < Nat.pow 10 Json.maxDigits := by
  simp only [checkedInt]
  split
  · rename_i bounded
    simp only [Except.ok.injEq, bounded, and_true]
  · rename_i large
    simp only [reduceCtorEq, large, and_false]

namespace Value

variable {v : Value} {w : Json}

/-! ## Values that hold no others -/

theorem toJson_of_isKey (key : v.isKey = true) : v.toJson = v.scalarJson := by
  cases v with
  | sequence | mapping | set | cycle => cases key
  | _ => rfl

/-- The JSON value of one that holds no others holds none either. -/
structure Single (v : Value) (w : Json) : Prop where
  nesting : w.nesting = 0
  count : w.count = 0
  distinct : w.Distinct
  bounded : w.everywhere Json.boundedNumber = true
  canonical : v.Sound → w.everywhere Json.canonicalNumber = true

theorem single_scalarJson (h : v.scalarJson = .ok w) : Single v w := by
  cases v with
  | int n =>
      simp only [scalarJson] at h
      obtain ⟨m, checked, rfl⟩ := map_eq_ok.mp h
      obtain ⟨rfl, bounded⟩ := checkedInt_eq_ok.mp checked
      exact ⟨rfl, rfl, trivial, Json.bounded_int.mpr bounded, fun _ => rfl⟩
  | float x =>
      cases h
      exact ⟨rfl, rfl, trivial, rfl, fun sound => decide_eq_true (show x.Canonical from sound)⟩
  | octets | sequence | mapping | set | cycle => cases h
  | _ =>
      cases h
      exact ⟨rfl, rfl, trivial, rfl, fun _ => rfl⟩

/-! ## Shapes -/

theorem itemsJson_eq_ok {items : List Value} {ws : List Json} :
    itemsJson items = .ok ws ↔ List.Forall₂ (fun v w => v.toJson = .ok w) items ws := by
  induction items generalizing ws with
  | nil => simp [itemsJson, eq_comm]
  | cons item items ih =>
      simp only [itemsJson, bind_eq_ok, pure_eq_ok, Except.ok.injEq, ih, List.forall₂_cons_left_iff]
      constructor
      · rintro ⟨w, here, ws, later, rfl⟩
        exact ⟨w, ws, here, later, rfl⟩
      · rintro ⟨w, ws, here, later, rfl⟩
        exact ⟨w, here, ws, later, rfl⟩

theorem membersJson_eq_ok {entries : List (Value × Value)} {members : List (Text × Json)} :
    membersJson entries = .ok members ↔ List.Forall₂ (fun entry member =>
      entry.1.keyText = .ok member.1 ∧ entry.2.toJson = .ok member.2) entries members := by
  induction entries generalizing members with
  | nil => simp [membersJson, eq_comm]
  | cons entry entries ih =>
      simp only [membersJson, bind_eq_ok, pure_eq_ok, Except.ok.injEq, ih,
        List.forall₂_cons_left_iff]
      constructor
      · rintro ⟨name, named, w, here, ws, later, rfl⟩
        exact ⟨(name, w), ws, ⟨named, here⟩, later, rfl⟩
      · rintro ⟨member, ws, ⟨named, here⟩, later, rfl⟩
        exact ⟨member.1, named, member.2, here, ws, later, rfl⟩

/-- What relates each value to its JSON value. -/
structure Converted (P : Value → Json → Prop) : Prop where
  scalar {v : Value} {w : Json} : v.isKey = true → v.scalarJson = .ok w → P v w
  sequence {items : List Value} {ws : List Json} : List.Forall₂ P items ws →
    P (.sequence items) (.array ws)
  mapping {entries : List (Value × Value)} {members : List (Text × Json)} :
    List.Forall₂ (fun entry member => entry.1.keyText = .ok member.1 ∧ P entry.2 member.2)
      entries members → P (.mapping entries) (.object members)
  set {items : List Value} {ws : List Json} :
    (∀ w ∈ ws, ∃ item ∈ items, item.scalarJson = .ok w) → P (.set items) (.array ws)

variable {P : Value → Json → Prop}

mutual
theorem Converted.toJson (c : Converted P) (v : Value) {w : Json} (h : v.toJson = .ok w) : P v w := by
  cases v with
  | sequence items =>
      obtain ⟨ws, read, rfl⟩ := map_eq_ok.mp h
      exact c.sequence (c.items items read)
  | mapping entries =>
      obtain ⟨members, read, rfl⟩ := map_eq_ok.mp h
      exact c.mapping (c.entries entries read)
  | set items =>
      obtain ⟨ws, read, rfl⟩ := map_eq_ok.mp h
      refine c.set fun w member => ?_
      obtain ⟨item, known, same⟩ := exists_of_mem_mapM read member
      exact ⟨item, List.mem_mergeSort.mp known, same⟩
  | cycle => cases h
  | _ => exact c.scalar rfl (by simpa only [Value.toJson] using h)
termination_by sizeOf v

theorem Converted.items (c : Converted P) (items : List Value) {ws : List Json}
    (h : itemsJson items = .ok ws) : List.Forall₂ P items ws := by
  cases items with
  | nil =>
      cases h
      exact .nil
  | cons item items =>
      simp only [itemsJson, bind_eq_ok, pure_eq_ok, Except.ok.injEq] at h
      obtain ⟨w, here, ws, later, rfl⟩ := h
      exact .cons (c.toJson item here) (c.items items later)
termination_by sizeOf items

theorem Converted.entries (c : Converted P) : (entries : List (Value × Value)) →
    {members : List (Text × Json)} → membersJson entries = .ok members →
    List.Forall₂ (fun entry member => entry.1.keyText = .ok member.1 ∧ P entry.2 member.2)
      entries members
  | [], members, h => by
      cases h
      exact .nil
  | (key, value) :: entries, members, h => by
      simp only [membersJson, bind_eq_ok, pure_eq_ok, Except.ok.injEq] at h
      obtain ⟨name, named, w, here, members, later, rfl⟩ := h
      exact .cons ⟨named, c.toJson value here⟩ (c.entries entries later)
termination_by entries => sizeOf entries
end

/-! ## Numbers and entries -/

theorem converted_bounded : Converted fun _ w => w.everywhere Json.boundedNumber = true where
  scalar := fun _ h => (single_scalarJson h).bounded
  sequence := fun all => Json.everywhereItems_iff.mpr fun w member => by
    obtain ⟨item, -, same⟩ := exists_of_mem_right all member
    exact same
  mapping := fun all => Json.everywhereMembers_iff.mpr fun member known => by
    obtain ⟨entry, -, -, same⟩ := exists_of_mem_right all known
    exact same
  set := fun all => Json.everywhereItems_iff.mpr fun w member => by
    obtain ⟨item, -, same⟩ := all w member
    exact (single_scalarJson same).bounded

theorem converted_canonical :
    Converted fun v w => v.Sound → w.everywhere Json.canonicalNumber = true where
  scalar := fun _ h => (single_scalarJson h).canonical
  sequence := fun all sound => Json.everywhereItems_iff.mpr fun w member => by
    obtain ⟨item, known, same⟩ := exists_of_mem_right all member
    exact same (soundItems_iff.mp sound item known)
  mapping := fun all sound => Json.everywhereMembers_iff.mpr fun member known => by
    obtain ⟨entry, inside, -, same⟩ := exists_of_mem_right all known
    exact same (soundEntries_iff.mp sound.2 entry inside).2
  set := fun all sound => Json.everywhereItems_iff.mpr fun w member => by
    obtain ⟨item, known, same⟩ := all w member
    exact (single_scalarJson same).canonical (soundItems_iff.mp sound item known)

mutual
/-- The number of entries of all mappings inside. -/
def count : Value → Nat
  | .sequence items => countItems items
  | .mapping entries => countEntries entries
  | _ => 0

def countItems : List Value → Nat
  | [] => 0
  | item :: items => item.count + countItems items

def countEntries : List (Value × Value) → Nat
  | [] => 0
  | (_, value) :: entries => value.count + countEntries entries + 1
end

/-- Each entry becomes one member. -/
theorem converted_count : Converted fun v w => w.count = v.count where
  scalar := fun {v w} key h => by
    rw [(single_scalarJson h).count]
    cases v with
    | sequence | mapping | set | cycle => cases key
    | _ => rfl
  sequence := fun {items ws} all => by
    simp only [Json.count, count]
    induction all with
    | nil => rfl
    | cons here later ih => rw [Json.countItems, countItems, here, ih]
  mapping := fun {entries members} all => by
    simp only [Json.count, count]
    induction all with
    | nil => rfl
    | cons here later ih => rw [Json.countMembers, countEntries, here.2, ih]
  set := fun {items ws} all => by
    simp only [Json.count, count]
    induction ws with
    | nil => rfl
    | cons w ws ih =>
        obtain ⟨item, -, same⟩ := all w List.mem_cons_self
        rw [Json.countItems, (single_scalarJson same).count,
          ih fun w member => all w (List.mem_cons_of_mem _ member)]

/-! ## Values that JSON has -/

/-- Is this a string, a number, a boolean or null? Integers are not too large to be written. -/
def isPlainKey : Value → Bool
  | .null | .bool _ | .float _ | .ownNan _ | .string _ => true
  | .int n => n.natAbs < Nat.pow 10 Json.maxDigits
  | _ => false

mutual
/-- Is the value made of mappings with plain keys, lists and scalars of JSON? -/
def Plain : Value → Prop
  | .null | .bool _ | .string _ => True
  | .int n => n.natAbs < Nat.pow 10 Json.maxDigits
  | .float x => x.isFinite = true
  | .sequence items => PlainItems items
  | .mapping entries => PlainEntries entries
  | _ => False

def PlainItems : List Value → Prop
  | [] => True
  | item :: items => item.Plain ∧ PlainItems items

def PlainEntries : List (Value × Value) → Prop
  | [] => True
  | (key, value) :: entries => key.isPlainKey = true ∧ value.Plain ∧ PlainEntries entries
end

theorem exists_keyText (plain : v.isPlainKey = true) : ∃ a, v.keyText = .ok a := by
  cases v with
  | int n =>
      simp only [isPlainKey, decide_eq_true_eq] at plain
      have checked := checkedInt_eq_ok.mpr ⟨rfl, plain⟩
      exact ⟨Text.ofInt n, by rw [keyText, checked]; rfl⟩
  | null | bool | float | ownNan | string => exact ⟨_, rfl⟩
  | _ => cases plain

mutual
/-- Such a value is converted, and its numbers are those that JSON has. -/
theorem exists_toJson (v : Value) (plain : v.Plain) :
    ∃ w, v.toJson = .ok w ∧ w.everywhere Json.finiteNumber = true := by
  cases v with
  | int n =>
      have checked := checkedInt_eq_ok.mpr ⟨rfl, plain⟩
      exact ⟨.int n, by rw [toJson_of_isKey rfl, scalarJson, checked]; rfl, rfl⟩
  | null | bool | string => exact ⟨_, rfl, rfl⟩
  | float x => exact ⟨_, rfl, plain⟩
  | sequence items =>
      obtain ⟨ws, read, finite⟩ := exists_itemsJson items plain
      exact ⟨.array ws, by rw [toJson, read]; rfl, finite⟩
  | mapping entries =>
      obtain ⟨members, read, finite⟩ := exists_membersJson entries plain
      exact ⟨.object members, by rw [toJson, read]; rfl, finite⟩
  | _ => cases plain
termination_by sizeOf v

theorem exists_itemsJson (items : List Value) (plain : PlainItems items) :
    ∃ ws, itemsJson items = .ok ws ∧ Json.everywhereItems Json.finiteNumber ws = true := by
  cases items with
  | nil => exact ⟨[], rfl, rfl⟩
  | cons item items =>
      obtain ⟨w, first, finite⟩ := exists_toJson item plain.1
      obtain ⟨ws, later, finite'⟩ := exists_itemsJson items plain.2
      exact ⟨w :: ws, by rw [itemsJson, first, later]; rfl, by
        rw [Json.everywhereItems, finite, finite']; rfl⟩
termination_by sizeOf items

theorem exists_membersJson : (entries : List (Value × Value)) → PlainEntries entries →
    ∃ members, membersJson entries = .ok members ∧
      Json.everywhereMembers Json.finiteNumber members = true
  | [], _ => ⟨[], rfl, rfl⟩
  | (key, value) :: entries, plain => by
      obtain ⟨name, named⟩ := exists_keyText plain.1
      obtain ⟨w, first, finite⟩ := exists_toJson value plain.2.1
      obtain ⟨members, later, finite'⟩ := exists_membersJson entries plain.2.2
      exact ⟨(name, w) :: members, by rw [membersJson, named, first, later]; rfl, by
        rw [Json.everywhereMembers, finite, finite']; rfl⟩
termination_by entries => sizeOf entries
end

end Value

/-! ## Nesting -/

theorem nesting_sequence {items : List Value} {depth : Nat}
    (all : ∀ item ∈ items, ∀ w, item.toJson = .ok w → w.nesting ≤ depth) {w : Json}
    (h : (Value.sequence items).toJson = .ok w) : w.nesting ≤ depth + 1 := by
  obtain ⟨ws, read, rfl⟩ := map_eq_ok.mp h
  refine Nat.succ_le_succ (Json.nestingItems_le_iff.mpr fun w member => ?_)
  obtain ⟨item, known, same⟩ := exists_of_mem_right (Value.itemsJson_eq_ok.mp read) member
  exact all item known w same

/-- Containers nest no deeper than nodes, but for items of ordered mappings, which are two. -/
theorem closed_nesting : Closed fun fuel v => ∀ w, v.toJson = .ok w → w.nesting ≤ 2 * fuel where
  scalar := fun h w read => by
    rw [Value.toJson_of_isKey (scalar_spec h).1] at read
    rw [(Value.single_scalarJson read).nesting]
    exact Nat.zero_le _
  cycle := nofun
  sequence := fun all w read => Nat.le_succ_of_le (nesting_sequence all read)
  pairs := fun {fuel items} all w read => by
    refine nesting_sequence (fun item member w read => ?_) read
    obtain ⟨key, value, rfl, first, second⟩ := all item member
    exact nesting_sequence (by simpa using ⟨first, second⟩) read
  mapping := fun {fuel pairs} all w h => by
    obtain ⟨members, read, rfl⟩ := map_eq_ok.mp h
    refine Nat.le_succ_of_le (Nat.succ_le_succ (Json.nestingMembers_le_iff.mpr fun member known => ?_))
    obtain ⟨entry, inside, -, same⟩ := exists_of_mem_right (Value.membersJson_eq_ok.mp read) known
    obtain ⟨pair, given, value⟩ :=
      List.mem_map.mp ((Value.ofPairs_spec pairs).2.2 (List.mem_map_of_mem inside))
    rw [← value] at same
    exact (all pair given).2 _ same
  set := fun all w h => by
    obtain ⟨ws, read, rfl⟩ := map_eq_ok.mp h
    refine Nat.succ_le_succ (Json.nestingItems_le_iff.mpr fun w member => ?_)
    obtain ⟨item, -, same⟩ := exists_of_mem_mapM read member
    rw [(Value.single_scalarJson same).nesting]
    exact Nat.zero_le _

/-- The JSON value of a document nests no deeper than is read. -/
theorem nesting_of_load {t : Text} {v : Value} {w : Json} (loaded : load t = .ok v)
    (converted : v.toJson = .ok w) : w.nesting ≤ Json.maxDepth :=
  closed_nesting.load loaded w converted

end Recast.Yaml
