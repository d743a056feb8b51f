import Recast.Proofs.Number.Rounding
import Recast.Proofs.Outcome
import Recast.Yaml.Reader

/-! # Values of documents

What holds of every value that a document can have is shown once for each kind of node. Numbers
are those of the format, and a mapping has each key once.
-/

namespace Recast.Yaml

variable {α β : Type} {p : Nat → Value → Prop} {t : Text} {v : Value} {fuel depth : Nat}

/-! ## Steps side by side -/

theorem both_eq_ok {a : Except Late α} {b : Except Late β} {x : α × β} :
    both a b = .ok x ↔ a = .ok x.1 ∧ b = .ok x.2 := by
  obtain ⟨x, y⟩ := x
  cases a <;> cases b <;> simp [both]

theorem allOf_eq_ok {steps : List (Except Late α)} {xs : List α} :
    allOf steps = .ok xs ↔ steps = xs.map .ok := by
  induction steps generalizing xs with
  | nil => cases xs <;> simp [allOf]
  | cons step rest ih =>
      simp only [allOf, map_eq_ok, both_eq_ok, Prod.exists, ih]
      constructor
      · rintro ⟨x, xs, ⟨rfl, rfl⟩, rfl⟩
        rfl
      · intro same
        cases xs with
        | nil => cases same
        | cons x xs =>
            obtain ⟨rfl, rfl⟩ := List.cons.inj same
            exact ⟨x, xs, ⟨rfl, rfl⟩, rfl⟩

/-- Each of the results comes from one of the steps. -/
theorem exists_of_mem_allOf {f : α → Except Late β} {xs : List α} {ys : List β}
    (h : allOf (xs.map f) = .ok ys) {y : β} (member : y ∈ ys) : ∃ x ∈ xs, f x = .ok y := by
  rw [allOf_eq_ok] at h
  have known := List.mem_map_of_mem (f := Except.ok (ε := Late)) member
  rw [← h] at known
  exact List.mem_map.mp known

/-! ## Every value -/

/-- A property of values by the nesting of their nodes, which each way to make a value keeps. -/
structure Closed (p : Nat → Value → Prop) : Prop where
  scalar {fuel : Nat} {tag : Tag} {t : Text} {place : Nat} {v : Value} :
    scalarValue? tag t place = some (.ok v) → p fuel v
  cycle {fuel : Nat} : p fuel .cycle
  sequence {fuel : Nat} {items : List Value} : (∀ item ∈ items, p fuel item) →
    p (fuel + 1) (.sequence items)
  pairs {fuel : Nat} {items : List Value} :
    (∀ item ∈ items, ∃ key value, item = .sequence [key, value] ∧ p fuel key ∧ p fuel value) →
      p (fuel + 1) (.sequence items)
  mapping {fuel : Nat} {pairs : List (Value × Value)} :
    (∀ pair ∈ pairs, p fuel pair.1 ∧ p fuel pair.2) → p (fuel + 1) (.mapping (Value.ofPairs pairs))
  set {fuel : Nat} {pairs : List (Value × Value)} :
    (∀ pair ∈ pairs, p fuel pair.1 ∧ p fuel pair.2) →
      p (fuel + 1) (.set ((Value.ofPairs pairs).map (·.1)))

theorem asKey_eq_ok {read : Except Late Value} (h : Value.asKey depth read = .ok v) :
    read = .ok v := by
  cases read with
  | error e => cases h
  | ok w =>
      simp only [Value.asKey, Except.bind] at h
      split at h
      · exact h
      · cases h

/-- The entries that are read are made of pairs of values that were read. -/
theorem exists_of_readEntries {read : Node → Except Late Value} {nodes : List (Node × Node)}
    {entries : List (Value × Value)} (h : Value.readEntries depth read nodes = .ok entries) :
    ∃ pairs, entries = Value.ofPairs pairs ∧
      ∀ pair ∈ pairs, ∃ key value, read key = .ok pair.1 ∧ read value = .ok pair.2 := by
  unfold Value.readEntries at h
  split at h
  · cases h
  · obtain ⟨pairs, known, rfl⟩ := map_eq_ok.mp h
    refine ⟨pairs, rfl, ?_⟩
    intro pair member
    obtain ⟨entry, -, sides⟩ := exists_of_mem_allOf known member
    obtain ⟨key, value⟩ := both_eq_ok.mp sides
    exact ⟨entry.1, entry.2, asKey_eq_ok key, value⟩

section

variable {read : Node → Except Late Value}

/-- A mapping and a set have their entries read alike. -/
theorem exists_pairs_of_readEntries (known : ∀ {node v}, read node = .ok v → p fuel v)
    {nodes : List (Node × Node)} {entries : List (Value × Value)}
    (h : Value.readEntries depth read nodes = .ok entries) :
    ∃ pairs, entries = Value.ofPairs pairs ∧ ∀ pair ∈ pairs, p fuel pair.1 ∧ p fuel pair.2 := by
  obtain ⟨pairs, made, sides⟩ := exists_of_readEntries h
  refine ⟨pairs, made, fun pair member => ?_⟩
  obtain ⟨_, _, key, value⟩ := sides pair member
  exact ⟨known key, known value⟩

theorem all_of_allOf (known : ∀ {node v}, read node = .ok v → p fuel v) {nodes : List Node}
    {items : List Value} (h : allOf (nodes.map read) = .ok items) : ∀ item ∈ items, p fuel item := by
  intro item member
  obtain ⟨node, -, same⟩ := exists_of_mem_allOf h member
  exact known same

end

theorem Closed.ofNode (closed : Closed p) {node : Node}
    (h : Value.ofNode fuel depth node = .ok v) : p fuel v := by
  induction fuel generalizing depth node v with
  | zero => cases h
  | succ fuel ih =>
      unfold Value.ofNode at h
      simp only at h
      split at h
      · cases h
        exact closed.cycle
      · obtain ⟨items, read, rfl⟩ := map_eq_ok.mp h
        exact closed.sequence (all_of_allOf ih read)
      · obtain ⟨entries, read, rfl⟩ := map_eq_ok.mp h
        obtain ⟨pairs, rfl, known⟩ := exists_pairs_of_readEntries ih read
        exact closed.mapping known
      · obtain ⟨entries, read, rfl⟩ := map_eq_ok.mp h
        obtain ⟨pairs, rfl, known⟩ := exists_pairs_of_readEntries ih read
        exact closed.set known
      · split at h
        · obtain ⟨items, read, rfl⟩ := map_eq_ok.mp h
          refine closed.pairs fun item member => ?_
          obtain ⟨node, -, known⟩ := exists_of_mem_allOf read member
          split at known
          · obtain ⟨pair, sides, rfl⟩ := map_eq_ok.mp known
            obtain ⟨key, value⟩ := both_eq_ok.mp sides
            exact ⟨pair.1, pair.2, rfl, ih key, ih value⟩
          · cases known
        · split at h <;> cases h
      · split at h
        case h_6 =>
          have known := mapError_eq_ok.mp h
          rw [Option.getD_eq_iff] at known
          exact closed.scalar (known.resolve_right fun other => nomatch other.2)
        all_goals cases h

theorem Closed.load (closed : Closed p) (h : load t = .ok v) : p Value.maxDepth v := by
  simp only [Yaml.load, bind_eq_ok] at h
  obtain ⟨tokens, -, node?, -, h⟩ := h
  cases node? with
  | none =>
      cases h
      exact closed.scalar (show scalarValue? .null t 0 = some (.ok .null) from rfl)
  | some node => exact closed.ofNode (mapError_eq_ok.mp h)

/-! ## Numbers of the format -/

namespace Number

variable {x : Binary64}

theorem canonical_decimal? {negative : Bool} (h : decimal? negative t = some x) : x.Canonical := by
  unfold decimal? at h
  simp only at h
  split at h
  all_goals repeat' split at h
  all_goals first
    | cases h
      exact Binary64.canonical_ofDecimal _ _ _
    | cases h

theorem canonical_binary64 (h : binary64 t = .ok x) : x.Canonical := by
  unfold binary64 at h
  simp only at h
  split at h
  · cases h
    trivial
  · split at h
    · cases h
      trivial
    · split at h
      · rename_i found
        cases h
        exact canonical_decimal? found
      · cases h

theorem canonical_sixties {sum : Binary64} (known : sum.Canonical) (unit : Int)
    (parts : List Binary64) : (sixties sum unit parts).Canonical := by
  induction parts generalizing sum unit with
  | nil => exact known
  | cons part parts ih => exact ih (Binary64.canonical_add _ _) _

theorem canonical_float (h : float t = .ok x) : x.Canonical := by
  unfold float at h
  simp only at h
  split at h
  · cases h
  · split at h
    · cases h
      trivial
    · split at h
      · cases h
        trivial
      · obtain ⟨parts, read, h⟩ := bind_eq_ok.mp h
        have all : ∀ part ∈ parts, part.Canonical := fun part member => by
          obtain ⟨piece, -, known⟩ := exists_of_mem_mapM read member
          exact canonical_binary64 known
        have zero : (Binary64.zero false).Canonical := Binary64.fits_zero
        clear read
        split at h <;> cases h
        · split
          · exact (all _ List.mem_cons_self).neg
          · exact (canonical_sixties zero _ _).neg
        · split
          · exact all _ List.mem_cons_self
          · exact canonical_sixties zero _ _

end Number

/-! ## Keys that differ -/

namespace Value

/-- Is each of some keys another than those before it? -/
def Different (keys : List Value) : Prop := keys.Pairwise fun k l => k.isSameKey l = false

theorem keys_put (key value : Value) (entries : List (Value × Value)) :
    (put key value entries).map (·.1) =
      if entries.any (·.1.isSameKey key) then entries.map (·.1) else entries.map (·.1) ++ [key] := by
  induction entries with
  | nil => rfl
  | cons entry entries ih =>
      obtain ⟨k, v⟩ := entry
      rw [put]
      cases same : k.isSameKey key with
      | true => simp [same]
      | false =>
          rw [if_neg (by simp), List.map_cons, ih, List.any_cons, same, Bool.false_or]
          split <;> rfl

theorem different_put {entries : List (Value × Value)} (different : Different (entries.map (·.1)))
    (key value : Value) : Different ((put key value entries).map (·.1)) := by
  rw [keys_put]
  split
  · exact different
  · rename_i new
    refine List.pairwise_append.mpr ⟨different, List.pairwise_singleton _ _, ?_⟩
    intro k known l last
    obtain ⟨entry, member, rfl⟩ := List.mem_map.mp known
    rw [List.mem_singleton.mp last]
    simpa using fun same => new (List.any_eq_true.mpr ⟨entry, member, same⟩)

theorem values_put_subset (key value : Value) (entries : List (Value × Value)) :
    (put key value entries).map (·.2) ⊆ value :: entries.map (·.2) := by
  induction entries with
  | nil => exact fun _ => id
  | cons entry entries ih =>
      rw [put]
      split
      · exact List.cons_subset_cons value (List.subset_cons_self _ _)
      · rw [List.map_cons, List.map_cons]
        refine List.cons_subset.mpr ⟨by simp, fun v member => ?_⟩
        obtain rfl | old := List.mem_cons.mp (ih member)
        · exact List.mem_cons_self
        · simp [old]

/-- Entries one after the other have different keys, and only keys and values that were given. -/
theorem ofPairs_spec (pairs : List (Value × Value)) :
    Different ((ofPairs pairs).map (·.1)) ∧ (ofPairs pairs).map (·.1) ⊆ pairs.map (·.1) ∧
      (ofPairs pairs).map (·.2) ⊆ pairs.map (·.2) := by
  induction pairs using List.reverseRecOn with
  | nil => exact ⟨List.Pairwise.nil, fun _ => id, fun _ => id⟩
  | append_singleton pairs pair ih =>
      obtain ⟨different, keys, values⟩ := ih
      have last : ofPairs (pairs ++ [pair]) = put pair.1 pair.2 (ofPairs pairs) :=
        List.foldl_concat ..
      rw [last, List.map_append, List.map_append]
      refine ⟨different_put different _ _, ?_, fun v member => ?_⟩
      · rw [keys_put]
        split
        · exact List.subset_append_of_subset_left _ keys
        · exact List.append_subset.mpr ⟨List.subset_append_of_subset_left _ keys,
            List.subset_append_right _ _⟩
      · obtain rfl | old := List.mem_cons.mp (values_put_subset _ _ _ member)
        · simp
        · exact List.mem_append_left _ (values old)

mutual
/-- Are binary64 numbers those of the format, and have mappings each key once? -/
def Sound : Value → Prop
  | .float x => x.Canonical
  | .sequence items | .set items => SoundItems items
  | .mapping entries => Different (entries.map (·.1)) ∧ SoundEntries entries
  | _ => True

def SoundItems : List Value → Prop
  | [] => True
  | item :: items => item.Sound ∧ SoundItems items

def SoundEntries : List (Value × Value) → Prop
  | [] => True
  | (key, value) :: entries => key.Sound ∧ value.Sound ∧ SoundEntries entries
end

theorem soundItems_iff {items : List Value} : SoundItems items ↔ ∀ item ∈ items, item.Sound := by
  induction items with
  | nil => simp [SoundItems]
  | cons item items ih => simp [SoundItems, ih]

theorem soundEntries_iff {entries : List (Value × Value)} :
    SoundEntries entries ↔ ∀ entry ∈ entries, entry.1.Sound ∧ entry.2.Sound := by
  induction entries with
  | nil => simp [SoundEntries]
  | cons entry entries ih => simp [SoundEntries, ih, and_assoc]

end Value

/-- A scalar has a value that holds no others. -/
theorem scalar_spec {tag : Tag} {place : Nat} (h : scalarValue? tag t place = some (.ok v)) :
    v.isKey = true ∧ v.Sound := by
  cases tag with
  | null | string =>
      cases h
      exact ⟨rfl, trivial⟩
  | int =>
      obtain ⟨n, -, rfl⟩ := map_eq_ok.mp (Option.some.inj h)
      exact ⟨rfl, trivial⟩
  | float =>
      obtain ⟨x, read, rfl⟩ := map_eq_ok.mp (Option.some.inj h)
      split
      · exact ⟨rfl, trivial⟩
      · exact ⟨rfl, Number.canonical_float read⟩
  | bool | binary | timestamp =>
      simp only [scalarValue?, Option.some.injEq] at h
      all_goals repeat' split at h
      all_goals cases h
      all_goals exact ⟨rfl, trivial⟩
  | _ => cases h

theorem closed_sound : Closed fun _ v => v.Sound where
  scalar := fun h => (scalar_spec h).2
  cycle := trivial
  sequence := Value.soundItems_iff.mpr
  pairs := fun all => Value.soundItems_iff.mpr fun item member => by
    obtain ⟨key, value, rfl, sound, sound'⟩ := all item member
    exact ⟨sound, sound', trivial⟩
  mapping := fun {_ pairs} all => by
    obtain ⟨different, keys, values⟩ := Value.ofPairs_spec pairs
    refine ⟨different, Value.soundEntries_iff.mpr fun entry member => ?_⟩
    obtain ⟨pair, known, key⟩ := List.mem_map.mp (keys (List.mem_map_of_mem member))
    obtain ⟨pair', known', value⟩ := List.mem_map.mp (values (List.mem_map_of_mem member))
    rw [← key, ← value]
    exact ⟨(all pair known).1, (all pair' known').2⟩
  set := fun {_ pairs} all => by
    refine Value.soundItems_iff.mpr fun item member => ?_
    obtain ⟨pair, known, rfl⟩ := List.mem_map.mp ((Value.ofPairs_spec pairs).2.1 member)
    exact (all pair known).1

end Recast.Yaml
