import Recast.Proofs.Xml.Entries

/-! # Attributes under one key

The key of an attribute is made of its name without the namespace, so attributes that only differ
in their namespaces share a key. The last one is kept.
-/

namespace Recast.Xml.Element

open Json

variable {root e : Element} {depth level : Nat} {pairs members : List (Text × Json)}

/-- The keys that are made of the names of attributes. -/
def attributeKeys (members : List (Text × Json)) : List Text :=
  (keys members).filter ("@_".toList.isPrefixOf ·)

theorem attributeKey_inj {a b : Name} : attributeKey a = attributeKey b ↔ a.base = b.base :=
  List.append_right_inj _

theorem Entries.attributeKeys_eq (entries : e.Entries pairs members) (named : e.HasXmlNames)
    (read : childValues depth e.children = .ok pairs) :
    attributeKeys members = (keys e.attributePairs).eraseDups := by
  have own : ∀ key ∈ (keys e.attributePairs).eraseDups, "@_".toList.isPrefixOf key = true := by
    intro key known
    rw [List.mem_eraseDups, keys_attributePairs] at known
    obtain ⟨attr, -, rfl⟩ := List.mem_map.mp known
    exact List.isPrefixOf_iff_prefix.mpr (List.prefix_append _ _)
  have others : ∀ key ∈ (keys pairs).eraseDups, ¬ "@_".toList.isPrefixOf key = true := by
    intro key known starts
    rw [List.mem_eraseDups, keys_childValues read] at known
    obtain ⟨rest, rfl⟩ := List.isPrefixOf_iff_prefix.mp starts
    exact not_starts_child named (by decide) known
  have last : ∀ key ∈ e.textKeys, ¬ "@_".toList.isPrefixOf key = true := by
    unfold textKeys
    split <;> decide
  rw [attributeKeys, entries.order, List.filter_append, List.filter_append,
    List.filter_eq_self.mpr own, List.filter_eq_nil_iff.mpr others,
    List.filter_eq_nil_iff.mpr last, List.append_nil, List.append_nil]

theorem valuesOf_attributePairs (e : Element) (name : Name) :
    valuesOf (attributeKey name) e.attributePairs =
      (e.attributes.filter fun attr => attr.1.base = name.base).map fun attr => .string attr.2 := by
  simp [valuesOf, attributePairs, List.filter_map, attributeKey_inj, Function.comp_def]

/-- Of attributes under one key, the last one is kept. -/
theorem Entries.find?_attributeKey (entries : e.Entries pairs members)
    {before after : List (Name × Text)} {name : Name} {value : Text}
    (split : e.attributes = before ++ (name, value) :: after)
    (last : ∀ later ∈ after, later.1.base ≠ name.base) :
    find? (attributeKey name) members = some (.string value) := by
  have known : attributeKey name ∈ keys e.attributePairs := by
    rw [keys_attributePairs, split]
    simp
  have behind : after.filter (fun attr => attr.1.base = name.base) = [] := by
    simpa using last
  rw [entries.attributes _ known, valuesOf_attributePairs, split, List.filter_append,
    List.filter_cons_of_pos (by simp), behind, List.map_append, List.map_cons, List.map_nil,
    List.getLast?_concat]

/-- The keys that are made of attributes are the different ones in the order of the attributes,
and each has the value of the last attribute that it is made of. Nothing is lost exactly when no
two attributes differ only in their namespaces. -/
theorem attributes_kept_iff (named : root.HasXmlNames) (fits : root.Fits depth)
    (inside : (level, e) ∈ root.elements) (kind : e.attributes ≠ [] ∨ e.children ≠ []) :
    ∃ members, e.toJson (depth - level) = .ok (.object members) ∧
      attributeKeys members = (e.attributes.map fun attr => attributeKey attr.1).eraseDups ∧
      (∀ before name value after, e.attributes = before ++ (name, value) :: after →
        (∀ later ∈ after, later.1.base ≠ name.base) →
        find? (attributeKey name) members = some (.string value)) ∧
      (((attributeKeys members).length = e.attributes.length ∧
        ∀ attr ∈ e.attributes, find? (attributeKey attr.1) members = some (.string attr.2)) ↔
        (e.attributes.map (·.1.base)).Nodup) := by
  obtain ⟨pairs, members, value, read, entries⟩ := exists_entries_of_fits named fits inside kind
  have found := entries.attributeKeys_eq (named.inside inside) read
  rw [keys_attributePairs] at found
  have same : (e.attributes.map fun attr => attributeKey attr.1).Nodup ↔
      (e.attributes.map (·.1.base)).Nodup := by
    have joined : (e.attributes.map fun attr => attributeKey attr.1) =
        (e.attributes.map (·.1.base)).map ("@_".toList ++ ·) := by
      rw [List.map_map]
      rfl
    rw [joined, List.nodup_map_iff (List.append_right_injective _)]
  refine ⟨members, value, found, fun _ _ _ _ split last => entries.find?_attributeKey split last,
    ?_⟩
  constructor
  · intro ⟨full, _⟩
    rw [← same, ← length_eraseDups_eq_iff, ← found, full, List.length_map]
  · intro distinct
    constructor
    · rw [found, length_eraseDups_eq_iff.mpr (same.mpr distinct), List.length_map]
    · intro attr listed
      obtain ⟨before, after, split⟩ := List.append_of_mem listed
      rw [split, List.map_append, List.map_cons] at distinct
      have behind := (List.nodup_cons.mp distinct.of_append_right).1
      refine entries.find?_attributeKey split ?_
      intro later known equal
      exact behind (List.mem_map.mpr ⟨later, known, equal⟩)

/-- Two attributes with the same local name and one without a namespace inside a child. -/
def linkSample : Element :=
  .mk ⟨[], "a"⟩ [(⟨[], "href"⟩, "1"), (⟨"u", "href"⟩, "2")] [] [
    (.mk ⟨[], "b"⟩ [(⟨[], "id"⟩, "3"), (⟨"u", "title"⟩, "4")] "x" [], [])]

theorem attributes_kept_iff_linkSample : linkSample.HasXmlNames ∧ linkSample.Fits 2 ∧
    ∀ x ∈ linkSample.elements, ∃ members, x.2.toJson (2 - x.1) = .ok (.object members) ∧
      (((attributeKeys members).length = x.2.attributes.length ∧
        ∀ attr ∈ x.2.attributes, find? (attributeKey attr.1) members = some (.string attr.2)) ↔
        (x.2.attributes.map (·.1.base)).Nodup) := by
  have named : linkSample.HasXmlNames := by decide
  have fits : linkSample.Fits 2 := by decide
  refine ⟨named, fits, fun x inside => ?_⟩
  have kind : ∀ x ∈ linkSample.elements, x.2.attributes ≠ [] := by decide
  obtain ⟨members, value, -, -, kept⟩ :=
    attributes_kept_iff named fits inside (.inl (kind x inside))
  exact ⟨members, value, kept⟩

/-- One of two attributes is lost, although their names differ. -/
theorem attribute_lost :
    (ofText? "<a xmlns:x=\"u\" href=\"1\" x:href=\"2\"/>").map attributes =
      some ([(⟨[], "href"⟩, "1"), (⟨"u", "href"⟩, "2")] : List (Name × Text)) ∧
    Xml.toJson "<a xmlns:x=\"u\" href=\"1\" x:href=\"2\"/>" =
      .ok (.object [("a", .object [("@_href", .string "2")])]) := by
  constructor <;> decide +kernel

end Recast.Xml.Element
