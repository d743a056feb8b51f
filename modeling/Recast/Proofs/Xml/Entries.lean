import Recast.Proofs.Xml.Gathering
import Recast.Proofs.Xml.Tree

/-! # The entries of an element

An element with attributes or children becomes an object with an entry for each name of an
attribute, each name of a child, and its text. Children of one name are all kept. Of attributes
that only differ in their namespaces, the last one is kept.
-/

namespace Recast.Xml.Element

open Json

/-- The text of an element has an entry only if there is some. -/
def textKeys (e : Element) : List Text := if e.innerText = [] then [] else ["#text"]

/-- The attributes as members, in their order. -/
def attributePairs (e : Element) : List (Text × Json) :=
  e.attributes.map fun (name, value) => (attributeKey name, .string value)

variable {root e : Element} {depth level : Nat} {key : Text}
  {pairs before members : List (Text × Json)}

/-- What an element with the given values of its children becomes. -/
structure Entries (e : Element) (pairs members : List (Text × Json)) : Prop where
  order : keys members = (keys e.attributePairs).eraseDups ++ (keys pairs).eraseDups ++ e.textKeys
  distinct : (keys members).Nodup
  attributes : ∀ key ∈ keys e.attributePairs,
    find? key members = (valuesOf key e.attributePairs).getLast?
  children : ∀ key ∈ keys pairs, find? key members = some (together (valuesOf key pairs))
  text : e.innerText ≠ [] → ∃ v, scalar e.innerText = .ok v ∧ find? "#text" members = some v

/-! ## Keys of different kinds -/

theorem keys_attributePairs (e : Element) :
    keys e.attributePairs = e.attributes.map fun attr => attributeKey attr.1 := by
  simp [keys, attributePairs]

theorem exists_of_mem_keys_attributePairs (own : key ∈ keys e.attributePairs) :
    ∃ rest, key = '@' :: rest := by
  rw [keys_attributePairs] at own
  obtain ⟨attr, -, rfl⟩ := List.mem_map.mp own
  exact ⟨_, rfl⟩

theorem not_starts_child {c : Char} {rest : Text} (named : e.HasXmlNames)
    (other : startsXmlName c = false) : c :: rest ∉ e.children.map (·.1.name.base) := by
  intro known
  obtain ⟨child, listed, same⟩ := List.mem_map.mp known
  have inside : (0 + 1, child.1) ∈ e.elements :=
    mem_elements_succ.mpr ⟨child, listed, mem_elements_zero.mpr rfl⟩
  obtain ⟨d, tail, split, starts⟩ := head_isXmlName (named _ inside).1
  rw [same, List.cons.injEq] at split
  rw [← split.1, other] at starts
  cases starts

theorem keys_childValues {children : List (Element × Text)}
    (read : childValues depth children = .ok pairs) :
    keys pairs = children.map (·.1.name.base) := by
  have steps := childValues_eq_ok.mp read
  clear read
  induction steps with
  | nil => rfl
  | cons here _ ih => rw [keys, List.map_cons, List.map_cons, here.1, ← ih, keys]

/-- Keys of attributes, of children and of the text are apart. -/
theorem apart_of_hasXmlNames (named : e.HasXmlNames)
    (read : childValues depth e.children = .ok pairs) :
    (∀ key ∈ keys pairs, key ∉ keys e.attributePairs) ∧
      ∀ key ∈ e.textKeys, key ∉ keys e.attributePairs ∧ key ∉ keys pairs := by
  rw [keys_childValues read]
  constructor
  · intro key known own
    obtain ⟨rest, rfl⟩ := exists_of_mem_keys_attributePairs own
    exact not_starts_child named (by decide) known
  · intro key last
    obtain rfl : key = "#text" := by
      unfold textKeys at last
      split at last <;> simp_all
    refine ⟨fun own => ?_, not_starts_child named (by decide)⟩
    obtain ⟨rest, same⟩ := exists_of_mem_keys_attributePairs own
    exact absurd (List.cons.inj same).1 (by decide)

theorem nodup_order (apart : ∀ key ∈ keys pairs, key ∉ keys e.attributePairs)
    (free : ∀ key ∈ e.textKeys, key ∉ keys e.attributePairs ∧ key ∉ keys pairs) :
    ((keys e.attributePairs).eraseDups ++ (keys pairs).eraseDups ++ e.textKeys).Nodup := by
  have last : e.textKeys.Nodup := by
    unfold textKeys
    split <;> simp
  refine (List.Nodup.append (nodup_eraseDups _) (nodup_eraseDups _) ?_).append last ?_
  · intro key first second
    exact apart key (List.mem_eraseDups.mp second) (List.mem_eraseDups.mp first)
  · intro key known text
    simp only [List.mem_append, List.mem_eraseDups] at known
    exact known.elim (free key text).1 (free key text).2

/-! ## Objects -/

/-- The value of an element that is not only a text. -/
theorem toJson_succ (kind : e.attributes ≠ [] ∨ e.children ≠ []) :
    e.toJson (depth + 1) = childValues depth e.children >>= fun pairs =>
      let members := (gather (ofPairs e.attributePairs) pairs).members
      if e.innerText = [] then .ok (.object members)
      else scalar e.innerText >>= fun v => .ok (.object (put "#text" v members)) := by
  obtain ⟨name, attributes, text, children⟩ := e
  have inside : (attributes.isEmpty && children.isEmpty) = false := by
    simpa [Element.attributes, Element.children, ← not_and_or] using kind
  simp only [toJson, inside, Bool.false_eq_true, if_false, List.isEmpty_iff]
  rfl

/-- The text comes last, and nothing else changes. -/
theorem exists_withText (kind : e.attributes ≠ [] ∨ e.children ≠ [])
    (short : isOverlong e.innerText = false) (read : childValues depth e.children = .ok pairs)
    (given : (gather (ofPairs e.attributePairs) pairs).members = before)
    (free : ∀ key ∈ e.textKeys, key ∉ keys before) :
    ∃ members, e.toJson (depth + 1) = .ok (.object members) ∧
      keys members = keys before ++ e.textKeys ∧
      (∀ key ∈ keys before, find? key members = find? key before) ∧
      (e.innerText ≠ [] → ∃ v, scalar e.innerText = .ok v ∧ find? "#text" members = some v) := by
  rw [toJson_succ kind, read, ok_bind, given]
  by_cases silent : e.innerText = []
  · refine ⟨before, if_pos silent, ?_, fun _ _ => rfl, absurd silent⟩
    rw [textKeys, if_pos silent, List.append_nil]
  · obtain ⟨v, value⟩ := exists_scalar_iff.mpr short
    rw [textKeys, if_neg silent, List.forall_mem_singleton] at free
    refine ⟨put "#text" v before, ?_, ?_, ?_, fun _ => ⟨v, value, ?_⟩⟩
    · rw [if_neg silent, value, ok_bind]
    · rw [keys_put, if_neg free, textKeys, if_neg silent]
    · intro key known
      rw [find?_put, if_neg]
      rintro rfl
      exact free known
    · rw [find?_put, if_pos rfl]

/-- An element becomes an object with an entry for each name of an attribute or a child. -/
theorem exists_entries (named : e.HasXmlNames) (kind : e.attributes ≠ [] ∨ e.children ≠ [])
    (short : isOverlong e.innerText = false) (read : childValues depth e.children = .ok pairs) :
    ∃ members, e.toJson (depth + 1) = .ok (.object members) ∧ e.Entries pairs members := by
  obtain ⟨apart, free⟩ := apart_of_hasXmlNames named read
  -- attributes first, then the children under other keys, then the text under a third kind of key
  have own : keys (ofPairs e.attributePairs) = (keys e.attributePairs).eraseDups := keys_ofPairs _
  have gathered : Gathered (ofPairs e.attributePairs) pairs _ :=
    gathered_gather (by simpa [own] using apart)
  have before := gathered.order
  rw [own] at before
  have mem_before : ∀ key, key ∈ keys (gather (ofPairs e.attributePairs) pairs).members ↔
      key ∈ keys e.attributePairs ∨ key ∈ keys pairs := by
    simp [before]
  obtain ⟨members, value, order, kept, text⟩ := exists_withText kind short read rfl
    (by simpa [mem_before] using free)
  refine ⟨members, value, by rw [order, before], ?_, ?_, ?_, text⟩
  · rw [order, before]
    exact nodup_order apart free
  · intro key known
    rw [kept key ((mem_before key).mpr (.inl known)),
      gathered.kept key (by rwa [own, List.mem_eraseDups]), find?_ofPairs]
  · intro key known
    rw [kept key ((mem_before key).mpr (.inr known)), gathered.values key known]

/-! ## Elements in a tree -/

theorem exists_toJson_succ_iff : (∃ v, e.toJson (depth + 1) = .ok v) ↔
    isOverlong e.innerText = false ∧ ∀ child ∈ e.children, ∃ v, child.1.toJson depth = .ok v := by
  by_cases kind : e.attributes ≠ [] ∨ e.children ≠ []
  · rw [toJson_succ kind, ← exists_childValues_iff]
    simp only [bind_eq_ok]
    constructor
    · rintro ⟨v, pairs, read, value⟩
      refine ⟨?_, pairs, read⟩
      by_cases silent : e.innerText = []
      · rw [silent]
        rfl
      · rw [if_neg silent, bind_eq_ok] at value
        obtain ⟨text, spoken, -⟩ := value
        exact exists_scalar_iff.mp ⟨text, spoken⟩
    · rintro ⟨short, pairs, read⟩
      obtain ⟨text, spoken⟩ := exists_scalar_iff.mpr short
      simp only [spoken, ok_bind]
      by_cases silent : e.innerText = []
      · exact ⟨_, pairs, read, if_pos silent⟩
      · exact ⟨_, pairs, read, if_neg silent⟩
  · obtain ⟨name, attributes, text, children⟩ := e
    obtain ⟨rfl, rfl⟩ : attributes = [] ∧ children = [] := by
      simpa [Element.attributes, Element.children] using kind
    simpa [toJson, Element.children] using exists_scalar_iff

/-- A tree is converted exactly when it fits. -/
theorem exists_toJson_iff : (∃ v, root.toJson depth = .ok v) ↔ root.Fits depth := by
  induction depth generalizing root with
  | zero =>
      constructor
      · rintro ⟨v, value⟩
        obtain ⟨name, attributes, text, children⟩ := root
        cases value
      · intro fits
        exact absurd (fits _ (mem_elements_zero.mpr rfl)).1 (Nat.lt_irrefl 0)
  | succ depth ih =>
      rw [exists_toJson_succ_iff, fits_succ_iff]
      simp only [ih]

/-- Every element of a tree that fits is converted, an element with attributes or children to an
object with the entries that belong to it. -/
theorem exists_entries_of_fits (named : root.HasXmlNames) (fits : root.Fits depth)
    (inside : (level, e) ∈ root.elements) (kind : e.attributes ≠ [] ∨ e.children ≠ []) :
    ∃ pairs members, e.toJson (depth - level) = .ok (.object members) ∧
      childValues (depth - level - 1) e.children = .ok pairs ∧ e.Entries pairs members := by
  obtain ⟨room, here⟩ := fits.inside inside
  obtain ⟨left, same⟩ := Nat.exists_eq_add_one.mpr (Nat.sub_pos_of_lt room)
  rw [same] at here ⊢
  obtain ⟨short, below⟩ := fits_succ_iff.mp here
  obtain ⟨pairs, read⟩ := exists_childValues_iff.mpr fun child listed =>
    exists_toJson_iff.mpr (below child listed)
  obtain ⟨members, value, entries⟩ := exists_entries (named.inside inside) kind short read
  exact ⟨pairs, members, value, read, entries⟩

/-- A tree is converted exactly when it fits. Then each element with attributes or children
becomes an object in which every name of a child has the value of that child, or the list of the
values of all children of that name in their order. The keys are those of the attributes, then
those of the children, each where it comes first, then that of the text if there is any. -/
theorem children_kept (named : root.HasXmlNames) (depth : Nat) :
    ((∃ v, root.toJson depth = .ok v) ↔ root.Fits depth) ∧
    (root.Fits depth → ∀ level e, (level, e) ∈ root.elements →
      e.attributes ≠ [] ∨ e.children ≠ [] →
      ∃ pairs members, e.toJson (depth - level) = .ok (.object members) ∧
        List.Forall₂ (fun child pair => pair.1 = child.1.name.base ∧
          child.1.toJson (depth - level - 1) = .ok pair.2) e.children pairs ∧
        e.Entries pairs members) := by
  refine ⟨exists_toJson_iff, fun fits level e inside kind => ?_⟩
  obtain ⟨pairs, members, value, read, entries⟩ := exists_entries_of_fits named fits inside kind
  exact ⟨pairs, members, value, childValues_eq_ok.mp read, entries⟩

/-- Two books with a note between them, an element inside the note, and text in two places. -/
def shelfSample : Element :=
  .mk ⟨[], "shelf"⟩ [(⟨[], "id"⟩, "7")] " top" [
    (.mk ⟨[], "book"⟩ [] "1" [], []),
    (.mk ⟨[], "note"⟩ [] [] [(.mk ⟨[], "by"⟩ [] "Ann" [], [])], " down "),
    (.mk ⟨"urn:used", "book"⟩ [] "true" [], [])]

theorem children_kept_shelfSample : shelfSample.HasXmlNames ∧ shelfSample.Fits 3 ∧
    shelfSample.toJson 3 = .ok (.object [
      ("@_id", .string "7"),
      ("book", .array [.int 1, .bool true]),
      ("note", .object [("by", .string "Ann")]),
      ("#text", .string "topdown")]) ∧
    ∀ level e, (level, e) ∈ shelfSample.elements → e.attributes ≠ [] ∨ e.children ≠ [] →
      ∃ pairs members, e.toJson (3 - level) = .ok (.object members) ∧
        List.Forall₂ (fun child pair => pair.1 = child.1.name.base ∧
          child.1.toJson (3 - level - 1) = .ok pair.2) e.children pairs ∧
        e.Entries pairs members := by
  have named : shelfSample.HasXmlNames := by decide
  have fits : shelfSample.Fits 3 := by decide
  exact ⟨named, fits, rfl, (children_kept named 3).2 fits⟩

/-- The child is an integer with one digit more than are converted. -/
def overlongSample : Element :=
  .mk ⟨[], "a"⟩ [] [] [(.mk ⟨[], "b"⟩ [] (List.replicate 4301 '1') [], [])]

/-- An element inside another, and so on. -/
def nested : Nat → Element
  | 0 => .mk ⟨[], "a"⟩ [] [] []
  | inner + 1 => .mk ⟨[], "a"⟩ [] [] [(nested inner, [])]

theorem mem_nested {outer : Nat} :
    (level, e) ∈ (nested outer).elements ↔ ∃ inner, level + inner = outer ∧ e = nested inner := by
  induction level generalizing outer with
  | zero => simp [mem_elements_zero]
  | succ level ih =>
      cases outer with
      | zero => simp [mem_elements_succ, nested, children]
      | succ outer =>
          simp only [mem_elements_succ, nested, children, List.mem_singleton, exists_eq_left, ih,
            Nat.add_right_comm level 1, Nat.add_right_cancel_iff]

theorem nested_hasXmlNames (outer : Nat) : (nested outer).HasXmlNames := by
  intro ⟨level, e⟩ inside
  obtain ⟨inner, -, rfl⟩ := mem_nested.mp inside
  cases inner with
  | zero | succ => exact ⟨rfl, nofun⟩

/-- Children are lost, with the whole tree, to an integer of too many digits or to the depth. -/
theorem children_lost :
    (overlongSample.HasXmlNames ∧ overlongSample.children ≠ [] ∧
      ∀ depth v, overlongSample.toJson depth ≠ .ok v) ∧
    ∀ depth, (nested (depth + 1)).HasXmlNames ∧ (nested (depth + 1)).children ≠ [] ∧
      ∀ v, (nested (depth + 1)).toJson depth ≠ .ok v := by
  refine ⟨⟨by decide, List.cons_ne_nil _ _, fun depth v value => ?_⟩, fun depth =>
    ⟨nested_hasXmlNames _, List.cons_ne_nil _ _, fun v value => ?_⟩⟩
  · have short := (exists_toJson_iff.mp ⟨v, value⟩ (1, _)
      (mem_elements_succ.mpr ⟨_, List.mem_cons_self, mem_elements_zero.mpr rfl⟩)).2
    have long : isOverlong (mk ⟨[], "b"⟩ [] (List.replicate 4301 '1') []).innerText = true := by
      decide +kernel
    exact absurd short (by rw [long]; decide)
  · have room := (exists_toJson_iff.mp ⟨v, value⟩ (depth + 1, nested 0)
      (mem_nested.mpr ⟨0, rfl, rfl⟩)).1
    exact absurd room (Nat.not_succ_lt_self)

end Recast.Xml.Element
