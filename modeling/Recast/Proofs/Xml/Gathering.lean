import Recast.Proofs.Json.Members
import Recast.Xml.Value

/-! # Gathering values

Values are put into an object one after the other, under keys that may come again and with
others between them. In the end each key has all of its values, in the order in which they
came, and the keys stand in the order in which they came first.
-/

namespace Recast.Xml

open Json

/-- One value alone, several as a list. -/
def together : List Json → Json
  | [v] => v
  | vs => .array vs

section

variable {key : Text} {value : Json} {own pairs : List (Text × Json)} {g : Gathering}

/-- What is gathered when values are put into members that do not have their keys. -/
structure Gathered (own pairs : List (Text × Json)) (g : Gathering) : Prop where
  order : keys g.members = keys own ++ (keys pairs).eraseDups
  kept : ∀ key ∈ keys own, find? key g.members = find? key own
  values : ∀ key ∈ keys pairs, find? key g.members = some (together (valuesOf key pairs))
  lists : ∀ key, key ∈ g.lists ↔ 2 ≤ (valuesOf key pairs).length

theorem Gathered.start (own : List (Text × Json)) : Gathered own [] { members := own } where
  order := by simp [keys]
  kept := fun _ _ => rfl
  values := by simp [keys]
  lists := by simp [valuesOf]

theorem Gathered.find?_eq_none (h : Gathered own pairs g) (apart : key ∉ keys own)
    (new : key ∉ keys pairs) : find? key g.members = none := by
  rw [find?_eq_none_iff, h.order, List.mem_append, List.mem_eraseDups]
  exact not_or.mpr ⟨apart, new⟩

/-- What a key has after one more value does not depend on the way that it was reached by. -/
theorem Gathered.add_eq (h : Gathered own pairs g) (apart : key ∉ keys own) (value : Json) :
    ∃ lists, g.add key value =
        ⟨put key (together (valuesOf key pairs ++ [value])) g.members, lists⟩ ∧
      ∀ k, k ∈ lists ↔ k ∈ g.lists ∨ k = key ∧ valuesOf key pairs ≠ [] := by
  have listed := h.lists key
  by_cases new : key ∉ keys pairs
  · have none := h.find?_eq_none apart new
    rw [← valuesOf_eq_nil_iff] at new
    refine ⟨g.lists, ?_, fun k => by simp [new]⟩
    rw [Gathering.add, none, new]
    rfl
  · have found := h.values key (not_not.mp new)
    rw [← valuesOf_eq_nil_iff] at new
    match given : valuesOf key pairs with
    | [] => exact absurd given new
    | [first] =>
        have single : g.lists.elem key = false := by
          simpa [given] using listed
        rw [given] at found
        refine ⟨key :: g.lists, ?_, fun k => by simp [or_comm]⟩
        rw [Gathering.add, found, single]
        cases first <;> rfl
    | first :: second :: others =>
        have many : g.lists.elem key = true := by
          simpa [given] using listed
        rw [given] at found
        refine ⟨g.lists, ?_, fun k => ?_⟩
        · rw [Gathering.add, found, many]
          rfl
        · rw [iff_self_or]
          rintro ⟨rfl, -⟩
          exact List.elem_iff.mp many

/-- One more value keeps what is gathered. -/
theorem Gathered.add (h : Gathered own pairs g) (apart : key ∉ keys own) (value : Json) :
    Gathered own (pairs ++ [(key, value)]) (g.add key value) := by
  obtain ⟨lists, added, listed⟩ := h.add_eq apart value
  rw [added]
  have longer : keys (pairs ++ [(key, value)]) = keys pairs ++ [key] := by
    simp [keys]
  constructor
  · rw [keys_put, h.order, longer, eraseDups_concat]
    simp only [List.mem_append, apart, false_or, List.mem_eraseDups]
    split
    · rfl
    · rw [List.append_assoc]
  · intro k known
    have other : k ≠ key := by
      rintro rfl
      exact apart known
    rw [find?_put, if_neg other, h.kept k known]
  · intro k known
    rw [find?_put, valuesOf_concat]
    split
    · rename_i same
      rw [same]
    · rename_i other
      rw [longer, List.mem_append, List.mem_singleton] at known
      exact h.values k (known.resolve_right other)
  · intro k
    rw [listed, h.lists, valuesOf_concat]
    split
    · rename_i same
      subst same
      rw [List.length_append, List.length_singleton, ← List.length_pos_iff]
      simp only [true_and]
      omega
    · rename_i other
      simp [other]

theorem gathered_gather (apart : ∀ key ∈ keys pairs, key ∉ keys own) :
    Gathered own pairs (gather own pairs) := by
  induction pairs using List.reverseRecOn with
  | nil => exact .start own
  | append_singleton pairs pair ih =>
      obtain ⟨key, value⟩ := pair
      simp only [keys, List.map_append, List.mem_append] at apart
      have before := ih fun k known => apart k (.inl known)
      have whole := before.add (apart key (.inr (by simp))) value
      rwa [gather, List.foldl_concat]

end

end Recast.Xml
