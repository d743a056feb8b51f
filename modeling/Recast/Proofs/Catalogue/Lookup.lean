import Mathlib.Data.List.Find
import Mathlib.Data.List.Nodup
import Recast.Catalogue.Converter

/-! # Converters by their slugs

No two converters of the catalogue have the same slug, so each of them is found under its own.
-/

namespace Recast.Converter

variable {slug : Text} {converter : Converter}

theorem mem_of_ofSlug? (known : ofSlug? slug = some converter) :
    converter ∈ catalogue ∧ converter.slug = slug := by
  have same := List.find?_some known
  exact ⟨List.mem_of_find?_eq_some known, of_decide_eq_true same⟩

theorem ofSlug?_eq_none_iff :
    ofSlug? slug = none ↔ ∀ converter ∈ catalogue, converter.slug ≠ slug := by
  simp [ofSlug?, List.find?_eq_none]

theorem nodup_slugs : (catalogue.map Converter.slug).Nodup := by
  decide

theorem ofSlug?_slug (listed : converter ∈ catalogue) :
    ofSlug? converter.slug = some converter := by
  cases found : ofSlug? converter.slug with
  | none => exact absurd rfl (ofSlug?_eq_none_iff.mp found converter listed)
  | some other =>
      obtain ⟨listed', same⟩ := mem_of_ofSlug? found
      rw [List.inj_on_of_nodup_map nodup_slugs listed' listed same]

/-- A converter between two formats is not its own reverse, so only the formats count. -/
theorem reverse?_slug (listed : converter ∈ catalogue)
    (apart : converter.source ≠ converter.target) :
    reverse? converter.slug =
      catalogue.find? fun c => c.source = converter.target && c.target = converter.source := by
  have found : reverse? converter.slug = catalogue.find? fun c =>
      c.slug ≠ converter.slug && c.source = converter.target && c.target = converter.source := by
    rw [reverse?, ofSlug?_slug listed]
    rfl
  rw [found]
  apply List.find?_congr
  intro c listed'
  by_cases same : c.slug = converter.slug
  · obtain rfl := List.inj_on_of_nodup_map nodup_slugs listed' listed same
    simp [apart]
  · simp [same]

end Recast.Converter
