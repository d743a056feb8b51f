import Recast.Catalogue.Converter
import Recast.Proofs.Json.Members

/-! # Resolved settings

Resolving gives every setting one value, of the kind that the setting asks for. Each value is
made of what was given for its own setting, and one that fits already is kept, so resolving
twice is resolving once.
-/

namespace Recast.Setting

open Json

/-- A boolean setting takes a truth value, every other one a text. -/
def Fits (setting : Setting) : Json → Prop
  | .bool _ => setting.kind = .boolean
  | .string _ => setting.kind ≠ .boolean
  | _ => False

instance (setting : Setting) (v : Json) : Decidable (setting.Fits v) := by
  unfold Fits
  split <;> infer_instance

/-- The settings have different keys, and their defaults fit. -/
structure WellFormed (settings : List Setting) : Prop where
  distinct : (settings.map Setting.key).Nodup
  fits : ∀ setting ∈ settings, setting.Fits setting.default

/-- Exactly the settings, in their order, each with a value that fits. -/
def Resolved (settings : List Setting) (values : List (Text × Json)) : Prop :=
  List.Forall₂ (fun setting value => value.1 = setting.key ∧ setting.Fits value.2) settings values

theorem wellFormed_settings : ∀ converter ∈ Converter.catalogue, WellFormed converter.settings := by
  have all : ∀ converter ∈ Converter.catalogue, (converter.settings.map Setting.key).Nodup ∧
      ∀ setting ∈ converter.settings, setting.Fits setting.default := by
    decide
  intro converter offered
  exact ⟨(all converter offered).1, (all converter offered).2⟩

/-! ## One setting -/

variable {setting : Setting}

theorem coerce_boolean (boolean : setting.kind = .boolean) (v : Json) :
    setting.coerce v = .bool v.truth := by
  simp only [coerce, boolean]

theorem coerce_other (other : setting.kind ≠ .boolean) (v : Json) :
    setting.coerce v = if v = .null then setting.default else .string v.display := by
  unfold coerce
  split
  · rename_i boolean
    exact absurd boolean other
  · rfl
  · rename_i some _
    exact (if_neg some).symm

theorem fits_coerce (sound : setting.Fits setting.default) (v : Json) :
    setting.Fits (setting.coerce v) := by
  by_cases boolean : setting.kind = .boolean
  · rw [coerce_boolean boolean]
    exact boolean
  · rw [coerce_other boolean]
    split
    · exact sound
    · exact boolean

/-- A value that fits is taken as it is. -/
theorem coerce_of_fits {v : Json} (fits : setting.Fits v) : setting.coerce v = v := by
  cases v with
  | bool b => exact coerce_boolean fits _
  | string s => exact coerce_other fits _
  | null | int | float | array | object => exact fits.elim

/-- What is given for a setting, or else its default. -/
def given (values : List (Text × Json)) (setting : Setting) : Json :=
  (find? setting.key values).getD setting.default

/-! ## All settings -/

variable {settings : List Setting}

theorem resolve_congr {values values' : List (Text × Json)}
    (same : ∀ setting ∈ settings, find? setting.key values' = find? setting.key values) :
    resolve settings values' = resolve settings values := by
  unfold resolve
  congr 1
  apply List.map_congr_left
  intro setting member
  rw [same setting member]

theorem resolve_eq_map (distinct : (settings.map Setting.key).Nodup) (values : List (Text × Json)) :
    resolve settings values =
      settings.map fun setting => (setting.key, setting.coerce (setting.given values)) :=
  ofPairs_of_nodup (by simpa [keys, Function.comp_def] using distinct)

theorem find?_resolve (distinct : (settings.map Setting.key).Nodup) (values : List (Text × Json))
    (member : setting ∈ settings) :
    find? setting.key (resolve settings values) = some (setting.coerce (setting.given values)) := by
  have listed : (setting.key, setting.coerce (setting.given values)) ∈ resolve settings values := by
    rw [resolve_eq_map distinct]
    exact List.mem_map_of_mem member
  exact find?_of_nodup (nodup_ofPairs _) listed

/-- Where nothing is given, all have their defaults. -/
theorem resolve_nil (known : WellFormed settings) : resolve settings [] = defaults settings := by
  unfold resolve defaults
  congr 1
  apply List.map_congr_left
  intro setting member
  exact congrArg (setting.key, ·) (coerce_of_fits (known.fits setting member))

theorem resolved_resolve (known : WellFormed settings) (values : List (Text × Json)) :
    Resolved settings (resolve settings values) := by
  rw [Resolved, resolve_eq_map known.distinct, List.forall₂_map_right_iff, List.forall₂_same]
  intro setting member
  exact ⟨rfl, fits_coerce (known.fits setting member) _⟩

theorem resolve_resolve (known : WellFormed settings) (values : List (Text × Json)) :
    resolve settings (resolve settings values) = resolve settings values := by
  conv_rhs => rw [resolve_eq_map known.distinct]
  rw [resolve_eq_map known.distinct]
  apply List.map_congr_left
  intro setting member
  have fits := fits_coerce (known.fits setting member) (setting.given values)
  rw [given, find?_resolve known.distinct values member, Option.getD_some, coerce_of_fits fits]

/-- Resolved settings are exactly those of the converter, each with a value of its kind. They do
not depend on what is given under other keys, resolving them again changes nothing, and what
fits is kept, a default where nothing is given. -/
theorem resolve_projects (known : WellFormed settings) (values : List (Text × Json)) :
    Resolved settings (resolve settings values) ∧
      (∀ values', (∀ setting ∈ settings, find? setting.key values' = find? setting.key values) →
        resolve settings values' = resolve settings values) ∧
      resolve settings (resolve settings values) = resolve settings values ∧
      ∀ setting ∈ settings, setting.Fits (setting.given values) →
        find? setting.key (resolve settings values) = some (setting.given values) := by
  refine ⟨resolved_resolve known values, fun _ same => resolve_congr same,
    resolve_resolve known values, ?_⟩
  intro setting member fits
  rw [find?_resolve known.distinct values member, coerce_of_fits fits]

def nameSetting : Setting := { key := "name", label := "Name", kind := .text, default := .string "" }

/-- Settings of all three kinds. -/
def exportSettings : List Setting :=
  [{ key := "mode", label := "Mode", kind := .select, default := .string "fast" },
    { key := "on", label := "On", kind := .boolean, default := .bool true }, nameSetting]

/-- A text for the name, a number for the choice and nothing for the box, besides another key. -/
def exportValues : List (Text × Json) :=
  [("name", .string "née"), ("other", .bool true), ("mode", .int 5)]

def exportResolved : List (Text × Json) :=
  [("mode", .string "5"), ("on", .bool true), ("name", .string "née")]

theorem resolve_projects_export :
    WellFormed exportSettings ∧ resolve exportSettings exportValues = exportResolved ∧
      Resolved exportSettings exportResolved ∧
      resolve exportSettings [("mode", .int 5), ("name", .string "née")] = exportResolved ∧
      resolve exportSettings exportResolved = exportResolved ∧
      find? "name" exportResolved = some (.string "née") := by
  have known : WellFormed exportSettings := ⟨by decide, by decide⟩
  have settled : resolve exportSettings exportValues = exportResolved := by decide
  obtain ⟨resolved, same, again, kept⟩ := resolve_projects known exportValues
  rw [settled] at resolved same again kept
  exact ⟨known, settled, resolved, same _ (by decide), again,
    kept nameSetting (by simp [exportSettings]) (by decide)⟩

end Recast.Setting
