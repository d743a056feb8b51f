import Recast.Json.Display

/-! # Settings

What a converter can be told besides its input. Resolving keeps exactly the
settings that a converter has, in its order.
-/

namespace Recast

/-- How a setting is entered. -/
inductive SettingKind where
  | boolean
  | select
  | text
  deriving DecidableEq, Repr

/-- A setting of a converter. -/
structure Setting where
  key : Text
  label : Text
  kind : SettingKind
  default : Json
  deriving Repr

namespace SettingKind

def name : SettingKind → Text
  | .boolean => "boolean"
  | .select => "select"
  | .text => "text"

end SettingKind

namespace Setting

/-- The value of a setting for what was given: a truth value for a boolean one, a text for
    every other, null standing for the default. -/
def coerce (setting : Setting) (given : Json) : Json :=
  match setting.kind, given with
  | .boolean, v => .bool v.truth
  | _, .null => setting.default
  | _, v => .string v.display

/-- The value of each setting; what is not given is taken to be the default. -/
def resolve (settings : List Setting) (given : List (Text × Json)) : List (Text × Json) :=
  Json.ofPairs (settings.map fun setting =>
    (setting.key, setting.coerce ((Json.find? setting.key given).getD setting.default)))

def defaults (settings : List Setting) : List (Text × Json) :=
  Json.ofPairs (settings.map fun setting => (setting.key, setting.default))

end Setting
end Recast
