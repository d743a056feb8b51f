import Recast.Text.Basic

/-! # Tags

The types that nodes of a document can have. A tag is written in full or with a
handle that stands for its beginning.
-/

namespace Recast.Yaml

/-- The type of a node. -/
inductive Tag where
  | null
  | bool
  | int
  | float
  | timestamp
  | binary
  | string
  | sequence
  | mapping
  | set
  /-- A sequence of mappings with one entry each. -/
  | ordered
  /-- The same, where keys may come again. -/
  | pairs
  /-- The key that takes in the entries of other mappings. -/
  | merge
  /-- The key of a default value. -/
  | value
  /-- A type that no value can be made of. -/
  | unknown
  deriving DecidableEq, Repr

namespace Tag

def commonStart : Text := "tag:yaml.org,2002:"

def common : List (Text × Tag) :=
  [("null", .null), ("bool", .bool), ("int", .int), ("float", .float), ("timestamp", .timestamp),
    ("binary", .binary), ("str", .string), ("seq", .sequence), ("map", .mapping), ("set", .set),
    ("omap", .ordered), ("pairs", .pairs), ("merge", .merge), ("value", .value)]

def ofName (name : Text) : Tag :=
  match Text.after? commonStart name with
  | some rest => (common.lookup rest).getD .unknown
  | none => .unknown

end Tag
end Recast.Yaml
