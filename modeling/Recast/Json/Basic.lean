import Recast.Number.Binary64
import Recast.Text.Basic

/-! # JSON values

The data that every JSON conversion works on. Integers are exact and kept apart
from binary64 numbers; the members of an object keep their order.
-/

namespace Recast

/-- A JSON value. -/
inductive Json where
  | null
  | bool (b : Bool)
  | int (n : Int)
  | float (x : Binary64)
  | string (s : Text)
  | array (items : List Json)
  | object (members : List (Text × Json))
  deriving Repr, Inhabited

namespace Json

mutual
/-- Are two values the same, numbers of the two kinds never being so? -/
def same : Json → Json → Bool
  | .null, .null => true
  | .bool a, .bool b => a == b
  | .int m, .int n => m == n
  | .float x, .float y => x == y
  | .string s, .string t => s == t
  | .array xs, .array ys => sameItems xs ys
  | .object ms, .object ns => sameMembers ms ns
  | _, _ => false

def sameItems : List Json → List Json → Bool
  | [], [] => true
  | x :: xs, y :: ys => same x y && sameItems xs ys
  | _, _ => false

def sameMembers : List (Text × Json) → List (Text × Json) → Bool
  | [], [] => true
  | (k, x) :: ms, (l, y) :: ns => k == l && same x y && sameMembers ms ns
  | _, _ => false
end

mutual
theorem same_iff : ∀ v w : Json, same v w = true ↔ v = w
  | .null, w => by cases w <;> simp [same]
  | .bool _, w => by cases w <;> simp [same]
  | .int _, w => by cases w <;> simp [same]
  | .float _, w => by cases w <;> simp [same]
  | .string _, w => by cases w <;> simp [same]
  | .array xs, w => by
    cases w with
    | array ys => simp [same, sameItems_iff xs ys]
    | _ => simp [same]
  | .object ms, w => by
    cases w with
    | object ns => simp [same, sameMembers_iff ms ns]
    | _ => simp [same]

theorem sameItems_iff : ∀ xs ys : List Json, sameItems xs ys = true ↔ xs = ys
  | [], ys => by cases ys <;> simp [sameItems]
  | x :: xs, ys => by
    cases ys with
    | nil => simp [sameItems]
    | cons y ys => simp [sameItems, same_iff x y, sameItems_iff xs ys]

theorem sameMembers_iff : ∀ ms ns : List (Text × Json), sameMembers ms ns = true ↔ ms = ns
  | [], ns => by cases ns <;> simp [sameMembers]
  | (k, x) :: ms, ns => by
    cases ns with
    | nil => simp [sameMembers]
    | cons n ns =>
      obtain ⟨l, y⟩ := n
      simp [sameMembers, same_iff x y, sameMembers_iff ms ns, and_assoc]
end

instance : DecidableEq Json := fun v w =>
  decidable_of_iff _ (same_iff v w)

/-- Give `key` a value: a key already there keeps its place and takes the new value, a new
    one goes to the end. -/
def put (key : Text) (value : Json) : List (Text × Json) → List (Text × Json)
  | [] => [(key, value)]
  | (k, v) :: rest => if k = key then (k, value) :: rest else (k, v) :: put key value rest

/-- The members read one after the other, without repeated keys. -/
def ofPairs (pairs : List (Text × Json)) : List (Text × Json) :=
  pairs.foldl (fun members (key, value) => put key value members) []

/-- The value under `key`. -/
def find? (key : Text) (members : List (Text × Json)) : Option Json :=
  members.lookup key

/-- The value under `key`, when this is an object that has it. -/
def get? (key : Text) : Json → Option Json
  | .object members => find? key members
  | _ => none

/-- Null, false, zero and everything empty count as false, all else as true. -/
def truth : Json → Bool
  | .null => false
  | .bool b => b
  | .int n => n != 0
  | .float x => !x.isZero
  | .string s => !s.isEmpty
  | .array items => !items.isEmpty
  | .object members => !members.isEmpty

end Json
end Recast
