import Recast.Codec.Base64
import Recast.Yaml.Node

/-! # Values of documents

What the nodes of a document stand for: scalars of more types than JSON has, and
mappings whose keys need not be strings. A mapping keeps one entry for each key.
-/

namespace Recast.Yaml

/-- A value of a document. -/
inductive Value where
  | null
  | bool (b : Bool)
  | int (n : Int)
  | float (x : Binary64)
  /-- A NaN that is spelled as a number and not by its name. It equals none but itself, and is
      known by the place of its node. -/
  | ownNan (place : Nat)
  | string (s : Text)
  /-- Octets, which have no JSON form and are not kept. -/
  | octets
  | date (d : Date)
  | instant (i : Instant)
  | sequence (items : List Value)
  | mapping (entries : List (Value × Value))
  /-- The keys of a mapping whose values do not count. -/
  | set (items : List Value)
  /-- A collection inside itself. -/
  | cycle
  deriving Repr, Inhabited

namespace Value

mutual
/-- Are two values the same? Keys may be the same where values are not. -/
def same : Value → Value → Bool
  | .null, .null | .octets, .octets | .cycle, .cycle => true
  | .bool a, .bool b => a == b
  | .int m, .int n => m == n
  | .float x, .float y => x == y
  | .ownNan p, .ownNan q => p == q
  | .string s, .string t => s == t
  | .date d, .date e => d == e
  | .instant i, .instant j => i == j
  | .sequence xs, .sequence ys | .set xs, .set ys => sameItems xs ys
  | .mapping es, .mapping fs => sameEntries es fs
  | _, _ => false

def sameItems : List Value → List Value → Bool
  | [], [] => true
  | x :: xs, y :: ys => same x y && sameItems xs ys
  | _, _ => false

def sameEntries : List (Value × Value) → List (Value × Value) → Bool
  | [], [] => true
  | (k, x) :: es, (l, y) :: fs => same k l && same x y && sameEntries es fs
  | _, _ => false
end

mutual
theorem same_iff : ∀ v w : Value, same v w = true ↔ v = w
  | .null, w | .octets, w | .cycle, w => by cases w <;> simp [same]
  | .bool _, w | .int _, w | .float _, w | .ownNan _, w | .string _, w | .date _, w
  | .instant _, w => by cases w <;> simp [same]
  | .sequence xs, w => by
    cases w with
    | sequence ys => simp [same, sameItems_iff xs ys]
    | _ => simp [same]
  | .mapping es, w => by
    cases w with
    | mapping fs => simp [same, sameEntries_iff es fs]
    | _ => simp [same]
  | .set xs, w => by
    cases w with
    | set ys => simp [same, sameItems_iff xs ys]
    | _ => simp [same]

theorem sameItems_iff : ∀ xs ys : List Value, sameItems xs ys = true ↔ xs = ys
  | [], ys => by cases ys <;> simp [sameItems]
  | x :: xs, ys => by
    cases ys with
    | nil => simp [sameItems]
    | cons y ys => simp [sameItems, same_iff x y, sameItems_iff xs ys]

theorem sameEntries_iff : ∀ es fs : List (Value × Value), sameEntries es fs = true ↔ es = fs
  | [], fs => by cases fs <;> simp [sameEntries]
  | (k, x) :: es, fs => by
    cases fs with
    | nil => simp [sameEntries]
    | cons f fs =>
      obtain ⟨l, y⟩ := f
      simp [sameEntries, same_iff k l, same_iff x y, sameEntries_iff es fs, and_assoc]
end

instance : DecidableEq Value := fun v w =>
  decidable_of_iff _ (same_iff v w)

/-- The number that a value counts as among keys: booleans are zero and one. -/
def number? : Value → Option (Int ⊕ Binary64)
  | .bool b => some (.inl b.toNat)
  | .int n => some (.inl n)
  | .float x => some (match x.toInt? with
    | some n => .inl n
    | none => .inr x)
  | _ => none

/-- Are two values one key? Numbers are compared by what they are worth. -/
def isSameKey (v w : Value) : Bool :=
  match v, w with
  | .null, .null => true
  | .string s, .string t => s == t
  | .octets, .octets => true
  | .date d, .date e => d == e
  | .instant i, .instant j => i.same j
  | .ownNan i, .ownNan j => i == j
  | v, w =>
    match v.number?, w.number? with
    | some m, some n => m == n
    | _, _ => false

def isKey : Value → Bool
  | .sequence _ | .mapping _ | .set _ | .cycle => false
  | _ => true

/-- Give a key a value: a key already there stays and takes the new value. -/
def put (key value : Value) : List (Value × Value) → List (Value × Value)
  | [] => [(key, value)]
  | (k, v) :: rest => if k.isSameKey key then (k, value) :: rest else (k, v) :: put key value rest

/-- The entries one after the other, without repeated keys. -/
def ofPairs (pairs : List (Value × Value)) : List (Value × Value) :=
  pairs.foldl (fun entries (key, value) => put key value entries) []

end Value

/-! ## Scalars -/

/-- The values of the words for booleans. -/
def booleans : List (Text × Bool) :=
  [("yes", true), ("no", false), ("true", true), ("false", false), ("on", true), ("off", false)]

/-- The value of a scalar of a type at a place; nothing when the type is none of scalars. -/
def scalarValue? (tag : Tag) (t : Text) (place : Nat) : Option (Except Error Value) :=
  match tag with
  | .null => some (.ok .null)
  | .string => some (.ok (.string t))
  | .int => some ((Number.integer t).map .int)
  | .float =>
    some ((Number.float t).map fun x =>
      if x = .nan && !Number.isNanName t then .ownNan place else .float x)
  | .bool =>
    let word := Text.lowerAscii t
    some (match booleans.lookup word with
      | some b => .ok (.bool b)
      | none => .error (.notBoolean word))
  | .binary =>
    some (if t.all (·.toNat < 0x80) && Base64.isLoose 0 0 t then .ok .octets else .error .malformed)
  | .timestamp =>
    some (match Timestamp.ofText? t with
      | none => .error .notTimestamp
      | some s => match s.toDate with
        | .ok (.inl d) => .ok (.date d)
        | .ok (.inr i) => .ok (.instant i)
        | .error fault => .error (.date fault))
  | _ => none

namespace Node

def tag? : Node → Option Tag
  | .scalar tag _ _ | .sequence tag _ | .mapping tag _ _ => some tag
  | .cycle => none

def place : Node → Nat
  | .scalar _ _ place | .mapping _ _ place => place
  | .sequence .. | .cycle => 0

/-- The text of a node that stands for a scalar: a mapping does so through the key of its
    default value. `fuel` bounds the nesting. -/
def text? : Nat → Node → Option Text
  | _, .scalar _ t _ => some t
  | fuel + 1, .mapping _ entries _ =>
    match entries.find? fun (key, _) => key.tag? = some .value with
    | some (_, value) => value.text? fuel
    | none => none
  | _, _ => none

/-! ## Merged entries -/

mutual
/-- The entries of a mapping with those that it takes in. Entries taken in come first, so that
    the mapping's own have the last word. -/
def flatten? : List (Node × Node) → Option (List (Node × Node))
  | [] => some []
  | entries => do
    let (merged, own) ← split? entries
    return merged ++ own

/-- The entries that are taken in, and the own ones. -/
def split? : List (Node × Node) → Option (List (Node × Node) × List (Node × Node))
  | [] => some ([], [])
  | (key, value) :: rest => do
    if key.tag? = some .merge then
      let more ← merged? value
      let (merged, own) ← split? rest
      return (more ++ merged, own)
    else
      let (merged, own) ← split? rest
      match key with
      | .scalar .value t place => return (merged, (.scalar .string t place, value) :: own)
      | key => return (merged, (key, value) :: own)

/-- The entries that a mapping, or a sequence of mappings, gives away. -/
def merged? : Node → Option (List (Node × Node))
  | .mapping _ entries _ => do
    let (merged, own) ← split? entries
    return merged ++ own
  | .sequence _ items => mergedAll? items
  | .cycle => some []
  | .scalar .. => none

/-- The entries that the mappings of a sequence give away: the first mapping has the last
    word. -/
def mergedAll? : List Node → Option (List (Node × Node))
  | [] => some []
  | item :: items => do
    let first ← match item with
      | .mapping _ entries _ => do
        let (merged, own) ← split? entries
        return merged ++ own
      | .cycle => some []
      | _ => none
    return (← mergedAll? items) ++ first
end

end Node

/-! ## Collections -/

/-- An error with the number of collections around it, which decides what error of several is
    reported: the outermost, and of those the first. -/
structure Late where
  depth : Nat
  cause : Error

/-- Both of two values. -/
def both {α β : Type} (a : Except Late α) (b : Except Late β) : Except Late (α × β) :=
  match a, b with
  | .ok x, .ok y => .ok (x, y)
  | .error e, .error f => .error (if f.depth < e.depth then f else e)
  | .error e, .ok _ => .error e
  | .ok _, .error f => .error f

/-- All of some values. -/
def allOf {α : Type} : List (Except Late α) → Except Late (List α)
  | [] => .ok []
  | a :: rest => (both a (allOf rest)).map fun (x, xs) => x :: xs

namespace Value

/-- The key and value of an item of an ordered mapping. -/
def soleEntry? : Node → Option (Node × Node)
  | .mapping _ [entry] _ => some entry
  | _ => none

def asKey (depth : Nat) (v : Except Late Value) : Except Late Value :=
  v.bind fun v => if v.isKey then .ok v else .error ⟨depth, .malformed⟩

/-- The entries of a mapping, after those that it merges, read one by one. -/
def readEntries (depth : Nat) (read : Node → Except Late Value) (entries : List (Node × Node)) :
    Except Late (List (Value × Value)) :=
  match Node.flatten? entries with
  | none => .error ⟨depth, .malformed⟩
  | some entries =>
    (allOf (entries.map fun entry => both (asKey depth (read entry.1)) (read entry.2))).map ofPairs

/-- The value of a node inside `depth` collections, in which nodes nest at most `fuel` deep. -/
def ofNode (fuel depth : Nat) (node : Node) : Except Late Value :=
  match fuel with
  | 0 => .error ⟨depth, .tooDeep⟩
  | fuel + 1 =>
    let inner := depth + 1
    let pair (entry : Node × Node) : Except Late (Value × Value) :=
      both (ofNode fuel inner entry.1) (ofNode fuel inner entry.2)
    match node with
    | .cycle => .ok .cycle
    | .sequence .sequence items => (allOf (items.map (ofNode fuel inner))).map .sequence
    | .mapping .mapping es _ => (readEntries inner (ofNode fuel inner) es).map .mapping
    | .mapping .set es _ =>
      (readEntries inner (ofNode fuel inner) es).map fun es => .set (es.map (·.1))
    | .sequence tag items =>
      if tag = .ordered || tag = .pairs then
        (allOf (items.map fun item =>
          match soleEntry? item with
          | some entry => (pair entry).map fun (key, value) => .sequence [key, value]
          | none => .error ⟨inner, .malformed⟩)).map .sequence
      else if tag = .mapping || tag = .set then .error ⟨inner, .malformed⟩
      else .error ⟨depth, .malformed⟩
    | node =>
      match node.tag?.getD .unknown, node.text? (fuel + 1) with
      | .sequence, _ | .mapping, _ | .set, _ | .ordered, _ | .pairs, _ => .error ⟨inner, .malformed⟩
      | tag, some t =>
        ((scalarValue? tag t node.place).getD (.error .malformed)).mapError fun cause => ⟨depth, cause⟩
      | _, none => .error ⟨depth, .malformed⟩

/-- Nodes nest no deeper than this. -/
def maxDepth : Nat := 480

end Value

/-- The value of a text that is one document; a text without any is null. -/
def load (t : Text) : Except Error Value := do
  match ← Node.ofTokens? (← tokensOf t) with
  | none => return .null
  | some node => (Value.ofNode Value.maxDepth 0 node).mapError (·.cause)

end Recast.Yaml
