import Recast.Proofs.Types.Tree

/-! # Operators without parentheses

What a type becomes when nothing groups its combinations: an intersection is taken before a
union, whichever of them was meant to be inside the other. Only a union inside an
intersection is lost that way.
-/

namespace Recast

open TypeTree

/-- A type before its next operand: the members of the union that are complete, and the
operands so far of the intersection that is not. -/
structure Level where
  members : List TypeTree := []
  operands : List TypeTree := []
  deriving Repr

/-- A type up to an operand, after which it may end or go on. -/
structure Reading extends Level where
  last : TypeTree
  deriving Repr

namespace Reading

def factors (r : Reading) : List TypeTree := r.operands ++ [r.last]

def terms (r : Reading) : List TypeTree := r.members ++ [joined .and r.factors]

def close (r : Reading) : TypeTree := joined .or r.terms

def push : Operator → Reading → Level
  | .or, r => ⟨r.terms, []⟩
  | .and, r => ⟨r.members, r.factors⟩

end Reading

namespace TypeTree

mutual
/-- What has been read after a type without parentheses around it. -/
def feed (l : Level) : TypeTree → Reading
  | .keyword word => ⟨l, .keyword word⟩
  | .reference name => ⟨l, .reference name⟩
  | .literal text => ⟨l, .literal text⟩
  | .array item => ⟨l, .array (feed {} item).close⟩
  | .tuple items => ⟨l, .tuple (regroupedAll items)⟩
  | .combination op members => feedAll op l members
  | .record fields => ⟨l, .record (regroupedFields fields)⟩

def feedAll (op : Operator) (l : Level) : List TypeTree → Reading
  | [] => ⟨l, .tuple []⟩
  | [type] => feed l type
  | type :: types => feedAll op ((feed l type).push op) types

def regroupedAll : List TypeTree → List TypeTree
  | [] => []
  | type :: types => (feed {} type).close :: regroupedAll types

def regroupedFields : List (Field TypeTree) → List (Field TypeTree)
  | [] => []
  | ⟨key, type, optional⟩ :: fields =>
    ⟨key, (feed {} type).close, optional⟩ :: regroupedFields fields
end

/-- What a type is read as when only precedence groups it. -/
def regrouped (type : TypeTree) : TypeTree := (feed {} type).close

theorem feedAll_cons_cons (op : Operator) (l : Level) (type next : TypeTree)
    (types : List TypeTree) :
    feedAll op l (type :: next :: types) =
      feedAll op ((feed l type).push op) (next :: types) := by
  rw [feedAll]
  simp

theorem regroupedAll_eq_map (types : List TypeTree) :
    regroupedAll types = types.map regrouped := by
  induction types with
  | nil => rfl
  | cons type types ih => rw [regroupedAll, ih, List.map_cons, regrouped]

theorem regroupedFields_eq_map (fields : List (Field TypeTree)) :
    regroupedFields fields =
      fields.map fun field => ⟨field.key, field.type.regrouped, field.optional⟩ := by
  induction fields with
  | nil => rfl
  | cons field fields ih => rw [regroupedFields, ih, List.map_cons, regrouped]

/-! ## Nothing is lost without unions in intersections -/

/-- Some types come after the operands that are already there. -/
def Extends (l : Level) (r : Reading) (types : List TypeTree) : Prop :=
  r.members = l.members ∧ r.factors = l.operands ++ types

theorem parts_or_of_isUnion {type : TypeTree} (h : type.isUnion = false) :
    parts .or type = [type] := by
  match type, h with
  | .combination .and members, _ => simp [parts]
  | .keyword _, _ | .reference _, _ | .literal _, _ | .array _, _ | .tuple _, _ | .record _, _ => rfl

theorem Extends.terms {l : Level} {r : Reading} {type : TypeTree}
    (h : Extends l r (parts .and type)) (wide : type.wide) (plain : type.isUnion = false)
    (start : l.operands = []) : r.terms = l.members ++ parts .or type := by
  rw [Reading.terms, h.1, h.2, start, List.nil_append, joined_parts wide,
    parts_or_of_isUnion plain]

theorem regrouped_of_terms {type : TypeTree} (wide : Wide type)
    (h : (feed {} type).terms = [] ++ parts .or type.flat) : type.regrouped = type.flat := by
  rw [regrouped, Reading.close, h, List.nil_append, joined_parts (wide_flat wide)]

theorem feedAll_and {types : List TypeTree} (some : types ≠ [])
    (each : ∀ type ∈ types, ∀ l, Extends l (feed l type) (parts .and type.flat)) (l : Level) :
    Extends l (feedAll .and l types) ((types.map flat).flatMap (parts .and)) := by
  induction types generalizing l with
  | nil => exact absurd rfl some
  | cons type types ih =>
      have here := each type List.mem_cons_self l
      cases types with
      | nil => simpa [feedAll] using here
      | cons next types =>
          have later := ih (by simp)
            (fun type member => each type (List.mem_cons_of_mem _ member)) ((feed l type).push .and)
          rw [feedAll_cons_cons, List.map_cons, List.flatMap_cons]
          refine ⟨later.1.trans here.1, later.2.trans ?_⟩
          rw [Reading.push, here.2, List.append_assoc]

theorem feedAll_or {types : List TypeTree} (some : types ≠ [])
    (each : ∀ type ∈ types, ∀ l : Level, l.operands = [] →
      (feed l type).terms = l.members ++ parts .or type.flat) (l : Level)
    (start : l.operands = []) :
    (feedAll .or l types).terms = l.members ++ (types.map flat).flatMap (parts .or) := by
  induction types generalizing l with
  | nil => exact absurd rfl some
  | cons type types ih =>
      have here := each type List.mem_cons_self l start
      cases types with
      | nil => simpa [feedAll] using here
      | cons next types =>
          have later := ih (by simp)
            (fun type member => each type (List.mem_cons_of_mem _ member))
            ((feed l type).push .or) rfl
          rw [feedAll_cons_cons, later, Reading.push, here, List.append_assoc]
          rfl

/-- A type that is taken over whole is one operand more. -/
theorem feed_operand {l : Level} {type : TypeTree} (whole : ∀ op, parts op type.flat = [type.flat])
    (fed : feed l type = ⟨l, type.flat⟩) :
    (type.isUnion = false → Extends l (feed l type) (parts .and type.flat)) ∧
      (l.operands = [] → (feed l type).terms = l.members ++ parts .or type.flat) := by
  rw [fed, whole, whole]
  refine ⟨fun _ => ⟨rfl, rfl⟩, fun start => ?_⟩
  rw [Reading.terms, Reading.factors, start]
  rfl

/-- Operands stand beside the ones before them, and members of a union beside those. -/
theorem feed_flat {type : TypeTree} (wide : Wide type) (layered : Layered type) (l : Level) :
    (type.isUnion = false → Extends l (feed l type) (parts .and type.flat)) ∧
      (l.operands = [] → (feed l type).terms = l.members ++ parts .or type.flat) := by
  induction type generalizing l with
  | keyword | reference | literal => exact feed_operand (fun _ => rfl) rfl
  | array item ih =>
      rw [Wide, everywhere_array] at wide
      rw [Layered, everywhere_array] at layered
      have same := regrouped_of_terms wide.2 ((ih wide.2 layered.2 {}).2 rfl)
      exact feed_operand (fun _ => rfl) (by rw [feed, ← regrouped, same, flat])
  | tuple items ih =>
      rw [Wide, everywhere_tuple] at wide
      rw [Layered, everywhere_tuple] at layered
      have same : items.map regrouped = items.map flat :=
        List.map_congr_left fun item member => regrouped_of_terms (wide.2 item member)
          ((ih item member (wide.2 item member) (layered.2 item member) {}).2 rfl)
      exact feed_operand (fun _ => rfl)
        (by rw [feed, flat, regroupedAll_eq_map, flatAll_eq_map, same])
  | record fields ih =>
      rw [Wide, everywhere_record] at wide
      rw [Layered, everywhere_record] at layered
      have same : regroupedFields fields = flatFields fields := by
        rw [regroupedFields_eq_map, flatFields_eq_map]
        refine List.map_congr_left fun field member => ?_
        rw [regrouped_of_terms (wide.2 field member)
          ((ih field member (wide.2 field member) (layered.2 field member) {}).2 rfl)]
      exact feed_operand (fun _ => rfl) (by rw [feed, flat, same])
  | combination op members ih =>
      have flattened := flat_combination wide
      have kept := wide_flat wide
      rw [Wide, everywhere_combination] at wide
      rw [Layered, everywhere_combination] at layered
      have some : members ≠ [] := by
        rintro rfl
        simp [TypeTree.wide] at wide
      cases op with
      | and =>
          have plain : ∀ member ∈ members, member.isUnion = false := by
            simpa [TypeTree.layered] using layered.1
          have extended : Extends l (feed l (.combination .and members))
              (parts .and (flat (.combination .and members))) := by
            rw [flattened, feed]
            exact feedAll_and some (fun member inside l =>
              (ih member inside (wide.2 member inside) (layered.2 member inside) l).1
                (plain member inside)) l
          exact ⟨fun _ => extended, extended.terms kept (by rw [flattened]; rfl)⟩
      | or =>
          refine ⟨fun plain => absurd plain (by simp [isUnion]), fun start => ?_⟩
          rw [flattened, feed]
          exact feedAll_or some (fun member inside l =>
            (ih member inside (wide.2 member inside) (layered.2 member inside) l).2) l start

/-! ## No union is read inside an intersection -/

theorem layered_joined {op : Operator} {types : List TypeTree}
    (plain : op = .and → ∀ type ∈ types, type.isUnion = false)
    (each : ∀ type ∈ types, Layered type) : Layered (joined op types) := by
  have several : Layered (.combination op types) := by
    rw [Layered, everywhere_combination]
    refine ⟨?_, each⟩
    cases op with
    | or => rfl
    | and => simpa [layered] using plain rfl
  cases types with
  | nil => exact several
  | cons type later =>
      cases later with
      | nil => exact each type (List.mem_singleton_self _)
      | cons next later => exact several

end TypeTree

def Level.Sound (l : Level) : Prop :=
  (∀ type ∈ l.members, Layered type) ∧
    ∀ type ∈ l.operands, Layered type ∧ type.isUnion = false

def Reading.Sound (r : Reading) : Prop :=
  r.toLevel.Sound ∧ Layered r.last ∧ r.last.isUnion = false

theorem Level.sound_empty : Level.Sound {} := by simp [Level.Sound]

namespace Reading

variable {r : Reading}

theorem Sound.factors (h : r.Sound) : ∀ type ∈ r.factors, Layered type ∧ type.isUnion = false := by
  intro type member
  rcases List.mem_append.mp member with before | last
  · exact h.1.2 type before
  · rw [List.mem_singleton.mp last]
    exact h.2

theorem Sound.terms (h : r.Sound) : ∀ type ∈ r.terms, Layered type := by
  intro type member
  rcases List.mem_append.mp member with before | last
  · exact h.1.1 type before
  · rw [List.mem_singleton.mp last]
    exact layered_joined (fun _ type factor => (h.factors type factor).2)
      fun type factor => (h.factors type factor).1

theorem Sound.close (h : r.Sound) : Layered r.close :=
  layered_joined (fun other => nomatch other) h.terms

theorem Sound.push (h : r.Sound) (op : Operator) : (r.push op).Sound := by
  cases op with
  | or => exact ⟨h.terms, by simp [Reading.push]⟩
  | and => exact ⟨h.1.1, h.factors⟩

end Reading

namespace TypeTree

theorem feedAll_sound (op : Operator) {types : List TypeTree}
    (each : ∀ type ∈ types, ∀ l : Level, l.Sound → (feed l type).Sound) {l : Level}
    (h : l.Sound) : (feedAll op l types).Sound := by
  induction types generalizing l with
  | nil => exact ⟨h, by simp [feedAll, layered], rfl⟩
  | cons type types ih =>
      have here := each type List.mem_cons_self l h
      cases types with
      | nil => exact here
      | cons next types =>
          exact ih (fun type member => each type (List.mem_cons_of_mem _ member)) (here.push op)

theorem feed_sound (type : TypeTree) {l : Level} (h : l.Sound) : (feed l type).Sound := by
  induction type generalizing l with
  | keyword | reference | literal => exact ⟨h, by simp [feed, layered], rfl⟩
  | array item ih =>
      exact ⟨h, everywhere_array.mpr ⟨rfl, (ih Level.sound_empty).close⟩, rfl⟩
  | tuple items ih =>
      refine ⟨h, everywhere_tuple.mpr ⟨rfl, ?_⟩, rfl⟩
      rw [regroupedAll_eq_map, List.forall_mem_map]
      exact fun item member => (ih item member Level.sound_empty).close
  | combination op members ih =>
      exact feedAll_sound op (fun member inside l h => ih member inside h) h
  | record fields ih =>
      refine ⟨h, everywhere_record.mpr ⟨rfl, ?_⟩, rfl⟩
      rw [regroupedFields_eq_map, List.forall_mem_map]
      exact fun field member => (ih field member Level.sound_empty).close

/-- Precedence keeps a type exactly when no intersection has a union directly inside. -/
theorem regrouped_eq_flat_iff {type : TypeTree} (wide : Wide type) :
    type.regrouped = type.flat ↔ Layered type := by
  constructor
  · intro same
    have sound := (feed_sound type Level.sound_empty).close
    rw [← regrouped, same] at sound
    exact layered_of_flat wide sound
  · intro layered
    exact regrouped_of_terms wide ((feed_flat wide layered {}).2 rfl)

end TypeTree
end Recast
