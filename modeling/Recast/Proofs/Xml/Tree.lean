import Recast.Proofs.Outcome
import Recast.Proofs.Xml.Scalar

/-! # Trees of elements

The elements of a tree with their levels, the names that they may have, and which trees are
converted: those whose elements nest no deeper than allowed and of which no text is an integer
with too many digits.
-/

namespace Recast.Xml

/-! ## Names -/

/-- May a name begin with the character? Every edition of the standard allows fewer characters
outside of ASCII. -/
def startsXmlName (c : Char) : Bool :=
  c.isAlpha || c == '_' || c == ':' || 0x80 ≤ c.toNat

def isXmlName : Text → Bool
  | c :: rest => startsXmlName c && rest.all fun d =>
      startsXmlName d || d.isDigit || d == '-' || d == '.'
  | [] => false

theorem head_isXmlName {t : Text} (named : isXmlName t = true) :
    ∃ c rest, t = c :: rest ∧ startsXmlName c = true := by
  cases t with
  | nil => cases named
  | cons c rest => exact ⟨c, rest, rfl, ((Bool.and_eq_true _ _).mp named).1⟩

namespace Element

/-! ## Levels -/

mutual
/-- The elements of a tree, each with the number of elements around it. -/
def elements : Element → List (Nat × Element)
  | .mk name attributes text children =>
    (0, .mk name attributes text children) :: elementsBelow children

def elementsBelow : List (Element × Text) → List (Nat × Element)
  | [] => []
  | (child, _) :: rest =>
    (child.elements.map fun (level, e) => (level + 1, e)) ++ elementsBelow rest
end

variable {root e : Element} {level depth : Nat}

theorem elementsBelow_eq (children : List (Element × Text)) :
    elementsBelow children = children.flatMap fun (child, _) =>
      child.elements.map fun (level, e) => (level + 1, e) := by
  induction children with
  | nil => rfl
  | cons child rest ih => rw [elementsBelow, ih, List.flatMap_cons]

theorem elements_eq (root : Element) :
    root.elements = (0, root) :: root.children.flatMap fun (child, _) =>
      child.elements.map fun (level, e) => (level + 1, e) := by
  obtain ⟨name, attributes, text, children⟩ := root
  rw [elements, elementsBelow_eq]
  rfl

theorem mem_elements_zero : (0, e) ∈ root.elements ↔ e = root := by
  simp [elements_eq root]

theorem mem_elements_succ :
    (level + 1, e) ∈ root.elements ↔ ∃ child ∈ root.children, (level, e) ∈ child.1.elements := by
  simp [elements_eq root]

/-- The elements of an element in a tree are in the tree. -/
theorem mem_elements_add {inner : Element} {below : Nat} (outside : (level, e) ∈ root.elements)
    (inside : (below, inner) ∈ e.elements) : (level + below, inner) ∈ root.elements := by
  induction level generalizing root with
  | zero =>
      obtain rfl := mem_elements_zero.mp outside
      rwa [Nat.zero_add]
  | succ level ih =>
      obtain ⟨child, listed, deeper⟩ := mem_elements_succ.mp outside
      rw [Nat.add_right_comm]
      exact mem_elements_succ.mpr ⟨child, listed, ih deeper⟩

/-- The names of elements and attributes are names in the sense of the standard. -/
def HasXmlNames (root : Element) : Prop :=
  ∀ x ∈ root.elements, isXmlName x.2.name.base = true ∧
    ∀ attr ∈ x.2.attributes, isXmlName attr.1.base = true

instance (root : Element) : Decidable root.HasXmlNames :=
  inferInstanceAs (Decidable (∀ x ∈ root.elements, _ ∧ _))

theorem HasXmlNames.inside (named : root.HasXmlNames) (inside : (level, e) ∈ root.elements) :
    e.HasXmlNames :=
  fun (below, inner) deeper => named (level + below, inner) (mem_elements_add inside deeper)

/-! ## Trees that are converted -/

/-- No element is nested in more than `depth - 1` others, and no text is an integer with too many
digits. -/
def Fits (depth : Nat) (root : Element) : Prop :=
  ∀ x ∈ root.elements, x.1 < depth ∧ isOverlong x.2.innerText = false

instance (depth : Nat) (root : Element) : Decidable (root.Fits depth) :=
  inferInstanceAs (Decidable (∀ x ∈ root.elements, _ ∧ _))

theorem fits_succ_iff : root.Fits (depth + 1) ↔
    isOverlong root.innerText = false ∧ ∀ child ∈ root.children, child.1.Fits depth := by
  constructor
  · intro fits
    refine ⟨(fits (0, root) (mem_elements_zero.mpr rfl)).2, ?_⟩
    rintro child listed ⟨level, e⟩ inside
    have here := fits (level + 1, e) (mem_elements_succ.mpr ⟨child, listed, inside⟩)
    exact ⟨Nat.lt_of_succ_lt_succ here.1, here.2⟩
  · rintro ⟨short, below⟩ ⟨level, e⟩ inside
    cases level with
    | zero =>
        obtain rfl := mem_elements_zero.mp inside
        exact ⟨Nat.succ_pos depth, short⟩
    | succ level =>
        obtain ⟨child, listed, deeper⟩ := mem_elements_succ.mp inside
        have here := below child listed _ deeper
        exact ⟨Nat.succ_lt_succ here.1, here.2⟩

/-- An element of a tree that fits has as much room left as there are no elements around it. -/
theorem Fits.inside (fits : root.Fits depth) (inside : (level, e) ∈ root.elements) :
    level < depth ∧ e.Fits (depth - level) := by
  refine ⟨(fits _ inside).1, ?_⟩
  rintro ⟨below, inner⟩ deeper
  obtain ⟨room, short⟩ := fits _ (mem_elements_add inside deeper)
  exact ⟨Nat.lt_sub_iff_add_lt'.mpr room, short⟩

theorem childValues_eq_ok {children : List (Element × Text)} {pairs : List (Text × Json)} :
    childValues depth children = .ok pairs ↔
      List.Forall₂ (fun child pair => pair.1 = child.1.name.base ∧
        child.1.toJson depth = .ok pair.2) children pairs := by
  induction children generalizing pairs with
  | nil => simp [childValues, eq_comm]
  | cons child rest ih =>
      obtain ⟨child, after⟩ := child
      simp only [childValues, bind_eq_ok, pure_eq_ok, Except.ok.injEq, ih,
        List.forall₂_cons_left_iff]
      constructor
      · rintro ⟨value, here, pairs, later, rfl⟩
        exact ⟨_, pairs, ⟨rfl, here⟩, later, rfl⟩
      · rintro ⟨⟨_, value⟩, pairs, ⟨rfl, here⟩, later, rfl⟩
        exact ⟨value, here, pairs, later, rfl⟩

theorem exists_childValues_iff {children : List (Element × Text)} :
    (∃ pairs, childValues depth children = .ok pairs) ↔
      ∀ child ∈ children, ∃ v, child.1.toJson depth = .ok v := by
  induction children with
  | nil => simp [childValues]
  | cons child rest ih =>
      obtain ⟨child, after⟩ := child
      simp only [childValues, bind_eq_ok, pure_eq_ok, Except.ok.injEq, List.forall_mem_cons, ← ih]
      constructor
      · rintro ⟨_, value, here, pairs, later, -⟩
        exact ⟨⟨value, here⟩, pairs, later⟩
      · rintro ⟨⟨value, here⟩, pairs, later⟩
        exact ⟨_, value, here, pairs, later, rfl⟩

end Element
end Recast.Xml
