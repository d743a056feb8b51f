import Recast.Json.Reader
import Recast.Proofs.Outcome

/-! # The ways to read a value

What is read of a text is a value, the items of an array or the members of an object. A
property of all of them is shown once for each way in which the readers go on.
-/

namespace Recast.Json

/-- The cases of an induction over what is read with some fuel and depth at the start of a
text, and what is left: of values, of items and of members. -/
structure ReadCases (constants : Bool) (value : Nat → Nat → Text → Json → Text → Prop)
    (items : Nat → Nat → Text → List Json → Text → Prop)
    (members : Nat → Nat → Text → List (Text × Json) → Text → Prop) : Prop where
  string {fuel depth : Nat} {t s rest : Text} : readString (t.length + 1) t = .ok (s, rest) →
    value (fuel + 1) depth ('"' :: t) (.string s) rest
  emptyArray {fuel depth : Nat} {t rest : Text} : skipSpace t = ']' :: rest →
    value (fuel + 1) (depth + 1) ('[' :: t) (.array []) rest
  array {fuel depth : Nat} {t rest : Text} {vs : List Json} :
    (∀ after, skipSpace t ≠ ']' :: after) → items fuel depth (skipSpace t) vs rest →
      value (fuel + 1) (depth + 1) ('[' :: t) (.array vs) rest
  emptyObject {fuel depth : Nat} {t rest : Text} : skipSpace t = '}' :: rest →
    value (fuel + 1) (depth + 1) ('{' :: t) (.object []) rest
  object {fuel depth : Nat} {t rest : Text} {pairs : List (Text × Json)} :
    (∀ after, skipSpace t ≠ '}' :: after) → members fuel depth (skipSpace t) pairs rest →
      value (fuel + 1) (depth + 1) ('{' :: t) (.object (ofPairs pairs)) rest
  /-- A word or a number. -/
  atom {fuel depth : Nat} {t rest : Text} {v : Json} : (∀ tail, t ≠ '"' :: tail) →
    (∀ tail, t ≠ '[' :: tail) → (∀ tail, t ≠ '{' :: tail) →
      (readWord? constants t).getD (readNumber t) = .ok (v, rest) → value (fuel + 1) depth t v rest
  lastItem {fuel depth : Nat} {t t₁ rest : Text} {v : Json} : value fuel depth t v t₁ →
    skipSpace t₁ = ']' :: rest → items (fuel + 1) depth t [v] rest
  moreItems {fuel depth : Nat} {t t₁ t₂ rest : Text} {v : Json} {vs : List Json} :
    value fuel depth t v t₁ → skipSpace t₁ = ',' :: t₂ → items fuel depth (skipSpace t₂) vs rest →
      items (fuel + 1) depth t (v :: vs) rest
  lastMember {fuel depth : Nat} {t key t₁ t₂ t₃ rest : Text} {v : Json} :
    readString (t.length + 1) t = .ok (key, t₁) → skipSpace t₁ = ':' :: t₂ →
      value fuel depth (skipSpace t₂) v t₃ → skipSpace t₃ = '}' :: rest →
        members (fuel + 1) depth ('"' :: t) [(key, v)] rest
  moreMembers {fuel depth : Nat} {t key t₁ t₂ t₃ t₄ rest : Text} {v : Json}
    {pairs : List (Text × Json)} :
    readString (t.length + 1) t = .ok (key, t₁) → skipSpace t₁ = ':' :: t₂ →
      value fuel depth (skipSpace t₂) v t₃ → skipSpace t₃ = ',' :: t₄ →
        members fuel depth (skipSpace t₄) pairs rest →
          members (fuel + 1) depth ('"' :: t) ((key, v) :: pairs) rest

namespace ReadCases

variable {constants : Bool} {value : Nat → Nat → Text → Json → Text → Prop}
  {items : Nat → Nat → Text → List Json → Text → Prop}
  {members : Nat → Nat → Text → List (Text × Json) → Text → Prop} {fuel depth : Nat}
  {t rest : Text}

theorem value_step (kept : ReadCases constants value items members) {v : Json}
    (ofItems : ∀ {depth t vs rest}, readItems constants fuel depth t = .ok (vs, rest) →
      items fuel depth t vs rest)
    (ofMembers : ∀ {depth t pairs rest}, readMembers constants fuel depth t = .ok (pairs, rest) →
      members fuel depth t pairs rest)
    (h : readValue constants (fuel + 1) depth t = .ok (v, rest)) :
    value (fuel + 1) depth t v rest := by
  rw [readValue.eq_def] at h
  simp only at h
  split at h
  · obtain ⟨⟨s, after⟩, read, same⟩ := bind_eq_ok.mp h
    cases same
    exact kept.string read
  · split at h
    · cases h
    · split at h
      · rename_i closing
        cases h
        exact kept.emptyArray closing
      · rename_i other
        obtain ⟨⟨vs, after⟩, read, same⟩ := bind_eq_ok.mp h
        cases same
        exact kept.array other (ofItems read)
  · split at h
    · cases h
    · split at h
      · rename_i closing
        cases h
        exact kept.emptyObject closing
      · rename_i other
        obtain ⟨⟨pairs, after⟩, read, same⟩ := bind_eq_ok.mp h
        cases same
        exact kept.object other (ofMembers read)
  · rename_i quote bracket brace
    exact kept.atom quote bracket brace h

theorem items_step (kept : ReadCases constants value items members) {vs : List Json}
    (ofValue : ∀ {depth t v rest}, readValue constants fuel depth t = .ok (v, rest) →
      value fuel depth t v rest)
    (ofItems : ∀ {depth t vs rest}, readItems constants fuel depth t = .ok (vs, rest) →
      items fuel depth t vs rest)
    (h : readItems constants (fuel + 1) depth t = .ok (vs, rest)) :
    items (fuel + 1) depth t vs rest := by
  rw [readItems] at h
  obtain ⟨⟨v, after⟩, read, h⟩ := bind_eq_ok.mp h
  simp only at h
  split at h
  · rename_i closing
    cases h
    exact kept.lastItem (ofValue read) closing
  · rename_i comma
    obtain ⟨⟨vs, after⟩, others, same⟩ := bind_eq_ok.mp h
    cases same
    exact kept.moreItems (ofValue read) comma (ofItems others)
  · cases h

theorem members_step (kept : ReadCases constants value items members)
    {pairs : List (Text × Json)}
    (ofValue : ∀ {depth t v rest}, readValue constants fuel depth t = .ok (v, rest) →
      value fuel depth t v rest)
    (ofMembers : ∀ {depth t pairs rest}, readMembers constants fuel depth t = .ok (pairs, rest) →
      members fuel depth t pairs rest)
    (h : readMembers constants (fuel + 1) depth t = .ok (pairs, rest)) :
    members (fuel + 1) depth t pairs rest := by
  rw [readMembers.eq_def] at h
  simp only at h
  split at h
  · obtain ⟨⟨key, after⟩, spelled, h⟩ := bind_eq_ok.mp h
    simp only at h
    split at h
    · rename_i colon
      obtain ⟨⟨v, after⟩, read, h⟩ := bind_eq_ok.mp h
      simp only at h
      split at h
      · rename_i closing
        cases h
        exact kept.lastMember spelled colon (ofValue read) closing
      · rename_i comma
        obtain ⟨⟨pairs, after⟩, others, same⟩ := bind_eq_ok.mp h
        cases same
        exact kept.moreMembers spelled colon (ofValue read) comma (ofMembers others)
      · cases h
    · cases h
  · cases h

/-- What each way to read keeps holds of all that is read. -/
theorem all (kept : ReadCases constants value items members) (fuel : Nat) :
    (∀ {depth t v rest}, readValue constants fuel depth t = .ok (v, rest) →
      value fuel depth t v rest) ∧
    (∀ {depth t vs rest}, readItems constants fuel depth t = .ok (vs, rest) →
      items fuel depth t vs rest) ∧
    ∀ {depth t pairs rest}, readMembers constants fuel depth t = .ok (pairs, rest) →
      members fuel depth t pairs rest := by
  induction fuel with
  | zero => refine ⟨?_, ?_, ?_⟩ <;> intro depth t v rest h <;> cases h
  | succ fuel ih =>
      obtain ⟨ofValue, ofItems, ofMembers⟩ := ih
      exact ⟨kept.value_step ofItems ofMembers, kept.items_step ofValue ofItems,
        kept.members_step ofValue ofMembers⟩

end ReadCases

end Recast.Json
