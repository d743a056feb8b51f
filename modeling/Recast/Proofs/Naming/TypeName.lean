import Recast.Proofs.Number.Shortest
import Recast.Proofs.Text.Blank
import Recast.Proofs.Types.Reader

/-! # The form of type names

A type name is made of the words of a key, so it is an identifier, and as it starts in upper
case or with an underscore it is none of the keywords.
-/

namespace Recast

open TypeText

/-- A letter in upper case or an underscore, and letters and digits after it. -/
def IsTypeName (t : Text) : Prop :=
  ∃ c rest, t = c :: rest ∧ (c.isUpper ∨ c = '_') ∧ ∀ d ∈ rest, d.isAlphanum

/-- A letter in upper case, or an underscore and a digit, and letters and digits after it. -/
inductive IsPascal : Text → Prop
  | capital {c : Char} {rest : Text} (upper : c.isUpper) (solid : ∀ d ∈ rest, d.isAlphanum) :
      IsPascal (c :: rest)
  | marked {c : Char} {rest : Text} (digit : c.isDigit) (solid : ∀ d ∈ rest, d.isAlphanum) :
      IsPascal ('_' :: c :: rest)

theorem IsPascal.isTypeName {t : Text} (h : IsPascal t) : IsTypeName t := by
  cases h with
  | capital upper solid => exact ⟨_, _, rfl, .inl upper, solid⟩
  | marked digit solid =>
      refine ⟨_, _, rfl, .inr rfl, List.forall_mem_cons.mpr ⟨?_, solid⟩⟩
      rw [Char.isAlphanum, digit, Bool.or_true]

theorem IsTypeName.isWord {t : Text} (h : IsTypeName t) : IsWord t := by
  obtain ⟨c, rest, rfl, first, all⟩ := h
  refine ⟨c, rest, rfl, ?_, ?_⟩
  · rcases first with upper | rfl
    · have letter : c.isAlpha = true := (Bool.or_eq_true c.isUpper c.isLower).mpr (.inl upper)
      simp [Name.startsIdentifier, letter]
    · rfl
  · rw [List.all_eq_true]
    intro d member
    have := all d member
    rw [Char.isAlphanum, Bool.or_eq_true] at this
    rcases this with letter | digit
    · simp [Name.inIdentifier, Name.startsIdentifier, letter]
    · simp [Name.inIdentifier, digit]

theorem IsTypeName.ne_of_isLower {t word : Text} (h : IsTypeName t)
    (small : ∀ c ∈ word, c.isLower) : t ≠ word := by
  rintro rfl
  obtain ⟨c, rest, rfl, first, -⟩ := h
  have lower := small c List.mem_cons_self
  rcases first with upper | rfl
  · have letter := Text.isAlphanum_of_isUpper upper
    have apart : c.isUpper → ¬ c.isLower :=
      Text.of_toNat_lt c (Text.toNat_lt_of_isAlphanum letter) (by decide)
    exact apart upper lower
  · exact absurd lower (by decide)

/-- Keywords are in lower case. -/
theorem IsTypeName.not_mem_keywords {t : Text} (h : IsTypeName t) : t ∉ keywords := by
  have small : ∀ word ∈ keywords, ∀ c ∈ word, c.isLower := by decide
  intro member
  exact h.ne_of_isLower (small t member) rfl

namespace Name

theorem solid_words_go {t word : Text} (some : ∀ c ∈ word, c.isAlphanum) :
    ∀ w ∈ words.go word t, w ≠ [] ∧ ∀ c ∈ w, c.isAlphanum := by
  induction t generalizing word with
  | nil =>
      rw [words.go]
      split
      · simp
      · rename_i empty
        have nonempty : word.reverse ≠ [] := by simpa using empty
        simpa using ⟨by simpa using empty, some⟩
  | cons c t ih =>
      rw [words.go]
      split
      · rename_i letter
        exact ih (List.forall_mem_cons.mpr ⟨letter, some⟩)
      · split
        · exact ih (by simp)
        · rename_i empty
          rw [List.forall_mem_cons]
          exact ⟨⟨by simpa using empty, by simpa using some⟩, ih (by simp)⟩

theorem solid_words (t : Text) : ∀ w ∈ words t, w ≠ [] ∧ ∀ c ∈ w, c.isAlphanum :=
  solid_words_go (by simp)

theorem capital_toUpper {c : Char} (h : c.isAlphanum) :
    c.toUpper.isAlphanum ∧ (c.toUpper.isUpper ∨ c.toUpper.isDigit) := by
  have ascii := Text.toNat_lt_of_isAlphanum h
  revert h
  exact Text.of_toNat_lt c ascii (by decide)

theorem isPascal_root : IsPascal root := .capital rfl (by decide)

theorem isTypeName_root : IsTypeName root := isPascal_root.isTypeName

/-- The words of a key, each capitalised, are letters and digits only. -/
theorem solid_capitalized {ws : List Text} (solid : ∀ w ∈ ws, ∀ c ∈ w, c.isAlphanum) :
    ∀ c ∈ (ws.map capitalize).flatten, c.isAlphanum := by
  intro d member
  obtain ⟨piece, inside, member⟩ := List.mem_flatten.mp member
  obtain ⟨w, listed, rfl⟩ := List.mem_map.mp inside
  cases w with
  | nil => cases member
  | cons c w =>
      have all := solid _ listed
      rw [List.forall_mem_cons] at all
      rcases List.mem_cons.mp member with rfl | later
      · exact (capital_toUpper all.1).1
      · exact all.2 d later

theorem isPascal_pascal (key : Text) : IsPascal (pascal root key) := by
  have solid := solid_words key
  unfold pascal
  cases found : words key with
  | nil => exact isPascal_root
  | cons word later =>
      rw [found, List.forall_mem_cons] at solid
      obtain ⟨some, all⟩ := solid.1
      cases word with
      | nil => exact absurd rfl some
      | cons c word =>
          rw [List.forall_mem_cons] at all
          have first := (capital_toUpper all.1).2
          have rest := solid_capitalized fun w listed => (solid.2 w listed).2
          have more : ∀ d ∈ word ++ (later.map capitalize).flatten, d.isAlphanum :=
            List.forall_mem_append.mpr ⟨all.2, rest⟩
          simp only [List.map_cons, capitalize, List.flatten_cons, List.cons_append]
          split
          · rename_i digit
            exact .marked digit more
          · rename_i digit
            exact .capital (first.resolve_right digit) more

theorem isTypeName_pascal (key : Text) : IsTypeName (pascal root key) :=
  (isPascal_pascal key).isTypeName

end Name

theorem IsTypeName.numbered {base : Text} (h : IsTypeName base) (n : Nat) :
    IsTypeName (NamePool.numbered base n) := by
  obtain ⟨c, rest, rfl, first, all⟩ := h
  unfold NamePool.numbered
  split
  · exact ⟨c, rest, rfl, first, all⟩
  · refine ⟨c, rest ++ Text.ofNat n, rfl, first, List.forall_mem_append.mpr ⟨all, ?_⟩⟩
    intro d member
    rw [Char.isAlphanum, Text.digits_ofNat n d member, Bool.or_true]

end Recast
