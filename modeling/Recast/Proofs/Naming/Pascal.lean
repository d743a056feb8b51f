import Recast.Proofs.Naming.TypeName

/-! # Type names of keys

The type name of a key keeps its letters and digits in order, up to case. It is the type name of
itself, as an underscore in front of it is left out and put back.
-/

namespace Recast.Name

open Text

/-! ## Letters and digits -/

theorem flatten_words_go (word t : Text) :
    (words.go word t).flatten = word.reverse ++ t.filter Char.isAlphanum := by
  induction t generalizing word with
  | nil =>
      rw [words.go]
      split
      · rename_i empty
        simp [List.isEmpty_iff.mp empty]
      · simp
  | cons c t ih =>
      rw [words.go]
      split
      · rename_i letter
        rw [ih, List.filter_cons_of_pos letter]
        simp
      · rename_i other
        rw [List.filter_cons_of_neg other]
        split
        · rename_i empty
          rw [ih, List.isEmpty_iff.mp empty]
        · rw [List.flatten_cons, ih]
          simp

theorem flatten_words (t : Text) : (words t).flatten = t.filter Char.isAlphanum :=
  flatten_words_go [] t

theorem toLower_toUpper {c : Char} (h : c.isAlphanum) : c.toUpper.toLower = c.toLower := by
  have ascii := toNat_lt_of_isAlphanum h
  exact of_toNat_lt c ascii (by decide)

/-- Capitalising changes nothing but case. -/
theorem lowerAscii_capitalized {ws : List Text} (solid : ∀ w ∈ ws, ∀ c ∈ w, c.isAlphanum) :
    lowerAscii (ws.map capitalize).flatten = lowerAscii ws.flatten := by
  induction ws with
  | nil => rfl
  | cons w ws ih =>
      rw [List.forall_mem_cons] at solid
      have first : lowerAscii (capitalize w) = lowerAscii w := by
        cases w with
        | nil => rfl
        | cons c w => exact congrArg (· :: _) (toLower_toUpper (solid.1 c List.mem_cons_self))
      have later := ih solid.2
      simp only [lowerAscii, List.map_cons, List.flatten_cons, List.map_append] at first later ⊢
      rw [first, later]

/-- A name without an underscore in front. -/
def unmarked : Text → Text
  | '_' :: rest => rest
  | t => t

theorem lowerAscii_unmarked_pascal {key : Text} (some : ∃ c ∈ key, c.isAlphanum)
    (fallback : Text) :
    lowerAscii (unmarked (pascal fallback key)) = lowerAscii (key.filter Char.isAlphanum) := by
  have solid : ∀ w ∈ words key, ∀ c ∈ w, c.isAlphanum := fun w listed => (solid_words key w listed).2
  have kept := lowerAscii_capitalized solid
  rw [flatten_words] at kept
  rw [← kept]
  unfold pascal
  split
  · rename_i empty
    rw [empty] at kept
    have none : key.filter Char.isAlphanum = [] := by simpa [lowerAscii] using kept.symm
    obtain ⟨c, member, letter⟩ := some
    exact absurd letter (List.filter_eq_nil_iff.mp none c member)
  · rename_i c rest spelled
    have first : c.isAlphanum := by
      apply solid_capitalized solid
      rw [spelled]
      exact List.mem_cons_self
    rw [spelled]
    split
    · rfl
    · have other : c ≠ '_' := by
        rintro rfl
        exact absurd first (by decide)
      rw [unmarked]
      rintro _ same
      exact other (List.cons.inj same).1

/-! ## Names of names -/

theorem words_go_of_solid {word t : Text} (some : word ≠ []) (solid : ∀ c ∈ t, c.isAlphanum) :
    words.go word t = [word.reverse ++ t] := by
  induction t generalizing word with
  | nil => simp [words.go, some]
  | cons c t ih =>
      rw [List.forall_mem_cons] at solid
      rw [words.go, if_pos solid.1, ih (List.cons_ne_nil _ _) solid.2]
      simp

/-- Letters and digits in a row are one word. -/
theorem words_of_solid {c : Char} {rest : Text} (solid : ∀ d ∈ c :: rest, d.isAlphanum) :
    words (c :: rest) = [c :: rest] := by
  rw [List.forall_mem_cons] at solid
  rw [words, words.go, if_pos solid.1]
  exact words_go_of_solid (List.cons_ne_nil _ _) solid.2

/-- Capitals and digits are their own capitals, and a capital is no digit. -/
theorem toUpper_self {c : Char} (h : c.isAlphanum) :
    (c.isUpper → c.toUpper = c ∧ c.isDigit = false) ∧ (c.isDigit → c.toUpper = c) :=
  of_toNat_lt c (toNat_lt_of_isAlphanum h) (by decide)

theorem pascal_of_solid {c : Char} {rest : Text} (solid : ∀ d ∈ c :: rest, d.isAlphanum)
    (same : c.toUpper = c) (fallback : Text) :
    pascal fallback (c :: rest) = if c.isDigit then '_' :: c :: rest else c :: rest := by
  rw [pascal, words_of_solid solid]
  simp only [List.map_cons, List.map_nil, capitalize, same, List.flatten_cons, List.flatten_nil,
    List.append_nil]

/-- A type name is its own type name. -/
theorem pascal_of_isPascal {t : Text} (h : IsPascal t) (fallback : Text) :
    pascal fallback t = t := by
  cases h with
  | @capital c rest upper solid =>
      have letter := isAlphanum_of_isUpper upper
      obtain ⟨same, other⟩ := (toUpper_self letter).1 upper
      rw [pascal_of_solid (List.forall_mem_cons.mpr ⟨letter, solid⟩) same, other]
      rfl
  | @marked c rest digit solid =>
      have letter : c.isAlphanum := by simp [Char.isAlphanum, digit]
      have same := (toUpper_self letter).2 digit
      -- The underscore is no part of a word.
      have bare : pascal fallback ('_' :: c :: rest) = pascal fallback (c :: rest) := rfl
      rw [bare, pascal_of_solid (List.forall_mem_cons.mpr ⟨letter, solid⟩) same, if_pos digit]

/-- The type name of a key is an identifier in Pascal case and so no word in lower case. It has the
letters and digits of the key, when there are any, and it is its own type name. -/
theorem pascal_stable (key : Text) :
    IsPascal (pascal root key) ∧ TypeText.IsWord (pascal root key) ∧
      (∀ word : Text, (∀ c ∈ word, c.isLower) → pascal root key ≠ word) ∧
      ((∃ c ∈ key, c.isAlphanum) → lowerAscii (unmarked (pascal root key)) =
        lowerAscii (key.filter Char.isAlphanum)) ∧
      pascal root (pascal root key) = pascal root key := by
  have form := isPascal_pascal key
  have name := form.isTypeName
  exact ⟨form, name.isWord, fun word small => name.ne_of_isLower small,
    fun some => lowerAscii_unmarked_pascal some root, pascal_of_isPascal form root⟩

/-- A key of four words, the first of which starts with a digit. -/
def roomKey : Text := "2nd größe_ID\n"

theorem pascal_stable_roomKey :
    pascal root roomKey = "_2ndGrEID".toList ∧
      lowerAscii (unmarked (pascal root roomKey)) = "2ndgreid".toList ∧
      pascal root "_2ndGrEID" = "_2ndGrEID".toList := by
  have name : pascal root roomKey = "_2ndGrEID".toList := by decide
  obtain ⟨-, -, -, kept, again⟩ := pascal_stable roomKey
  rw [name] at kept again ⊢
  exact ⟨rfl, kept ⟨'n', by decide⟩, again⟩

end Recast.Name
