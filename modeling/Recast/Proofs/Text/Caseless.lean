import Recast.Proofs.Text.Blank
import Recast.Text.Caseless

/-! # Folding

Folding takes a character to its small ASCII letter. It differs from that only for four letters
that are not ASCII, and it makes no word characters of other signs.
-/

namespace Recast.Text

theorem fold_cases (c : Char) :
    fold c = c.toLower ∨
      (c ∈ ['\u212A', '\u017F', '\u0130', '\u0131'] ∧ fold c ∈ ['k', 's', 'i']) := by
  unfold fold
  split <;> simp

theorem toLower_of_large {c : Char} (large : 0x80 ≤ c.toNat) : c.toLower = c := by
  have out : ¬ (c.val ≥ 'A'.val ∧ c.val ≤ 'Z'.val) := by
    rintro ⟨-, most⟩
    have small : c.toNat ≤ 90 := UInt32.le_iff_toNat_le.mp most
    omega
  exact dif_neg out

/-- A character that is not ASCII folds to itself or is one of four letters. -/
theorem fold_of_large {c : Char} (large : 0x80 ≤ c.toNat) :
    fold c = c ∨ (c ∈ ['\u212A', '\u017F', '\u0130', '\u0131'] ∧ fold c ∈ ['k', 's', 'i']) :=
  (fold_cases c).imp_left fun same => same.trans (toLower_of_large large)

theorem isWord_of_fold {c : Char} (letter : isWord (fold c) = true) : isWord c = true := by
  rcases Nat.lt_or_ge c.toNat 0x80 with small | large
  · have ascii : ∀ k < 0x80, isWord (fold (Char.ofNat k)) = true →
        isWord (Char.ofNat k) = true := by
      decide
    exact of_toNat_lt c small ascii letter
  · rcases fold_of_large large with same | ⟨special, -⟩
    · rwa [same] at letter
    · have all : ∀ d ∈ ['\u212A', '\u017F', '\u0130', '\u0131'], isWord d = true := by
        set_option maxRecDepth 2000 in decide
      exact all c special

/-- Folding keeps words and what parts them. -/
theorem isWord_fold (c : Char) : isWord (fold c) = isWord c := by
  rw [Bool.eq_iff_iff]
  refine ⟨isWord_of_fold, fun letter => ?_⟩
  rcases Nat.lt_or_ge c.toNat 0x80 with small | large
  · have ascii : ∀ k < 0x80, isWord (Char.ofNat k) = true →
        isWord (fold (Char.ofNat k)) = true := by
      decide
    exact of_toNat_lt c small ascii letter
  · rcases fold_of_large large with same | ⟨-, plain⟩
    · rwa [same]
    · have all : ∀ d ∈ ['k', 's', 'i'], isWord d = true := by decide
      exact all (fold c) plain

theorem fold_of_not_isWord {c : Char} (solid : isWord c = false) : fold c = c := by
  rcases Nat.lt_or_ge c.toNat 0x80 with small | large
  · have ascii : ∀ k < 0x80, isWord (Char.ofNat k) = false →
        fold (Char.ofNat k) = Char.ofNat k := by
      decide
    exact of_toNat_lt c small ascii solid
  · rcases fold_of_large large with same | ⟨-, plain⟩
    · exact same
    · have all : ∀ d ∈ ['k', 's', 'i'], isWord d = true := by decide
      rw [← isWord_fold, all (fold c) plain] at solid
      cases solid

/-- Only a sign itself folds to it. -/
theorem fold_eq_iff {c sign : Char} (solid : isWord sign = false) : fold c = sign ↔ c = sign := by
  constructor
  · rintro rfl
    rw [isWord_fold] at solid
    exact (fold_of_not_isWord solid).symm
  · rintro rfl
    exact fold_of_not_isWord solid

theorem fold_eq_equals {c : Char} : fold c = '=' ↔ c = '=' :=
  fold_eq_iff (by decide)

/-- What is compared without case is a start that folds to the given text. -/
theorem afterCaseless?_eq_some {start t rest : Text} :
    afterCaseless? start t = some rest ↔ ∃ word, t = word ++ rest ∧ word.map fold = start := by
  induction start generalizing t with
  | nil => simp [afterCaseless?, eq_comm]
  | cons s start ih =>
      cases t with
      | nil => simp [afterCaseless?]
      | cons c t =>
          rw [afterCaseless?]
          split
          · rename_i same
            rw [ih]
            constructor
            · rintro ⟨word, rfl, rfl⟩
              exact ⟨c :: word, rfl, by rw [List.map_cons, same]⟩
            · rintro ⟨word, spelled, folded⟩
              cases word with
              | nil => cases folded
              | cons d word =>
                  obtain ⟨rfl, rfl⟩ := List.cons.inj spelled
                  exact ⟨word, rfl, (List.cons.inj folded).2⟩
          · rename_i other
            simp only [reduceCtorEq, false_iff]
            rintro ⟨word, spelled, folded⟩
            cases word with
            | nil => cases folded
            | cons d word =>
                obtain ⟨rfl, -⟩ := List.cons.inj spelled
                exact other (List.cons.inj folded).1

/-! ## Lower case -/

theorem fold_of_toLower {c : Char} (ascii : c.toLower.toNat < 0x80) : fold c = c.toLower := by
  rcases fold_cases c with same | ⟨special, -⟩
  · exact same
  · have large : ∀ d ∈ ['\u212A', '\u017F', '\u0130', '\u0131'], ¬ d.toLower.toNat < 0x80 := by
      decide
    exact absurd ascii (large c special)

theorem toLower_of_fold {c : Char} (plain : fold c ∉ ['k', 's', 'i']) : c.toLower = fold c := by
  rcases fold_cases c with same | ⟨-, letter⟩
  · exact same.symm
  · exact absurd letter plain

/-- What is a text in lower case folds to it. -/
theorem map_fold_of_map_toLower {word start : Text} (ascii : ∀ c ∈ start, c.toNat < 0x80)
    (lower : word.map Char.toLower = start) : word.map fold = start := by
  rw [← lower]
  refine List.map_congr_left fun c member => fold_of_toLower (ascii _ ?_)
  rw [← lower]
  exact List.mem_map_of_mem member

/-- What folds to a text is that text in lower case, unless another letter folds to one of its
letters. -/
theorem map_toLower_of_map_fold {word start : Text} (plain : ∀ c ∈ start, c ∉ ['k', 's', 'i'])
    (folded : word.map fold = start) : word.map Char.toLower = start := by
  rw [← folded]
  refine List.map_congr_left fun c member => toLower_of_fold (plain _ ?_)
  rw [← folded]
  exact List.mem_map_of_mem member

end Recast.Text
