import Mathlib.Data.List.DropRight
import Recast.Proofs.Text.Cut
import Recast.Text.Blank
import Recast.Text.Word

/-! # Trimming

Trimming drops a run of white space at either end and nothing else, so it adds no
characters. No white space character is part of a word.
-/

namespace Recast.Text

theorem trimLeft_append {blanks : Text} (blank : ∀ c ∈ blanks, isBlank c) (t : Text) :
    trimLeft (blanks ++ t) = trimLeft t :=
  List.dropWhile_append_of_pos blank

theorem trimLeft_cons {c : Char} (solid : isBlank c = false) (t : Text) :
    trimLeft (c :: t) = c :: t :=
  List.dropWhile_cons_of_neg (by simp [solid])

/-- A text is white space followed by the text trimmed on the left. -/
theorem exists_append_trimLeft (t : Text) :
    ∃ blanks : Text, (∀ c ∈ blanks, isBlank c) ∧ t = blanks ++ trimLeft t :=
  ⟨t.takeWhile isBlank, fun _ member => List.mem_takeWhile_imp member,
    List.takeWhile_append_dropWhile.symm⟩

theorem trimRight_concat_of_blank {c : Char} (blank : isBlank c = true) (t : Text) :
    trimRight (t ++ [c]) = trimRight t :=
  List.rdropWhile_concat_pos isBlank t c blank

theorem trimRight_concat_of_solid {c : Char} (solid : isBlank c = false) (t : Text) :
    trimRight (t ++ [c]) = t ++ [c] :=
  List.rdropWhile_concat_neg isBlank t c (by simp [solid])

theorem trimRight_append {blanks : Text} (blank : ∀ c ∈ blanks, isBlank c) (t : Text) :
    trimRight (t ++ blanks) = trimRight t := by
  induction blanks using List.reverseRecOn with
  | nil => simp
  | append_singleton blanks c ih =>
      rw [← List.append_assoc, trimRight_concat_of_blank (blank c (by simp)),
        ih fun d member => blank d (by simp [member])]

/-- A text is the text trimmed on the right followed by white space. -/
theorem exists_trimRight_append (t : Text) :
    ∃ blanks : Text, (∀ c ∈ blanks, isBlank c) ∧ t = trimRight t ++ blanks :=
  ⟨t.rtakeWhile isBlank, fun _ member => List.mem_rtakeWhile_imp member,
    List.rdropWhile_append_rtakeWhile.symm⟩

theorem last_trimRight {t : Text} {c : Char} (h : (trimRight t).getLast? = some c) :
    isBlank c = false := by
  have some : trimRight t ≠ [] := by
    intro empty
    simp [empty] at h
  have last : (trimRight t).getLast some = c := by
    rw [List.getLast?_eq_some_getLast some] at h
    exact Option.some.inj h
  have solid : ¬ isBlank ((trimRight t).getLast some) := List.rdropWhile_last_not isBlank t some
  simpa [last] using solid

/-- A text that is not trimmed on the right keeps what stands in front of it. -/
theorem trimRight_append_kept {t : Text} (some : t ≠ []) (kept : trimRight t = t) (s : Text) :
    trimRight (s ++ t) = s ++ t := by
  rcases List.eq_nil_or_concat t with rfl | ⟨start, c, rfl⟩
  · exact absurd rfl some
  · rw [List.concat_eq_append] at kept ⊢
    have solid : isBlank c = false := by
      apply last_trimRight (t := start ++ [c])
      rw [kept, List.getLast?_concat]
    rw [← List.append_assoc, trimRight_concat_of_solid solid]

/-- Trimming stops at a character that is no white space. -/
theorem trimLeft_append_cons {c : Char} (solid : isBlank c = false) (s t : Text) :
    trimLeft (s ++ c :: t) = trimLeft s ++ c :: t := by
  induction s with
  | nil => exact trimLeft_cons solid t
  | cons d s ih =>
      rw [List.cons_append, trimLeft, trimLeft, List.dropWhile_cons, List.dropWhile_cons]
      split
      · exact ih
      · rfl

theorem trimRight_append_cons {c : Char} (solid : isBlank c = false) (s t : Text) :
    trimRight (s ++ c :: t) = s ++ c :: trimRight t := by
  have mirrored := trimLeft_append_cons solid t.reverse s.reverse
  unfold trimLeft at mirrored
  simp [trimRight, mirrored]

theorem mem_of_mem_trimLeft {t : Text} {c : Char} (member : c ∈ trimLeft t) : c ∈ t :=
  (List.dropWhile_sublist isBlank).mem member

theorem mem_of_mem_trimRight {t : Text} {c : Char} (member : c ∈ trimRight t) : c ∈ t :=
  (List.rdropWhile_prefix isBlank t).mem member

theorem mem_of_mem_trim {t : Text} {c : Char} (member : c ∈ trim t) : c ∈ t :=
  mem_of_mem_trimLeft (mem_of_mem_trimRight member)

theorem last_trim {t : Text} {c : Char} (h : (trim t).getLast? = some c) : isBlank c = false :=
  last_trimRight h

theorem head_trimLeft {t : Text} {c : Char} (h : (trimLeft t).head? = some c) :
    isBlank c = false := by
  obtain ⟨rest, start⟩ := List.head?_eq_some_iff.mp h
  have solid := List.dropWhile_get_zero_not isBlank t
    (show 0 < (trimLeft t).length by simp [start])
  simpa [show t.dropWhile isBlank = c :: rest from start] using solid

theorem head_trim {t : Text} {c : Char} (h : (trim t).head? = some c) : isBlank c = false := by
  obtain ⟨rest, start⟩ := List.head?_eq_some_iff.mp h
  obtain ⟨more, spelled⟩ := List.rdropWhile_prefix isBlank (trimLeft t)
  apply head_trimLeft (t := t)
  rw [← spelled, show List.rdropWhile isBlank (trimLeft t) = c :: rest from start]
  rfl

theorem trimLeft_trim (t : Text) : trimLeft (trim t) = trim t := by
  cases h : trim t with
  | nil => rfl
  | cons c rest => exact trimLeft_cons (head_trim (by rw [h]; rfl)) rest

theorem trim_trim (t : Text) : trim (trim t) = trim t := by
  rw [trim, trimLeft_trim]
  exact List.rdropWhile_idempotent isBlank (trimLeft t)

theorem trim_part (t : Text) : trim t <:+: t := by
  obtain ⟨before, -, left⟩ := exists_append_trimLeft t
  obtain ⟨after, -, right⟩ := exists_trimRight_append (trimLeft t)
  exact ⟨before, after, by rw [List.append_assoc, trim, ← right, ← left]⟩

theorem squeeze_of_blank {blanks : Text} (blank : ∀ c ∈ blanks, isBlank c) : squeeze blanks = [] := by
  refine List.filter_eq_nil_iff.mpr fun c member => ?_
  rw [blank c member]
  decide

theorem squeeze_append (s t : Text) : squeeze (s ++ t) = squeeze s ++ squeeze t :=
  List.filter_append ..

theorem squeeze_trim (t : Text) : squeeze (trim t) = squeeze t := by
  obtain ⟨before, blank, left⟩ := exists_append_trimLeft t
  obtain ⟨after, blank', right⟩ := exists_trimRight_append (trimLeft t)
  have whole : t = before ++ (trim t ++ after) := by rw [trim, ← right, ← left]
  conv_rhs => rw [whole, squeeze_append, squeeze_append, squeeze_of_blank blank,
    squeeze_of_blank blank', List.nil_append, List.append_nil]

/-- The code points of the white space characters. -/
private def blankCodes : List Nat :=
  List.range' 0x09 5 ++ List.range' 0x1C 5 ++ List.range' 0x2000 11
    ++ [0x85, 0xA0, 0x1680, 0x2028, 0x2029, 0x202F, 0x205F, 0x3000]

private theorem mem_blankCodes {c : Char} (blank : isBlank c = true) : c.toNat ∈ blankCodes := by
  simp only [isBlank, Bool.or_eq_true, Bool.and_eq_true, decide_eq_true_eq, beq_iff_eq] at blank
  simp only [blankCodes, List.mem_append, List.mem_range'_1, List.mem_cons, List.not_mem_nil,
    or_false]
  omega

/-- White space ends a word. -/
theorem isWord_of_isBlank {c : Char} (blank : isBlank c = true) : isWord c = false := by
  have none : ∀ n ∈ blankCodes, isWord (Char.ofNat n) = false := by
    set_option maxRecDepth 2000 in decide
  simpa using none c.toNat (mem_blankCodes blank)

theorem isBlank_of_isWord {c : Char} (letter : isWord c = true) : isBlank c = false := by
  cases blank : isBlank c with
  | false => rfl
  | true => simp [isWord_of_isBlank blank] at letter

/-- What holds of all small code points holds of their characters. -/
@[elab_as_elim]
theorem of_toNat_lt {n : Nat} {motive : Char → Prop} (c : Char) (small : c.toNat < n)
    (h : ∀ k < n, motive (Char.ofNat k)) : motive c := by
  have here := h c.toNat small
  rwa [Char.ofNat_toNat] at here

theorem toNat_lt_of_isAlphanum {c : Char} (plain : c.isAlphanum = true) : c.toNat < 0x80 := by
  have below {last : UInt32} (small : last.toNat < 0x80) (h : c.val ≤ last) : c.toNat < 0x80 :=
    Nat.lt_of_le_of_lt (UInt32.le_iff_toNat_le.mp h) small
  rcases (Bool.or_eq_true _ _).mp plain with alpha | digit
  · rcases (Bool.or_eq_true _ _).mp alpha with upper | lower
    · exact below (by decide) (of_decide_eq_true upper).2
    · exact below (by decide) (of_decide_eq_true ((Bool.and_eq_true _ _).mp lower).2)
  · exact below (by decide) (of_decide_eq_true ((Bool.and_eq_true _ _).mp digit).2)

theorem isAlphanum_of_isUpper {c : Char} (upper : c.isUpper = true) : c.isAlphanum = true := by
  have letter : c.isAlpha = true := (Bool.or_eq_true c.isUpper c.isLower).mpr (.inl upper)
  rw [Char.isAlphanum, letter, Bool.true_or]

theorem isWord_of_isAlphanum {c : Char} (plain : c.isAlphanum = true) : isWord c = true := by
  simp [isWord, isAlphanumeric, toNat_lt_of_isAlphanum plain, plain]

theorem isWord_of_isAlpha {c : Char} (alpha : c.isAlpha = true) : isWord c = true :=
  isWord_of_isAlphanum (by simp [Char.isAlphanum, alpha])

/-- What starts with a word is not trimmed on the left. -/
theorem trimLeft_word_append {word : Text} (some : word ≠ []) (letters : ∀ c ∈ word, isWord c)
    (t : Text) : trimLeft (word ++ t) = word ++ t := by
  cases word with
  | nil => exact absurd rfl some
  | cons c word => exact trimLeft_cons (isBlank_of_isWord (letters c List.mem_cons_self)) _

/-- What ends with a word is not trimmed on the right. -/
theorem trimRight_append_word {word : Text} (some : word ≠ []) (letters : ∀ c ∈ word, isWord c)
    (t : Text) : trimRight (t ++ word) = t ++ word := by
  rcases List.eq_nil_or_concat word with rfl | ⟨start, c, rfl⟩
  · exact absurd rfl some
  · rw [List.concat_eq_append, ← List.append_assoc, trimRight_concat_of_solid]
    exact isBlank_of_isWord (letters c (by simp))

end Recast.Text
