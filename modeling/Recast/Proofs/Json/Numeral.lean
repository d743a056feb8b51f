import Recast.Json.Printer
import Recast.Proofs.Json.Token
import Recast.Proofs.Number.Nearest

/-! # Numbers as they are written

An integer and a finite number are written as numerals: a sign, a whole part without zeros
in front, a fraction and an exponent. The other values are written as words.
-/

namespace Recast.Json

open Text

/-- Is the text one number as a whole? -/
def isNumeral (t : Text) : Bool :=
  match readWhole (if t.head? = some '-' then t.tail else t) with
  | none => false
  | some (_, rest) => (leftBy readExponent (leftBy readFraction rest)).isEmpty

/-- A lone zero, or digits that start with another one. -/
def IsWhole (t : Text) : Prop := t ≠ [] ∧ Digits t ∧ (t.head? = some '0' → t = ['0'])

/-- Nothing, or a point with digits after it. -/
def IsFraction (t : Text) : Prop := t = [] ∨ ∃ digits, t = '.' :: digits ∧ digits ≠ [] ∧ Digits digits

/-- Nothing, or a mark with a sign and digits after it. -/
def IsExponent (t : Text) : Prop :=
  t = [] ∨ ∃ sign digits, t = 'e' :: (sign ++ digits) ∧ (sign = ['-'] ∨ sign = ['+']) ∧
    digits ≠ [] ∧ Digits digits

inductive Numeral : Text → Prop
  | intro (negative : Bool) {whole fraction exponent : Text} : IsWhole whole →
      IsFraction fraction → IsExponent exponent →
      Numeral (numberSign negative ++ (whole ++ (fraction ++ exponent)))

theorem readWhole_append {whole rest : Text} (h : IsWhole whole) (stop : NoDigit rest) :
    readWhole (whole ++ rest) = some (whole, rest) := by
  obtain ⟨some, all, zero⟩ := h
  cases whole with
  | nil => exact absurd rfl some
  | cons c digits =>
      by_cases first : c = '0'
      · subst first
        rw [zero rfl]
        rfl
      · have taken := takeWhile_digits all stop
        have dropped := dropWhile_digits all stop
        rw [List.cons_append] at taken dropped ⊢
        rw [readWhole.eq_2 _ _ first, if_pos (all c List.mem_cons_self), spanWhile, taken, dropped]

theorem leftBy_fraction {fraction rest : Text} (h : IsFraction fraction) (stop : Stops rest) :
    leftBy readFraction (fraction ++ rest) = rest := by
  rcases h with rfl | ⟨digits, rfl, some, all⟩
  · simp [leftBy, readFraction_of_stops stop]
  · simp [leftBy, readFraction_digits some all stop.1]

theorem leftBy_exponent {exponent : Text} (h : IsExponent exponent) :
    leftBy readExponent exponent = [] := by
  rcases h with rfl | ⟨sign, digits, rfl, known, some, all⟩
  · rfl
  · have read := readExponent_append (.inl rfl) (.inr known) some all
      (show NoDigit [] by simp [NoDigit])
    rw [List.append_nil] at read
    rw [leftBy, read]
    rfl

theorem IsExponent.stops {exponent : Text} (h : IsExponent exponent) : Stops exponent := by
  rcases h with rfl | ⟨sign, digits, rfl, -⟩
  · simp [Stops, NoDigit]
  · simp [Stops, NoDigit]

theorem IsFraction.noDigit {fraction rest : Text} (h : IsFraction fraction) (stop : NoDigit rest) :
    NoDigit (fraction ++ rest) := by
  rcases h with rfl | ⟨digits, rfl, -⟩
  · exact stop
  · simp [NoDigit]

theorem IsWhole.first {whole : Text} (h : IsWhole whole) :
    ∃ c rest, whole = c :: rest ∧ c.isDigit := by
  obtain ⟨some, all, -⟩ := h
  cases whole with
  | nil => exact absurd rfl some
  | cons c rest => exact ⟨c, rest, rfl, all c List.mem_cons_self⟩

namespace Numeral

theorem isNumeral {t : Text} (h : Numeral t) : isNumeral t = true := by
  cases h with
  | intro negative whole fraction exponent =>
      rename_i w f e
      have unsigned : (if (numberSign negative ++ (w ++ (f ++ e))).head? = some '-' then
          (numberSign negative ++ (w ++ (f ++ e))).tail
          else numberSign negative ++ (w ++ (f ++ e))) = w ++ (f ++ e) := by
        cases negative with
        | true => rfl
        | false =>
            obtain ⟨c, rest, rfl, digit⟩ := whole.first
            have other : c ≠ '-' := by rintro rfl; exact absurd digit (by decide)
            simp [numberSign, other]
      have stops := exponent.stops
      rw [Json.isNumeral, unsigned, readWhole_append whole (fraction.noDigit stops.1)]
      simp only
      rw [leftBy_fraction fraction stops, leftBy_exponent exponent, List.isEmpty_nil]

/-- A numeral is a run of characters of words and numbers, the first a digit or a sign. -/
theorem atomic {t : Text} (h : Numeral t) : ∀ c ∈ t, isAtomic c := by
  cases h with
  | intro negative whole fraction exponent =>
      have digits {t : Text} (all : Digits t) : ∀ c ∈ t, isAtomic c :=
        fun c member => isAtomic_of_isDigit (all c member)
      refine List.forall_mem_append.mpr ⟨by cases negative <;> decide,
        List.forall_mem_append.mpr ⟨digits whole.2.1, List.forall_mem_append.mpr ⟨?_, ?_⟩⟩⟩
      · rcases fraction with rfl | ⟨tail, rfl, -, all⟩
        · simp
        · exact List.forall_mem_cons.mpr ⟨by decide, digits all⟩
      · rcases exponent with rfl | ⟨sign, tail, rfl, known, -, all⟩
        · simp
        · refine List.forall_mem_cons.mpr ⟨by decide, List.forall_mem_append.mpr ⟨?_, digits all⟩⟩
          rcases known with rfl | rfl <;> decide

theorem first {t : Text} (h : Numeral t) : ∃ c rest, t = c :: rest ∧ (c.isDigit ∨ c = '-') := by
  cases h with
  | intro negative whole fraction exponent =>
      cases negative with
      | true => exact ⟨_, _, rfl, .inr rfl⟩
      | false =>
          obtain ⟨c, rest, rfl, digit⟩ := whole.first
          exact ⟨c, _, rfl, .inl digit⟩

end Numeral

/-! ## Integers and finite numbers -/

theorem isWhole_ofNat (n : Nat) : IsWhole (ofNat n) := by
  refine ⟨Nat.toDigits_ne_nil, digits_ofNat n, fun zero => ?_⟩
  cases n with
  | zero => rfl
  | succ n =>
      obtain ⟨c, rest, spelled, first⟩ := exists_ofNat_cons (Nat.succ_pos n)
      rw [spelled] at zero
      exact absurd (Option.some.inj zero) first

theorem numeral_ofInt (n : Int) : Numeral (ofInt n) := by
  have plain (negative : Bool) (n : Nat) : Numeral (numberSign negative ++ ofNat n) := by
    have := Numeral.intro negative (isWhole_ofNat n) (.inl rfl) (.inl rfl)
    rwa [List.append_nil, List.append_nil] at this
  cases n with
  | ofNat n => exact plain false n
  | negSucc n => exact plain true (n + 1)

theorem isExponent_exponentText (power : Int) : IsExponent (Binary64.exponentText power) := by
  refine .inr ⟨[if power < 0 then '-' else '+'], _, rfl, ?_, ?_, digits_ofNatPadded 2 _⟩
  · split <;> simp
  · simp [ofNat]

/-- The power of ten that an exponent gives. -/
def exponentPower (exponent : Text) : Int := ((readExponent exponent).map (·.1)).getD 0

theorem exponentPower_exponentText (power : Int) :
    exponentPower (Binary64.exponentText power) = power := by
  have value : Nat.ofDigitChars 10 (ofNatPadded 2 power.natAbs) 0 = power.natAbs := by
    rw [ofNatPadded, Nat.ofDigitChars_append, Nat.ofDigitChars_replicate_zero, Nat.mul_zero]
    exact Nat.ofDigitChars_ten_toDigits
  have read := readExponent_append (.inl rfl)
    (show [if power < 0 then '-' else '+'] = [] ∨ _ = ['-'] ∨ _ = ['+'] by split <;> simp)
    (show ofNatPadded 2 power.natAbs ≠ [] by simp [ofNatPadded, ofNat])
    (digits_ofNatPadded 2 power.natAbs) (show NoDigit [] by simp [NoDigit])
  rw [List.append_nil, value] at read
  have spelled : Binary64.exponentText power =
      'e' :: ([if power < 0 then '-' else '+'] ++ ofNatPadded 2 power.natAbs) := rfl
  rw [exponentPower, spelled, read]
  by_cases below : power < 0
  · rw [if_pos below]
    show -(power.natAbs : Int) = power
    omega
  · rw [if_neg below]
    show (power.natAbs : Int) = power
    omega

/-- What the parts of a number are worth. -/
def partsWorth (whole fraction exponent : Text) : ℚ :=
  Binary64.worth (whole ++ fraction.tail) (exponentPower exponent - fraction.tail.length)

/-- The value that the parts of a number are read as. -/
def partsValue (negative : Bool) (whole fraction exponent : Text) : Binary64 :=
  .ofDecimal negative (Nat.ofDigitChars 10 (whole ++ fraction.tail) 0)
    (exponentPower exponent - fraction.tail.length)

/-- A text lays digits out, the first at `10 ^ power`, in the parts of a number that is no integer.
    They keep what they are worth. -/
structure Laid (digits : Text) (power : Int) (t whole fraction exponent : Text) : Prop where
  spelled : t = whole ++ (fraction ++ exponent)
  isWhole : IsWhole whole
  isFraction : IsFraction fraction
  isExponent : IsExponent exponent
  noInteger : fraction ≠ [] ∨ exponent ≠ []
  worth : partsWorth whole fraction exponent = Binary64.worth digits (power + 1 - digits.length)

section Layout

variable {c : Char} {rest more : Text} {power : Int} {k : Nat}

theorem isWhole_cons (first : c ≠ '0') (digit : c.isDigit = true) (digits : Digits more) :
    IsWhole (c :: more) :=
  ⟨by simp, List.forall_mem_cons.mpr ⟨digit, digits⟩,
    fun zero => absurd (Option.some.inj zero) first⟩

theorem exists_laid_exponent (first : c ≠ '0') (all : Digits (c :: rest))
    (far : (decide (power < -4) || decide (16 ≤ power)) = true) : ∃ whole fraction exponent,
      Laid (c :: rest) power (numberLayout.place (c :: rest) power) whole fraction exponent := by
  obtain ⟨digit, later⟩ := List.forall_mem_cons.mp all
  have leading : IsWhole [c] := isWhole_cons first digit (by simp [Digits])
  unfold Binary64.Layout.place
  rw [if_pos far]
  cases rest with
  | nil =>
      refine ⟨[c], [], Binary64.exponentText power, rfl, leading, .inl rfl,
        isExponent_exponentText power, .inr (List.cons_ne_nil _ _), ?_⟩
      rw [partsWorth, exponentPower_exponentText]
      simp
  | cons d rest =>
      refine ⟨[c], '.' :: d :: rest, Binary64.exponentText power, rfl, leading,
        .inr ⟨_, rfl, by simp, later⟩, isExponent_exponentText power,
        .inl (List.cons_ne_nil _ _), ?_⟩
      rw [partsWorth, exponentPower_exponentText]
      simp

/-- Digits that end before the point are followed by zeros up to it. -/
theorem exists_laid_filled (first : c ≠ '0') (all : Digits (c :: rest)) (near : k < 16)
    (short : rest.length ≤ k) : ∃ whole fraction exponent,
      Laid (c :: rest) k (numberLayout.place (c :: rest) k) whole fraction exponent := by
  obtain ⟨digit, later⟩ := List.forall_mem_cons.mp all
  unfold Binary64.Layout.place
  rw [if_neg (by simp; omega)]
  refine ⟨c :: (rest ++ copies (k - rest.length) '0'), ['.', '0'], [], ?_,
    isWhole_cons first digit (Digits.append later (digits_copies _)),
    .inr ⟨['0'], rfl, by simp, by simp [Digits]⟩, .inl rfl, .inl (List.cons_ne_nil _ _), ?_⟩
  · simp [List.drop_eq_nil_of_le short, List.take_of_length_le short]
  · have filled : c :: (rest ++ copies (k - rest.length) '0') ++ ['0'] =
        c :: rest ++ copies (k - rest.length + 1) '0' := by
      simp [List.replicate_succ']
    have plain : exponentPower [] = 0 := rfl
    rw [partsWorth, List.tail_cons, filled, Binary64.worth_zeros, plain]
    congr 1
    simp only [List.length_cons, List.length_nil]
    omega

theorem exists_laid_split (first : c ≠ '0') (all : Digits (c :: rest)) (near : k < 16)
    (long : k < rest.length) : ∃ whole fraction exponent,
      Laid (c :: rest) k (numberLayout.place (c :: rest) k) whole fraction exponent := by
  obtain ⟨digit, later⟩ := List.forall_mem_cons.mp all
  have full : (rest.take k).length = k := by simpa using long.le
  have some : rest.drop k ≠ [] := by simpa using long
  unfold Binary64.Layout.place
  rw [if_neg (by simp; omega)]
  refine ⟨c :: rest.take k, '.' :: rest.drop k, [], ?_,
    isWhole_cons first digit fun d member => later d (List.mem_of_mem_take member),
    .inr ⟨_, rfl, some, fun d member => later d (List.mem_of_mem_drop member)⟩,
    .inl rfl, .inl (List.cons_ne_nil _ _), ?_⟩
  · simp [full, some]
  · have plain : exponentPower [] = 0 := rfl
    rw [partsWorth, List.tail_cons, List.cons_append, List.take_append_drop, plain]
    congr 1
    simp only [List.length_cons, List.length_drop]
    omega

/-- Digits that start behind the point have zeros before them. -/
theorem exists_laid_small (all : Digits (c :: rest)) (near : k < 4) : ∃ whole fraction exponent,
    Laid (c :: rest) (.negSucc k) (numberLayout.place (c :: rest) (.negSucc k)) whole fraction
      exponent := by
  unfold Binary64.Layout.place
  rw [if_neg (by simp; omega)]
  refine ⟨['0'], '.' :: (copies k '0' ++ c :: rest), [], by simp, isWhole_ofNat 0,
    .inr ⟨_, rfl, by simp, (digits_copies k).append all⟩, .inl rfl,
    .inl (List.cons_ne_nil _ _), ?_⟩
  have zeros : ['0'] ++ (copies k '0' ++ c :: rest) = copies (k + 1) '0' ++ c :: rest := rfl
  have plain : exponentPower [] = 0 := rfl
  rw [partsWorth, List.tail_cons, zeros, Binary64.zeros_worth, plain]
  congr 1
  simp only [List.length_append, List.length_replicate]
  omega

theorem exists_laid (first : c ≠ '0') (all : Digits (c :: rest)) (power : Int) :
    ∃ whole fraction exponent,
      Laid (c :: rest) power (numberLayout.place (c :: rest) power) whole fraction exponent := by
  by_cases far : (decide (power < -4) || decide (16 ≤ power)) = true
  · exact exists_laid_exponent first all far
  · rw [Bool.or_eq_true, decide_eq_true_eq, decide_eq_true_eq] at far
    cases power with
    | ofNat k =>
        have near : k < 16 := by
          rw [Int.ofNat_eq_natCast] at far
          omega
        rcases Nat.lt_or_ge k rest.length with long | short
        · exact exists_laid_split first all near long
        · exact exists_laid_filled first all near short
    | negSucc k => exact exists_laid_small all (by omega)

end Layout

/-- The parts that a finite number is written in, and are read as the same number. -/
theorem exists_write (negative : Bool) (mantissa : Nat) (exponent : Int) :
    ∃ whole fraction mark,
      numberLayout.write (.finite negative mantissa exponent) =
          numberSign negative ++ (whole ++ (fraction ++ mark)) ∧
        IsWhole whole ∧ IsFraction fraction ∧ IsExponent mark ∧ (fraction ≠ [] ∨ mark ≠ []) ∧
          (Binary64.Fits mantissa exponent →
            partsValue negative whole fraction mark = .finite negative mantissa exponent) := by
  have signed (t : Text) : (if negative then '-' :: t else t) = numberSign negative ++ t := by
    cases negative <;> rfl
  rw [Binary64.Layout.write]
  simp only
  rw [signed]
  by_cases zero : mantissa = 0
  · rw [if_pos zero]
    have fraction : IsFraction ['.', '0'] := .inr ⟨['0'], rfl, by simp, by simp [Digits]⟩
    refine ⟨['0'], ['.', '0'], [], rfl, isWhole_ofNat 0, fraction, .inl rfl, .inl (by simp),
      fun fits => ?_⟩
    subst zero
    rw [fits.normal.resolve_right (by decide)]
    rfl
  · rw [if_neg zero]
    obtain ⟨c, rest, spelled, first, all⟩ := Binary64.exists_shortestDigits zero exponent
    obtain ⟨whole, fraction, mark, laid⟩ :=
      exists_laid first all (Binary64.shortestDigits mantissa exponent).2
    refine ⟨whole, fraction, mark, by rw [spelled, laid.spelled], laid.isWhole, laid.isFraction,
      laid.isExponent, laid.noInteger, fun fits => ?_⟩
    have near := Binary64.rounds_shortestDigits fits zero
    rw [spelled, ← laid.worth] at near
    exact Binary64.ofDecimal_eq_finite fits zero near

theorem numeral_write (negative : Bool) (mantissa : Nat) (exponent : Int) :
    Numeral (numberLayout.write (.finite negative mantissa exponent)) := by
  obtain ⟨whole, fraction, mark, same, w, f, e, -⟩ := exists_write negative mantissa exponent
  rw [same]
  exact .intro negative w f e

end Recast.Json
