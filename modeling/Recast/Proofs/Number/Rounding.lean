import Mathlib.Algebra.Order.Field.Power
import Mathlib.Data.Nat.Log
import Mathlib.Data.Rat.Cast.Order
import Mathlib.Tactic.FieldSimp
import Mathlib.Tactic.Linarith
import Mathlib.Tactic.Positivity
import Mathlib.Tactic.Ring
import Recast.Number.Binary64

/-! # Rounding

Each value other than NaN and the infinite ones has an interval of rationals that round to it.
A ratio gives the value in whose interval it lies, so that whatever spells a rational from the
interval spells the value.
-/

namespace Recast.Binary64

/-- The mantissas and exponents that the format has. -/
structure Fits (mantissa : Nat) (exponent : Int) : Prop where
  mantissa_lt : mantissa < 2 ^ 53
  least : leastExponent ≤ exponent
  greatest : exponent ≤ greatestExponent
  normal : exponent = leastExponent ∨ 2 ^ 52 ≤ mantissa

theorem fits_iff {mantissa : Nat} {exponent : Int} : Fits mantissa exponent ↔
    mantissa < 2 ^ 53 ∧ leastExponent ≤ exponent ∧ exponent ≤ greatestExponent ∧
      (exponent = leastExponent ∨ 2 ^ 52 ≤ mantissa) :=
  ⟨fun h => ⟨h.mantissa_lt, h.least, h.greatest, h.normal⟩, fun h => ⟨h.1, h.2.1, h.2.2.1, h.2.2.2⟩⟩

instance (mantissa : Nat) (exponent : Int) : Decidable (Fits mantissa exponent) :=
  decidable_of_iff' _ fits_iff

/-- Is the value one of the format? -/
def Canonical : Binary64 → Prop
  | .finite _ mantissa exponent => Fits mantissa exponent
  | _ => True

instance : DecidablePred Canonical
  | .finite _ mantissa exponent => inferInstanceAs (Decidable (Fits mantissa exponent))
  | .infinite _ | .nan => inferInstanceAs (Decidable True)

/-- How far below the mantissa the interval starts, in units of the last place: the values just
    below a power of two lie twice as close. -/
def reach (mantissa : Nat) (exponent : Int) : ℚ :=
  if mantissa = 2 ^ 52 ∧ leastExponent < exponent then 1 / 4 else 1 / 2

/-- Does `q` round to `mantissa · 2 ^ exponent`? The ends of the interval do when the mantissa
    is even. -/
def Rounds (mantissa : Nat) (exponent : Int) (q : ℚ) : Prop :=
  if mantissa % 2 = 0 then
    mantissa - reach mantissa exponent ≤ q / 2 ^ exponent ∧ q / 2 ^ exponent ≤ mantissa + 1 / 2
  else mantissa - reach mantissa exponent < q / 2 ^ exponent ∧ q / 2 ^ exponent < mantissa + 1 / 2

variable {mantissa num den : Nat} {exponent : Int} {q : ℚ}

theorem reach_le (mantissa : Nat) (exponent : Int) :
    1 / 4 ≤ reach mantissa exponent ∧ reach mantissa exponent ≤ 1 / 2 := by
  unfold reach
  split <;> norm_num

theorem Rounds.le (h : Rounds mantissa exponent q) :
    mantissa - reach mantissa exponent ≤ q / 2 ^ exponent ∧ q / 2 ^ exponent ≤ mantissa + 1 / 2 := by
  unfold Rounds at h
  split at h
  · exact h
  · exact ⟨h.1.le, h.2.le⟩

/-! ## Whole numbers -/

theorem roundEven_cases (num den : Nat) :
    roundEven num den = num / den ∨ roundEven num den = num / den + 1 := by
  unfold roundEven
  simp only
  split
  · exact .inl rfl
  · split
    · exact .inr rfl
    · rcases Nat.mod_two_eq_zero_or_one (num / den) with even | odd
      · exact .inl (by rw [even, Nat.add_zero])
      · exact .inr (by rw [odd])

/-- The nearest whole number is the one at most a half away, and of two the even one. -/
theorem roundEven_eq {n : Nat} (some : 0 < den) (above : 2 * num ≤ (2 * n + 1) * den)
    (below : 2 * n * den ≤ 2 * num + den)
    (odd : n % 2 = 1 → 2 * num < (2 * n + 1) * den ∧ 2 * n * den < 2 * num + den) :
    roundEven num den = n := by
  have parts := Nat.div_add_mod num den
  have rest := Nat.mod_lt num some
  unfold roundEven
  simp only
  generalize num / den = quotient at parts ⊢
  generalize num % den = remainder at parts rest ⊢
  have cancel {a b : Nat} (h : den * a < den * b) : a < b := Nat.lt_of_mul_lt_mul_left h
  -- the quotient is the whole number or the one before
  have most : quotient < n + 1 := cancel (by nlinarith)
  have least : n < quotient + 2 := cancel (by nlinarith)
  split
  · have : n < quotient + 1 := cancel (by nlinarith)
    omega
  · split
    · have : quotient < n := cancel (by nlinarith)
      omega
    · have half : 2 * remainder = den := by omega
      rcases Nat.mod_two_eq_zero_or_one n with even | uneven
      · omega
      · obtain ⟨above, below⟩ := odd uneven
        have : quotient < n := cancel (by nlinarith)
        have : n < quotient + 1 := cancel (by nlinarith)
        omega

/-! ## The exponent of a ratio -/

theorem two_zpow_pos (exponent : Int) : (0 : ℚ) < 2 ^ exponent := zpow_pos two_pos exponent

theorem inUnits_eq (num den : Nat) (exponent : Int) :
    ((inUnits num den exponent).1 : ℚ) / (inUnits num den exponent).2 = num / den / 2 ^ exponent := by
  cases exponent with
  | ofNat k =>
      simp only [inUnits, Nat.pow_eq, Int.ofNat_eq_natCast, zpow_natCast]
      push_cast
      rw [div_div]
  | negSucc k =>
      simp only [inUnits, Nat.pow_eq, zpow_negSucc]
      push_cast
      rw [div_inv_eq_mul, mul_div_right_comm]

theorem inUnits_pos (num : Nat) (some : 0 < den) (exponent : Int) :
    0 < (inUnits num den exponent).2 := by
  cases exponent with
  | ofNat k => exact Nat.mul_pos some (Nat.pow_pos two_pos)
  | negSucc k => exact some

/-- The exponent that gives a ratio a mantissa of 53 binary digits. -/
def ratioExponent (num den : Nat) : Int :=
  let estimate : Int := (num.log2 : Int) - den.log2 - 53
  if (inUnits num den estimate).1 / (inUnits num den estimate).2 < Nat.pow 2 53 then estimate
  else estimate + 1

/-- A ratio is rounded to a whole number of units of its last place. -/
def ratioMantissa (num den : Nat) (exponent : Int) : Nat :=
  roundEven (inUnits num den exponent).1 (inUnits num den exponent).2

theorem ofRatio_eq (negative : Bool) (some : num ≠ 0) :
    ofRatio negative num den =
      let exponent := max (ratioExponent num den) leastExponent
      let mantissa := ratioMantissa num den exponent
      let (mantissa, exponent) :=
        if mantissa = 2 ^ 53 then (2 ^ 52, exponent + 1) else (mantissa, exponent)
      if greatestExponent < exponent then .infinite negative
      else .finite negative mantissa exponent := by
  rw [ofRatio, if_neg some]
  rfl

theorem floor_lt_iff (some : 0 < den) (k : Nat) : num / den < k ↔ (num : ℚ) / den < k := by
  rw [Nat.div_lt_iff_lt_mul some, div_lt_iff₀ (by exact_mod_cast some)]
  exact_mod_cast Iff.rfl

theorem le_floor_iff (some : 0 < den) (k : Nat) : k ≤ num / den ↔ (k : ℚ) ≤ num / den := by
  rw [← not_lt, floor_lt_iff some, not_lt]

theorem log2_bounds {n : Nat} (some : n ≠ 0) :
    (2 : ℚ) ^ (n.log2 : Int) ≤ n ∧ (n : ℚ) < 2 ^ ((n.log2 : Int) + 1) := by
  have low := Nat.log2_self_le some
  have high := Nat.lt_log2_self (n := n)
  constructor
  · rw [zpow_natCast]
    exact_mod_cast low
  · rw [← Nat.cast_succ, zpow_natCast]
    exact_mod_cast high

/-- The mantissa of a ratio has 53 binary digits before the point. -/
theorem ratioExponent_bounds (nonzero : num ≠ 0) (some : 0 < den) :
    (2 : ℚ) ^ 52 ≤ num / den / 2 ^ ratioExponent num den ∧
      (num : ℚ) / den / 2 ^ ratioExponent num den < 2 ^ 53 := by
  obtain ⟨numLow, numHigh⟩ := log2_bounds nonzero
  obtain ⟨denLow, denHigh⟩ := log2_bounds some.ne'
  have positive : (0 : ℚ) < den := by exact_mod_cast some
  obtain ⟨estimate, estimated⟩ : ∃ estimate : Int, estimate = (num.log2 : Int) - den.log2 - 53 :=
    ⟨_, rfl⟩
  have power (k : Nat) {a b : Int} (same : k + estimate + a = b) :
      (2 : ℚ) ^ k * 2 ^ estimate * 2 ^ a = 2 ^ b := by
    rw [← zpow_natCast, ← zpow_add₀ two_ne_zero, ← zpow_add₀ two_ne_zero, same]
  have low : (2 : ℚ) ^ 52 * 2 ^ estimate < num / den := by
    rw [lt_div_iff₀ positive]
    calc (2 : ℚ) ^ 52 * 2 ^ estimate * den
        < 2 ^ 52 * 2 ^ estimate * 2 ^ ((den.log2 : Int) + 1) := by gcongr
      _ = 2 ^ (num.log2 : Int) := power 52 (by omega)
      _ ≤ num := numLow
  have high : (num : ℚ) / den < 2 ^ 54 * 2 ^ estimate := by
    rw [div_lt_iff₀ positive]
    calc (num : ℚ) < 2 ^ ((num.log2 : Int) + 1) := numHigh
      _ = 2 ^ 54 * 2 ^ estimate * 2 ^ (den.log2 : Int) := (power 54 (by omega)).symm
      _ ≤ 2 ^ 54 * 2 ^ estimate * den := by gcongr
  have unit := two_zpow_pos estimate
  have whole : (inUnits num den estimate).1 / (inUnits num den estimate).2 < Nat.pow 2 53 ↔
      (num : ℚ) / den / 2 ^ estimate < 2 ^ 53 := by
    rw [floor_lt_iff (inUnits_pos num some estimate), inUnits_eq, Nat.pow_eq, Nat.cast_pow,
      Nat.cast_ofNat]
  rw [ratioExponent]
  simp only [← estimated]
  split
  · rename_i small
    exact ⟨(le_div_iff₀ unit).mpr low.le, whole.mp small⟩
  · rename_i large
    rw [Nat.pow_eq, whole, not_lt] at large
    rw [zpow_add_one₀ two_ne_zero, ← div_div]
    rw [← div_lt_iff₀ unit] at high
    constructor <;> linarith

/-- Exponents compare as the bounds of two mantissas allow. -/
theorem exponent_le {a b : Int} (least : (2 : ℚ) ^ 52 ≤ q / 2 ^ a) (most : q / 2 ^ b < 2 ^ 53) :
    a ≤ b := by
  rw [le_div_iff₀ (two_zpow_pos a)] at least
  rw [div_lt_iff₀ (two_zpow_pos b)] at most
  have step : (2 : ℚ) ^ (a + 52) < 2 ^ (b + 53) := by
    rw [add_comm a, add_comm b, zpow_add₀ two_ne_zero, zpow_add₀ two_ne_zero]
    exact_mod_cast least.trans_lt most
  have := (zpow_lt_zpow_iff_right₀ one_lt_two).mp step
  omega

theorem ratioMantissa_eq {n : Nat} (some : 0 < den)
    (near : (n : ℚ) - 1 / 2 ≤ num / den / 2 ^ exponent ∧ (num : ℚ) / den / 2 ^ exponent ≤ n + 1 / 2)
    (odd : n % 2 = 1 → (n : ℚ) - 1 / 2 < num / den / 2 ^ exponent ∧
      (num : ℚ) / den / 2 ^ exponent < n + 1 / 2) : ratioMantissa num den exponent = n := by
  have positive := inUnits_pos num some exponent
  rw [← inUnits_eq] at near odd
  have positive' : (0 : ℚ) < (inUnits num den exponent).2 := by exact_mod_cast positive
  rw [le_div_iff₀ positive', div_le_iff₀ positive'] at near
  rw [lt_div_iff₀ positive', div_lt_iff₀ positive'] at odd
  refine roundEven_eq positive ?_ ?_ fun uneven => ⟨?_, ?_⟩
  · have : (2 * (inUnits num den exponent).1 : ℚ) ≤ (2 * n + 1) * (inUnits num den exponent).2 := by
      linarith [near.2]
    exact_mod_cast this
  · have : (2 * n * (inUnits num den exponent).2 : ℚ) ≤
        2 * (inUnits num den exponent).1 + (inUnits num den exponent).2 := by
      linarith [near.1]
    exact_mod_cast this
  · have : (2 * (inUnits num den exponent).1 : ℚ) < (2 * n + 1) * (inUnits num den exponent).2 := by
      linarith [(odd uneven).2]
    exact_mod_cast this
  · have : (2 * n * (inUnits num den exponent).2 : ℚ) <
        2 * (inUnits num den exponent).1 + (inUnits num den exponent).2 := by
      linarith [(odd uneven).1]
    exact_mod_cast this

theorem ratioMantissa_le (some : 0 < den) {k : Nat}
    (most : (num : ℚ) / den / 2 ^ exponent < k) : ratioMantissa num den exponent ≤ k := by
  rw [← inUnits_eq, ← floor_lt_iff (inUnits_pos num some exponent)] at most
  rcases roundEven_cases (inUnits num den exponent).1 (inUnits num den exponent).2 with same | same
  · rw [ratioMantissa, same]
    exact most.le
  · rw [ratioMantissa, same]
    exact most

theorem le_ratioMantissa (some : 0 < den) {k : Nat}
    (least : (k : ℚ) ≤ num / den / 2 ^ exponent) : k ≤ ratioMantissa num den exponent := by
  rw [← inUnits_eq, ← le_floor_iff (inUnits_pos num some exponent)] at least
  rcases roundEven_cases (inUnits num den exponent).1 (inUnits num den exponent).2 with same | same
  · rw [ratioMantissa, same]
    exact least
  · rw [ratioMantissa, same]
    exact Nat.le_succ_of_le least

/-! ## What a ratio rounds to -/

theorem fits_zero : Fits 0 leastExponent := ⟨by decide, le_rfl, by decide, .inl rfl⟩

/-- A ratio rounds to a value of the format. -/
theorem canonical_ofRatio (negative : Bool) (num : Nat) (some : 0 < den) :
    Canonical (ofRatio negative num den) := by
  by_cases nonzero : num = 0
  · rw [ofRatio, if_pos nonzero]
    exact fits_zero
  obtain ⟨least, most⟩ := ratioExponent_bounds nonzero some
  rw [ofRatio_eq negative nonzero]
  simp only
  obtain ⟨exponent, chosen⟩ : ∃ exponent, max (ratioExponent num den) leastExponent = exponent :=
    ⟨_, rfl⟩
  have above : ratioExponent num den ≤ exponent := chosen ▸ le_max_left _ _
  have small : (num : ℚ) / den / 2 ^ exponent < (2 ^ 53 : Nat) := by
    refine lt_of_le_of_lt ?_ (most.trans_eq (by norm_num))
    gcongr
    norm_num
  have normal : exponent = leastExponent ∨ 2 ^ 52 ≤ ratioMantissa num den exponent := by
    rcases max_choice (ratioExponent num den) leastExponent with same | same
    · refine .inr (le_ratioMantissa some ?_)
      rw [← chosen, same]
      exact_mod_cast least
    · exact .inl (chosen.symm.trans same)
  have bounded := ratioMantissa_le some small
  have lower : leastExponent ≤ exponent := chosen ▸ le_max_right _ _
  rw [chosen]
  split
  · split
    · trivial
    · rename_i most
      have carried : Fits (2 ^ 52) (exponent + 1) :=
        ⟨by decide, by omega, Int.not_lt.mp most, .inr le_rfl⟩
      exact carried
  · rename_i other
    split
    · trivial
    · exact ⟨lt_of_le_of_ne bounded other, lower, by omega, normal⟩

theorem ratioExponent_eq (nonzero : num ≠ 0) (some : 0 < den)
    (least : (2 : ℚ) ^ 52 ≤ num / den / 2 ^ exponent)
    (most : (num : ℚ) / den / 2 ^ exponent < 2 ^ 53) : ratioExponent num den = exponent := by
  obtain ⟨least', most'⟩ := ratioExponent_bounds nonzero some
  exact le_antisymm (exponent_le least' most) (exponent_le least most')

/-- A ratio just below a power of two is rounded up to it on the finer grid. -/
theorem ofRatio_eq_carried {negative : Bool} (nonzero : num ≠ 0) (some : 0 < den)
    (finer : leastExponent < exponent) (greatest : exponent ≤ greatestExponent)
    (low : (2 : ℚ) ^ 53 - 1 / 2 ≤ num / den / 2 ^ (exponent - 1))
    (high : (num : ℚ) / den / 2 ^ (exponent - 1) < 2 ^ 53) :
    ofRatio negative num den = .finite negative (2 ^ 52) exponent := by
  have chosen : max (ratioExponent num den) leastExponent = exponent - 1 := by
    rw [ratioExponent_eq nonzero some (by linarith) high, max_eq_left (by omega)]
  have same : ratioMantissa num den (exponent - 1) = 2 ^ 53 := by
    refine ratioMantissa_eq some ⟨by exact_mod_cast low, ?_⟩ fun odd => absurd odd (by decide)
    push_cast
    linarith
  rw [ofRatio_eq negative nonzero]
  simp only
  rw [chosen, same, if_pos rfl]
  simp only [Int.sub_add_cancel]
  rw [if_neg (Int.not_lt.mpr greatest)]

/-- A ratio among the numbers of an exponent has that exponent chosen for it. -/
theorem ofRatio_eq_chosen {negative : Bool} (fits : Fits mantissa exponent) (nonzero : num ≠ 0)
    (some : 0 < den) (h : Rounds mantissa exponent (num / den))
    (most : (num : ℚ) / den / 2 ^ exponent < 2 ^ 53)
    (normal : exponent = leastExponent ∨ (2 : ℚ) ^ 52 ≤ num / den / 2 ^ exponent) :
    ofRatio negative num den = .finite negative mantissa exponent := by
  obtain ⟨low, high⟩ := h.le
  have near := reach_le mantissa exponent
  have chosen : max (ratioExponent num den) leastExponent = exponent := by
    rcases normal with rfl | normal
    · exact max_eq_right (exponent_le (ratioExponent_bounds nonzero some).1 most)
    · rw [ratioExponent_eq nonzero some normal most, max_eq_left fits.least]
  have same : ratioMantissa num den exponent = mantissa := by
    refine ratioMantissa_eq some ⟨by linarith, high⟩ fun odd => ?_
    rw [Rounds, if_neg (by omega)] at h
    exact ⟨by linarith [h.1], h.2⟩
  rw [ofRatio_eq negative nonzero]
  simp only
  rw [chosen, same, if_neg (fits.mantissa_lt.ne), if_neg (Int.not_lt.mpr fits.greatest)]

/-- A ratio below the numbers of an exponent goes up to the least of them. -/
theorem ofRatio_eq_below {negative : Bool} (fits : Fits mantissa exponent) (nonzero : num ≠ 0)
    (some : 0 < den) (h : Rounds mantissa exponent (num / den)) (above : exponent ≠ leastExponent)
    (below : (num : ℚ) / den / 2 ^ exponent < 2 ^ 52) :
    ofRatio negative num den = .finite negative mantissa exponent := by
  have low := h.le.1
  have near := reach_le mantissa exponent
  have power : mantissa = 2 ^ 52 := by
    have lower := fits.normal.resolve_left above
    have : (mantissa : ℚ) < (2 ^ 52 + 1 : Nat) := by push_cast; linarith
    exact le_antisymm (Nat.lt_succ_iff.mp (by exact_mod_cast this)) lower
  have finer : leastExponent < exponent := lt_of_le_of_ne fits.least (Ne.symm above)
  have half : (num : ℚ) / den / 2 ^ (exponent - 1) = 2 * (num / den / 2 ^ exponent) := by
    rw [zpow_sub_one₀ two_ne_zero]
    field_simp
  rw [reach, if_pos ⟨power, finer⟩, power] at low
  push_cast at low
  rw [power]
  apply ofRatio_eq_carried nonzero some finer fits.greatest
  · rw [half]
    linarith
  · rw [half]
    linarith

/-- A ratio rounds to the value in whose interval it lies. -/
theorem ofRatio_eq_finite {negative : Bool} (fits : Fits mantissa exponent) (some : 0 < den)
    (h : Rounds mantissa exponent (num / den)) :
    ofRatio negative num den = .finite negative mantissa exponent := by
  obtain ⟨low, high⟩ := h.le
  have near := reach_le mantissa exponent
  have small : (mantissa : ℚ) + 1 ≤ 2 ^ 53 := by exact_mod_cast fits.mantissa_lt
  by_cases nonzero : num = 0
  · subst nonzero
    rw [Nat.cast_zero, zero_div, zero_div] at low
    have least : (mantissa : ℚ) < (1 : Nat) := by push_cast; linarith
    obtain rfl : mantissa = 0 := Nat.lt_one_iff.mp (by exact_mod_cast least)
    obtain rfl := fits.normal.resolve_right (by decide)
    rfl
  have most : (num : ℚ) / den / 2 ^ exponent < 2 ^ 53 := by linarith
  by_cases normal : exponent = leastExponent ∨ (2 : ℚ) ^ 52 ≤ num / den / 2 ^ exponent
  · exact ofRatio_eq_chosen fits nonzero some h most normal
  · obtain ⟨above, below⟩ := not_or.mp normal
    exact ofRatio_eq_below fits nonzero some h above (not_le.mp below)

/-! ## Decimals -/

theorem ten_zpow_pos (power : Int) : (0 : ℚ) < 10 ^ power := zpow_pos (by norm_num) power

/-- Where the first digit of a decimal stands. -/
theorem decimal_bounds {digits : Nat} (nonzero : digits ≠ 0) (power : Int) :
    (10 : ℚ) ^ ((Nat.toDigits 10 digits).length + power - 1) ≤ digits * 10 ^ power ∧
      (digits * 10 ^ power : ℚ) < 10 ^ ((Nat.toDigits 10 digits).length + power) := by
  have some := Nat.length_toDigits_pos (b := 10) (n := digits)
  have high := (Nat.length_toDigits_le_iff (by decide) some).mp le_rfl
  have low : 10 ^ ((Nat.toDigits 10 digits).length - 1) ≤ digits := by
    by_cases single : (Nat.toDigits 10 digits).length = 1
    · rw [single]
      exact Nat.one_le_iff_ne_zero.mpr nonzero
    · by_contra small
      have := (Nat.length_toDigits_le_iff (by decide) (by omega)).mpr (Nat.lt_of_not_le small)
      omega
  generalize (Nat.toDigits 10 digits).length = length at some high low
  have unit := ten_zpow_pos power
  constructor
  · rw [show (length : Int) + power - 1 = (length - 1 : Nat) + power by omega,
      zpow_add₀ (by norm_num), zpow_natCast]
    gcongr
    exact_mod_cast low
  · rw [zpow_add₀ (by norm_num), zpow_natCast]
    gcongr
    exact_mod_cast high

/-- The least interval and the greatest one lie well between the powers of ten that settle a
    magnitude by its number of digits. -/
theorem extremes : (10 : ℚ) ^ (-401 : Int) < 1 / 2 * 2 ^ leastExponent ∧
    (2 : ℚ) ^ 53 * 2 ^ greatestExponent < 10 ^ (400 : Int) := by
  have least : (2 : ℚ) ^ (43 * 25) < 10 ^ (16 * 25) := by
    rw [pow_mul, pow_mul]
    gcongr
    norm_num
  have greatest : (2 : ℚ) ^ (64 * 16) < 10 ^ (25 * 16) := by
    rw [pow_mul, pow_mul]
    gcongr
    norm_num
  constructor
  · calc (10 : ℚ) ^ (-401 : Int) ≤ 10 ^ (-(16 * 25 : Nat) : Int) :=
          zpow_le_zpow_right₀ (by norm_num) (by decide)
      _ = (10 ^ (16 * 25))⁻¹ := by rw [zpow_neg, zpow_natCast]
      _ < (2 ^ (43 * 25))⁻¹ := inv_strictAnti₀ (pow_pos two_pos _) least
      _ = 2 ^ (-(43 * 25 : Nat) : Int) := by rw [zpow_neg, zpow_natCast]
      _ = 1 / 2 * 2 ^ leastExponent := by
          rw [leastExponent, one_div, ← zpow_neg_one, ← zpow_add₀ two_ne_zero]
          congr 1
  · calc (2 : ℚ) ^ 53 * 2 ^ greatestExponent = 2 ^ (64 * 16) := by
          rw [greatestExponent, ← zpow_natCast 2 53, ← zpow_natCast 2 (64 * 16),
            ← zpow_add₀ two_ne_zero]
          congr 1
      _ < 10 ^ (25 * 16) := greatest
      _ = 10 ^ (400 : Int) := by
          rw [← zpow_natCast]
          congr 1

theorem Rounds.bounds (h : Rounds mantissa exponent q) (fits : Fits mantissa exponent)
    (nonzero : mantissa ≠ 0) : (10 : ℚ) ^ (-401 : Int) < q ∧ q < 10 ^ (400 : Int) := by
  obtain ⟨low, high⟩ := h.le
  have near := reach_le mantissa exponent
  have some : (1 : ℚ) ≤ mantissa := by exact_mod_cast Nat.one_le_iff_ne_zero.mpr nonzero
  have small : (mantissa : ℚ) + 1 ≤ 2 ^ 53 := by exact_mod_cast fits.mantissa_lt
  have unit := two_zpow_pos exponent
  rw [le_div_iff₀ unit] at low
  rw [div_le_iff₀ unit] at high
  constructor
  · calc (10 : ℚ) ^ (-401 : Int) < 1 / 2 * 2 ^ leastExponent := extremes.1
      _ ≤ 1 / 2 * 2 ^ exponent := by
          gcongr
          · norm_num
          · exact fits.least
      _ ≤ (mantissa - reach mantissa exponent) * 2 ^ exponent := by
          gcongr
          linarith
      _ ≤ q := low
  · calc q ≤ (mantissa + 1 / 2) * 2 ^ exponent := high
      _ ≤ 2 ^ 53 * 2 ^ exponent := by
          gcongr
          linarith
      _ ≤ 2 ^ 53 * 2 ^ greatestExponent := by
          gcongr
          · norm_num
          · exact fits.greatest
      _ < 10 ^ (400 : Int) := extremes.2

/-- A decimal, like a ratio, gives the value in whose interval it lies. -/
theorem ofDecimal_eq_finite {negative : Bool} {digits : Nat} {power : Int}
    (fits : Fits mantissa exponent) (nonzero : mantissa ≠ 0)
    (h : Rounds mantissa exponent (digits * 10 ^ power)) :
    ofDecimal negative digits power = .finite negative mantissa exponent := by
  obtain ⟨low, high⟩ := h.bounds fits nonzero
  have some : digits ≠ 0 := by
    rintro rfl
    rw [Nat.cast_zero, zero_mul] at low
    exact absurd low (not_lt.mpr (ten_zpow_pos _).le)
  obtain ⟨first, last⟩ := decimal_bounds some power
  have most := (zpow_lt_zpow_iff_right₀ (by norm_num : (1 : ℚ) < 10)).mp (first.trans_lt high)
  have least := (zpow_lt_zpow_iff_right₀ (by norm_num : (1 : ℚ) < 10)).mp (low.trans last)
  unfold ofDecimal
  rw [if_neg some]
  simp only
  rw [if_neg (by omega), if_neg (by omega)]
  cases power with
  | ofNat k =>
      refine ofRatio_eq_finite fits Nat.one_pos ?_
      rw [Int.ofNat_eq_natCast, zpow_natCast] at h
      simpa using h
  | negSucc k =>
      refine ofRatio_eq_finite fits (Nat.pow_pos (by decide)) ?_
      rw [zpow_negSucc, ← div_eq_mul_inv] at h
      simpa using h

/-! ## Values of the format -/

theorem Canonical.neg {x : Binary64} (h : x.Canonical) : x.neg.Canonical := by
  cases x with
  | finite => exact h
  | infinite | nan => trivial

theorem canonical_ofDecimal (negative : Bool) (digits : Nat) (power : Int) :
    (ofDecimal negative digits power).Canonical := by
  unfold ofDecimal
  simp only
  split
  · exact fits_zero
  · split
    · trivial
    · split
      · exact fits_zero
      · cases power with
        | ofNat k => exact canonical_ofRatio _ _ Nat.one_pos
        | negSucc k => exact canonical_ofRatio _ _ (Nat.pow_pos (by decide))

theorem canonical_ofUnits (count unit : Int) : (ofUnits count unit).Canonical := by
  cases unit with
  | ofNat k => exact canonical_ofRatio _ _ Nat.one_pos
  | negSucc k => exact canonical_ofRatio _ _ (Nat.pow_pos two_pos)

theorem canonical_add (x y : Binary64) : (x.add y).Canonical := by
  unfold add
  split
  · trivial
  · trivial
  · split <;> trivial
  · trivial
  · trivial
  · simp only
    split
    · exact fits_zero
    · exact canonical_ofUnits _ _

end Recast.Binary64
