import Mathlib.Data.List.TakeWhile
import Recast.Proofs.Number.Rounding
import Recast.Proofs.Number.Shortest

/-! # The shortest decimal is near enough

The search for the shortest decimal always ends on a grid on which one of the two whole numbers
around the value lies in the interval that rounds to it. So the digits that are found spell the
value and no other.
-/

namespace Recast.Binary64

variable {mantissa n : Nat} {exponent power : Int}

namespace Neighbourhood

variable {v : Neighbourhood}

/-! ## Intervals as rationals -/

theorem holds_iff (known : 0 < v.den) : v.holds n = true ↔
    if v.closed then (v.low : ℚ) / v.den ≤ n ∧ (n : ℚ) ≤ v.high / v.den
    else (v.low : ℚ) / v.den < n ∧ (n : ℚ) < v.high / v.den := by
  have positive : (0 : ℚ) < v.den := by exact_mod_cast known
  unfold holds
  split
  · rw [div_le_iff₀ positive, le_div_iff₀ positive, Bool.and_eq_true, decide_eq_true_eq,
      decide_eq_true_eq]
    exact_mod_cast Iff.rfl
  · rw [div_lt_iff₀ positive, lt_div_iff₀ positive, Bool.and_eq_true, decide_eq_true_eq,
      decide_eq_true_eq]
    exact_mod_cast Iff.rfl

theorem scale_pos (known : 0 < v.den) (power : Int) : 0 < (v.scale power).den := by
  cases power with
  | ofNat k => exact Nat.mul_pos known (Nat.pow_pos (by decide))
  | negSucc k => exact known

theorem scale_eq (v : Neighbourhood) (power : Int) :
    ((v.scale power).value : ℚ) / (v.scale power).den = v.value / v.den / 10 ^ power ∧
      ((v.scale power).low : ℚ) / (v.scale power).den = v.low / v.den / 10 ^ power ∧
      ((v.scale power).high : ℚ) / (v.scale power).den = v.high / v.den / 10 ^ power ∧
      (v.scale power).closed = v.closed := by
  cases power with
  | ofNat k =>
      simp only [scale, Nat.pow_eq, Int.ofNat_eq_natCast, zpow_natCast, div_div, Nat.cast_mul,
        Nat.cast_pow, Nat.cast_ofNat, and_self]
  | negSucc k =>
      simp only [scale, Nat.pow_eq, zpow_negSucc, div_inv_eq_mul, div_mul_eq_mul_div, Nat.cast_mul,
        Nat.cast_pow, Nat.cast_ofNat, and_self]

theorem ofFinite_eq (some : mantissa ≠ 0) (exponent : Int) :
    ((ofFinite mantissa exponent).value : ℚ) / (ofFinite mantissa exponent).den =
        mantissa * 2 ^ exponent ∧
      ((ofFinite mantissa exponent).low : ℚ) / (ofFinite mantissa exponent).den =
        (mantissa - reach mantissa exponent) * 2 ^ exponent ∧
      ((ofFinite mantissa exponent).high : ℚ) / (ofFinite mantissa exponent).den =
        (mantissa + 1 / 2) * 2 ^ exponent ∧
      (ofFinite mantissa exponent).closed = (mantissa % 2 == 0) := by
  have quarter : (2 : ℚ) ^ exponent = 4 * 2 ^ (exponent - 2) := by
    rw [zpow_sub₀ two_ne_zero]
    field_simp
    norm_num
  have below : ((if mantissa = Nat.pow 2 52 && leastExponent < exponent then 1 else 2 : Nat) : ℚ) =
      4 * reach mantissa exponent := by
    simp only [reach, Nat.pow_eq, Bool.and_eq_true, decide_eq_true_eq]
    split <;> norm_num
  have small : (if mantissa = Nat.pow 2 52 && leastExponent < exponent then 1 else 2) ≤ 4 * mantissa := by
    split <;> omega
  unfold ofFinite
  simp only
  generalize (if mantissa = Nat.pow 2 52 && leastExponent < exponent then 1 else 2) = half at below small
  rw [quarter]
  cases exponent - 2 with
  | ofNat k =>
      simp only [Int.ofNat_eq_natCast, zpow_natCast, Nat.pow_eq, and_true]
      push_cast [Nat.cast_sub small, below]
      refine ⟨?_, ?_, ?_⟩ <;> ring
  | negSucc k =>
      simp only [zpow_negSucc, Nat.pow_eq, and_true]
      push_cast [Nat.cast_sub small, below]
      refine ⟨?_, ?_, ?_⟩ <;> ring

/-- A whole number lies in the interval, in units of a power of ten, when it rounds to the
    value. -/
theorem holds_ofFinite (some : mantissa ≠ 0) :
    ((ofFinite mantissa exponent).scale power).holds n = true ↔
      Rounds mantissa exponent (n * 10 ^ power) := by
  have known := (ofFinite_pos some exponent).2
  obtain ⟨-, low, high, closed⟩ := scale_eq (ofFinite mantissa exponent) power
  obtain ⟨-, low', high', closed'⟩ := ofFinite_eq some exponent
  have ten := ten_zpow_pos power
  have two := two_zpow_pos exponent
  rw [holds_iff (scale_pos known power), low, high, closed, low', high', closed', Rounds]
  simp only [beq_iff_eq]
  split
  · rw [div_le_iff₀ ten, le_div_iff₀ ten, le_div_iff₀ two, div_le_iff₀ two]
  · rw [div_lt_iff₀ ten, lt_div_iff₀ ten, lt_div_iff₀ two, div_lt_iff₀ two]

/-! ## The search -/

theorem nearest?_holds (h : v.nearest? = some n) : v.holds n = true := by
  unfold nearest? at h
  simp only at h
  split at h
  · rename_i below above
    rw [Bool.and_eq_true] at below
    split at h
    · cases h
      exact below.2
    · split at h
      · cases h
        exact above
      · cases h
        rcases Nat.mod_two_eq_zero_or_one (v.value / v.den) with even | odd
        · rw [even]
          exact below.2
        · rw [odd]
          exact above
  · rename_i below _
    rw [Bool.and_eq_true] at below
    cases h
    exact below.2
  · rename_i above
    cases h
    exact above
  · cases h

theorem isSome_nearest? (some : v.den ≤ v.value) (known : 0 < v.den)
    (h : v.holds (v.value / v.den) = true ∨ v.holds (v.value / v.den + 1) = true) :
    v.nearest?.isSome := by
  have positive : (v.value / v.den != 0) = true :=
    bne_iff_ne.mpr (Nat.div_pos some known).ne'
  unfold nearest?
  simp only [positive, Bool.true_and]
  cases below : v.holds (v.value / v.den) with
  | true =>
      cases v.holds (v.value / v.den + 1) with
      | true =>
          simp only
          split
          · rfl
          · split <;> rfl
      | false => rfl
  | false =>
      have above := h.resolve_left (by simp [below])
      rw [above]
      rfl

/-- A search that hits at its last power comes out in the interval. -/
theorem firstHit_holds {tries : Nat}
    (hit : (v.scale (power - tries)).nearest?.isSome) :
    (v.scale (v.firstHit (tries + 1) power).power).holds (v.firstHit (tries + 1) power).digits
      = true := by
  induction tries generalizing power with
  | zero =>
      rw [Int.natCast_zero, Int.sub_zero] at hit
      obtain ⟨digits, found⟩ := Option.isSome_iff_exists.mp hit
      rw [firstHit, found]
      exact nearest?_holds found
  | succ tries ih =>
      rw [firstHit]
      split
      · rename_i digits found
        exact nearest?_holds found
      · have same : power - (tries + 1 : Nat) = power - 1 - tries := by omega
        rw [same] at hit
        exact ih hit

end Neighbourhood

/-! ## Seventeen digits are enough -/

/-- What lies within a part of `2 ^ 54` of a value rounds to it. -/
theorem rounds_of_near {q : ℚ} (fits : Fits mantissa exponent)
    (near : |q - mantissa * 2 ^ exponent| * 2 ^ 54 < mantissa * 2 ^ exponent) :
    Rounds mantissa exponent q := by
  have unit := two_zpow_pos exponent
  have small : (mantissa : ℚ) < 2 ^ 53 := by exact_mod_cast fits.mantissa_lt
  obtain ⟨u, scaled⟩ : ∃ u, u = q / 2 ^ exponent := ⟨_, rfl⟩
  have same : q - mantissa * 2 ^ exponent = (u - mantissa) * 2 ^ exponent := by
    rw [scaled]
    field_simp
  rw [same, abs_mul, abs_of_pos unit, mul_right_comm] at near
  have near := lt_of_mul_lt_mul_right near unit.le
  have close : |u - mantissa| < reach mantissa exponent := by
    unfold reach
    split
    · rename_i power
      rw [power.1] at near ⊢
      push_cast at near ⊢
      linarith
    · linarith
  have most := (reach_le mantissa exponent).2
  obtain ⟨below, above⟩ := abs_lt.mp close
  rw [Rounds, ← scaled]
  split <;> constructor <;> linarith

namespace Neighbourhood

/-- A whole number of tens, at most a half away from the value, lies in the interval when the
    value has seventeen digits before the point. -/
theorem holds_of_near (fits : Fits mantissa exponent) (some : mantissa ≠ 0)
    (tall : (10 : ℚ) ^ 16 * 10 ^ power ≤ mantissa * 2 ^ exponent)
    (close : |(n : ℚ) - mantissa * 2 ^ exponent / 10 ^ power| ≤ 1 / 2) :
    ((ofFinite mantissa exponent).scale power).holds n = true := by
  have unit := ten_zpow_pos power
  have scaled : (n * 10 ^ power - mantissa * 2 ^ exponent : ℚ) =
      (n - mantissa * 2 ^ exponent / 10 ^ power) * 10 ^ power := by
    field_simp
  refine (holds_ofFinite some).mpr (rounds_of_near fits ?_)
  rw [scaled, abs_mul, abs_of_pos unit]
  calc |(n : ℚ) - mantissa * 2 ^ exponent / 10 ^ power| * 10 ^ power * 2 ^ 54
      ≤ 1 / 2 * 10 ^ power * 2 ^ 54 := by gcongr
    _ < 10 ^ 16 * 10 ^ power := by linarith
    _ ≤ mantissa * 2 ^ exponent := tall

theorem isSome_nearest?_of_tall (fits : Fits mantissa exponent) (some : mantissa ≠ 0)
    (tall : (10 : ℚ) ^ 16 * 10 ^ power ≤ mantissa * 2 ^ exponent)
    (large : ((ofFinite mantissa exponent).scale power).den ≤
      ((ofFinite mantissa exponent).scale power).value) :
    ((ofFinite mantissa exponent).scale power).nearest?.isSome := by
  have known := scale_pos (ofFinite_pos some exponent).2 power
  have value := (scale_eq (ofFinite mantissa exponent) power).1
  rw [(ofFinite_eq some exponent).1] at value
  refine isSome_nearest? large known ?_
  have least := (le_floor_iff known _).mp (le_refl
    (((ofFinite mantissa exponent).scale power).value / ((ofFinite mantissa exponent).scale power).den))
  have most := (floor_lt_iff known _).mp (Nat.lt_succ_self
    (((ofFinite mantissa exponent).scale power).value / ((ofFinite mantissa exponent).scale power).den))
  rw [value] at least most
  generalize ((ofFinite mantissa exponent).scale power).value / _ = below at least most ⊢
  rw [Nat.cast_succ] at most
  by_cases half : (mantissa * 2 ^ exponent / 10 ^ power : ℚ) - below ≤ 1 / 2
  · exact .inl (holds_of_near fits some tall (abs_le.mpr ⟨by linarith, by linarith⟩))
  · refine .inr (holds_of_near fits some tall ?_)
    rw [Nat.cast_succ]
    exact abs_le.mpr ⟨by linarith, by linarith⟩

/-- The power before the leading one is not more than the value. -/
theorem leadingPower_le (some : mantissa ≠ 0) (exponent : Int) :
    (10 : ℚ) ^ ((ofFinite mantissa exponent).leadingPower - 1) ≤ mantissa * 2 ^ exponent := by
  obtain ⟨positive, known⟩ := ofFinite_pos some exponent
  obtain ⟨first, firstKnown⟩ := scale_leadingPower positive known 0
  rw [← (ofFinite_eq some exponent).1, ← one_le_div (ten_zpow_pos _), ← (scale_eq _ _).1,
    one_le_div (by exact_mod_cast firstKnown)]
  exact_mod_cast first

theorem firstHit_rounds (fits : Fits mantissa exponent) (some : mantissa ≠ 0) :
    let v := ofFinite mantissa exponent
    Rounds mantissa exponent
      ((v.firstHit 18 v.leadingPower).digits * 10 ^ (v.firstHit 18 v.leadingPower).power) := by
  intro v
  obtain ⟨positive, known⟩ := ofFinite_pos some exponent
  obtain ⟨large, -⟩ := scale_leadingPower positive known 16
  refine (holds_ofFinite some).mp (firstHit_holds (isSome_nearest?_of_tall fits some ?_ large))
  calc (10 : ℚ) ^ 16 * 10 ^ (v.leadingPower - (17 : Nat))
      = 10 ^ (v.leadingPower - 1) := by
        rw [← zpow_natCast, ← zpow_add₀ (by norm_num)]
        congr 1
        omega
    _ ≤ mantissa * 2 ^ exponent := leadingPower_le some exponent

end Neighbourhood

/-! ## Digits -/

/-- What digits are worth when the last one stands at `10 ^ power`. -/
def worth (digits : Text) (power : Int) : ℚ := Nat.ofDigitChars 10 digits 0 * 10 ^ power

theorem worth_zeros (digits : Text) (count : Nat) (power : Int) :
    worth (digits ++ Text.copies count '0') power = worth digits (power + count) := by
  rw [worth, worth, Nat.ofDigitChars_append, Nat.ofDigitChars_replicate_zero,
    zpow_add₀ (by norm_num), zpow_natCast]
  push_cast
  ring

theorem zeros_worth (count : Nat) (digits : Text) (power : Int) :
    worth (Text.copies count '0' ++ digits) power = worth digits power := by
  rw [worth, worth, Nat.ofDigitChars_append, Nat.ofDigitChars_replicate_zero, Nat.mul_zero]

/-- The zeros that are dropped at the end of digits count as places. -/
theorem exists_zeros (t : Text) :
    ∃ count, t = (t.reverse.dropWhile (· = '0')).reverse ++ Text.copies count '0' := by
  obtain ⟨zeros, dropped⟩ : ∃ zeros, zeros = t.reverse.takeWhile (· = '0') := ⟨_, rfl⟩
  have all : zeros = List.replicate zeros.length '0' := by
    refine List.eq_replicate_of_mem fun c member => ?_
    rw [dropped] at member
    have zero := List.mem_takeWhile_imp member
    exact of_decide_eq_true zero
  refine ⟨zeros.length, ?_⟩
  rw [← List.reverse_inj, List.reverse_append, List.reverse_replicate, ← all, dropped,
    List.reverse_reverse, List.takeWhile_append_dropWhile]

/-- The shortest digits spell a decimal that rounds to the value. -/
theorem rounds_shortestDigits (fits : Fits mantissa exponent) (some : mantissa ≠ 0) :
    Rounds mantissa exponent (worth (shortestDigits mantissa exponent).1
      ((shortestDigits mantissa exponent).2 + 1 - (shortestDigits mantissa exponent).1.length)) := by
  have hit := Neighbourhood.firstHit_rounds fits some
  unfold shortestDigits
  simp only at hit ⊢
  generalize Neighbourhood.firstHit _ 18 _ = decimal at hit ⊢
  obtain ⟨count, spelled⟩ := exists_zeros (Text.ofNat decimal.digits)
  have value : Nat.ofDigitChars 10 (Text.ofNat decimal.digits) 0 = decimal.digits :=
    Nat.ofDigitChars_ten_toDigits
  generalize ((Text.ofNat decimal.digits).reverse.dropWhile (· = '0')).reverse = digits at spelled ⊢
  have same : (decimal.digits * 10 ^ decimal.power : ℚ) = worth digits (decimal.power + count) := by
    rw [← worth_zeros, ← spelled, worth, value]
  rw [same] at hit
  rw [spelled, List.length_append, List.length_replicate]
  convert hit using 2
  push_cast
  ring

end Recast.Binary64
