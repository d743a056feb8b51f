import Recast.Number.Shortest
import Recast.Proofs.Naming.Claims

/-! # The digits of finite numbers

A finite number other than zero is written with at least one digit, and its first digit is
not zero. The search for the shortest decimal never comes out at zero.
-/

namespace Recast

namespace Text

def Digits (t : Text) : Prop := ∀ c ∈ t, c.isDigit

theorem digits_ofNat (n : Nat) : Digits (ofNat n) := fun _ member =>
  Nat.isDigit_of_mem_toDigits (by decide) (by decide) member

theorem digits_copies (n : Nat) : Digits (copies n '0') := by
  intro c member
  rw [List.eq_of_mem_replicate member]
  decide

theorem Digits.append {s t : Text} (hs : Digits s) (ht : Digits t) : Digits (s ++ t) :=
  List.forall_mem_append.mpr ⟨hs, ht⟩

theorem digits_ofNatPadded (width n : Nat) : Digits (ofNatPadded width n) :=
  (digits_copies _).append (digits_ofNat n)

/-- The numeral of a positive number does not start with a zero. -/
theorem exists_ofNat_cons {n : Nat} (positive : 0 < n) : ∃ c rest, ofNat n = c :: rest ∧ c ≠ '0' := by
  cases spelled : ofNat n with
  | nil => exact absurd spelled Nat.toDigits_ne_nil
  | cons c rest =>
      refine ⟨c, rest, rfl, ?_⟩
      rintro rfl
      have zero : ofNat 0 = ['0'] := rfl
      cases rest with
      | nil =>
          rw [← zero, ofNat_inj] at spelled
          omega
      | cons d rest =>
          obtain ⟨k, same, -, some⟩ := exists_ofNat_of_append (by simp) (by simp)
            (spelled.trans (List.singleton_append).symm)
          rw [← zero, ofNat_inj] at same
          omega

end Text

namespace Binary64

namespace Neighbourhood

variable {v : Neighbourhood}

theorem nearest?_pos {n : Nat} (h : v.nearest? = some n) : 0 < n := by
  unfold nearest? at h
  generalize v.value / v.den = below at h
  have even : 0 < below → 0 < below + below % 2 := by omega
  have above : 0 < below + 1 := by omega
  simp only at h
  split at h
  · rename_i some _
    rw [Bool.and_eq_true, bne_iff_ne] at some
    have positive := Nat.pos_of_ne_zero some.1
    split at h
    · cases h
      exact positive
    · split at h <;> cases h
      · exact above
      · exact even positive
  · rename_i some _
    rw [Bool.and_eq_true, bne_iff_ne] at some
    cases h
    exact Nat.pos_of_ne_zero some.1
  · cases h
    exact above
  · cases h

/-- Where the grid of the last try is fine enough, the digits do not come out at zero. -/
theorem firstHit_pos {tries : Nat} {power : Int}
    (fine : (v.scale (power - tries)).den ≤ (v.scale (power - tries)).value)
    (known : 0 < (v.scale (power - tries)).den) : 0 < (v.firstHit tries power).digits := by
  induction tries generalizing power with
  | zero =>
      rw [Int.natCast_zero, Int.sub_zero] at fine known
      exact Nat.div_pos fine known
  | succ tries ih =>
      rw [firstHit]
      split
      · rename_i digits found
        exact nearest?_pos found
      · have same : power - (tries + 1 : Nat) = power - 1 - tries := by omega
        rw [same] at fine known
        exact ih fine known

/-- The value has a digit well below the place of its first one. -/
theorem scale_leadingPower (some : 0 < v.value) (known : 0 < v.den) (n : Nat) :
    (v.scale (v.leadingPower - (n + 1 : Nat))).den ≤ (v.scale (v.leadingPower - (n + 1 : Nat))).value ∧
      0 < (v.scale (v.leadingPower - (n + 1 : Nat))).den := by
  unfold leadingPower
  split
  · rename_i whole
    have places := Nat.length_toDigits_pos (b := 10) (n := v.value / v.den)
    have least : 10 ^ ((Nat.toDigits 10 (v.value / v.den)).length - 1) ≤ v.value / v.den := by
      by_contra small
      by_cases single : (Nat.toDigits 10 (v.value / v.den)).length = 1
      · have := Nat.div_pos whole known
        simp only [single] at small
        omega
      · have := (Nat.length_toDigits_le_iff (by decide) (by omega)).mpr (Nat.lt_of_not_le small)
        omega
    generalize (Nat.toDigits 10 (v.value / v.den)).length = length at places least
    cases power : ((length : Int) - 1 - ((n + 1 : Nat) : Int)) with
    | ofNat k =>
        have lower : 10 ^ k ≤ v.value / v.den :=
          Nat.le_trans (Nat.pow_le_pow_right (by decide)
            (by rw [Int.ofNat_eq_natCast] at power; omega)) least
        have fine := (Nat.le_div_iff_mul_le known).mp lower
        rw [Nat.mul_comm] at fine
        exact ⟨fine, Nat.mul_pos known (Nat.pow_pos (by decide))⟩
    | negSucc k =>
        exact ⟨Nat.le_trans whole (Nat.le_mul_of_pos_right _ (Nat.pow_pos (by decide))), known⟩
  · have places := Nat.length_toDigits_pos (b := 10) (n := v.den / v.value)
    have upper : v.den / v.value < 10 ^ (Nat.toDigits 10 (v.den / v.value)).length :=
      (Nat.length_toDigits_le_iff (by decide) places).mp (Nat.le_refl _)
    generalize (Nat.toDigits 10 (v.den / v.value)).length = length at places upper
    cases power : (1 - (length : Int) - ((n + 1 : Nat) : Int)) with
    | ofNat k =>
        rw [Int.ofNat_eq_natCast] at power
        omega
    | negSucc k =>
        rw [Int.negSucc_eq] at power
        have more : v.den / v.value < 10 ^ (k + 1) :=
          Nat.lt_of_lt_of_le upper (Nat.pow_le_pow_right (by decide) (by omega))
        have fine := (Nat.div_lt_iff_lt_mul some).mp more
        rw [Nat.mul_comm] at fine
        exact ⟨Nat.le_of_lt fine, known⟩

end Neighbourhood

theorem ofFinite_pos {mantissa : Nat} (some : mantissa ≠ 0) (exponent : Int) :
    0 < (Neighbourhood.ofFinite mantissa exponent).value ∧
      0 < (Neighbourhood.ofFinite mantissa exponent).den := by
  have power (k : Nat) : 0 < Nat.pow 2 k := Nat.pow_pos (by decide)
  have quarters : 0 < 4 * mantissa := by omega
  cases units : exponent - 2 with
  | ofNat k =>
      simp only [Neighbourhood.ofFinite, units]
      exact ⟨Nat.mul_pos quarters (power k), Nat.one_pos⟩
  | negSucc k =>
      simp only [Neighbourhood.ofFinite, units]
      exact ⟨quarters, power (k + 1)⟩

/-- The shortest decimal has a first digit, which is not zero. -/
theorem exists_shortestDigits {mantissa : Nat} (some : mantissa ≠ 0) (exponent : Int) :
    ∃ c rest, (shortestDigits mantissa exponent).1 = c :: rest ∧ c ≠ '0' ∧
      Text.Digits (c :: rest) := by
  have positive := ofFinite_pos some exponent
  have fine := Neighbourhood.scale_leadingPower positive.1 positive.2 17
  have hit := Neighbourhood.firstHit_pos fine.1 fine.2
  obtain ⟨c, rest, spelled, first⟩ := Text.exists_ofNat_cons hit
  have all := Text.digits_ofNat (Neighbourhood.firstHit (Neighbourhood.ofFinite mantissa exponent)
    (17 + 1) (Neighbourhood.ofFinite mantissa exponent).leadingPower).digits
  rw [spelled] at all
  -- the zeros at the end are dropped, which leaves the first digit where it is
  have kept : ∃ tail, ((c :: rest).reverse.dropWhile (· = '0')).reverse = c :: tail ∧
      ∀ d ∈ tail, d ∈ rest := by
    rw [List.reverse_cons, List.dropWhile_append]
    split
    · exact ⟨[], by simp [first], by simp⟩
    · refine ⟨(rest.reverse.dropWhile (· = '0')).reverse, by simp, fun d member => ?_⟩
      have := (List.dropWhile_sublist _).subset (List.mem_reverse.mp member)
      exact List.mem_reverse.mp this
  obtain ⟨tail, same, fewer⟩ := kept
  refine ⟨c, tail, ?_, first, ?_⟩
  · rw [← same, ← spelled]
    rfl
  · exact List.forall_mem_cons.mpr ⟨all c List.mem_cons_self,
      fun d member => all d (List.mem_cons_of_mem _ (fewer d member))⟩

end Binary64
end Recast
