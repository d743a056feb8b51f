import Mathlib.Data.List.Nodup
import Recast.Name

/-! # Claiming names

A pool numbers the claims of each base on its own and never looks at the names of other
bases. So two names are the same only where a base ends in digits that continue a
shorter base as a number would.
-/

namespace Recast

namespace Text

theorem ofNat_inj {m n : Nat} : ofNat m = ofNat n ↔ m = n := by
  constructor
  · intro same
    have value := congrArg (fun digits => Nat.ofDigitChars 10 digits 0) same
    simpa [ofNat] using value
  · rintro rfl
    rfl

/-- What a numeral starts with is the numeral of a smaller number. -/
theorem exists_ofNat_of_append {m : Nat} {start rest : Text} (some : start ≠ []) (more : rest ≠ [])
    (h : ofNat m = start ++ rest) : ∃ k, start = ofNat k ∧ k < m ∧ 0 < k := by
  induction m using Nat.strongRecOn generalizing rest with
  | _ m ih =>
      have large : 10 ≤ m := by
        by_contra small
        have single : (ofNat m).length = 1 := by
          rw [ofNat, Nat.toDigits_of_lt_base (by omega)]
          rfl
        rw [h, List.length_append] at single
        have := List.length_pos_iff.mpr some
        have := List.length_pos_iff.mpr more
        omega
      have cut : ofNat m = ofNat (m / 10) ++ [(m % 10).digitChar] :=
        Nat.toDigits_of_base_le (by decide) large
      rcases List.eq_nil_or_concat rest with rfl | ⟨middle, last, rfl⟩
      · exact absurd rfl more
      · rw [cut, List.concat_eq_append, ← List.append_assoc] at h
        have front := (List.append_inj' h rfl).1
        cases middle with
        | nil => exact ⟨m / 10, by simpa using front.symm, by omega, by omega⟩
        | cons c middle =>
            obtain ⟨k, spelled, below, positive⟩ := ih (m / 10) (by omega) (by simp) front
            exact ⟨k, spelled, by omega, positive⟩

/-- A one put in front of a numeral adds ten at least. -/
theorem add_ten_le_of_cons {m n : Nat} (h : ofNat m = '1' :: ofNat n) : n + 10 ≤ m := by
  have value : m = Nat.ofDigitChars 10 ('1' :: ofNat n) 0 := by
    rw [← h]
    exact Nat.ofDigitChars_ten_toDigits.symm
  have one : ('1' : Char).toNat - ('0' : Char).toNat = 1 := by decide
  rw [Nat.ofDigitChars_cons, one, Nat.ofDigitChars_eq_ofDigitChars_zero, ofNat,
    Nat.ofDigitChars_ten_toDigits] at value
  have digits : 10 ^ 1 ≤ 10 ^ (Nat.toDigits 10 n).length :=
    Nat.pow_le_pow_right (by decide) Nat.length_toDigits_pos
  omega

end Text

namespace NamePool

open Text

/-- The name of a base's claim with this number. -/
def numbered (base : Text) (n : Nat) : Text := if n = 1 then base else base ++ ofNat n

theorem numbered_one (base : Text) : numbered base 1 = base := if_pos rfl

theorem numbered_of_two_le {n : Nat} (many : 2 ≤ n) (base : Text) :
    numbered base n = base ++ ofNat n :=
  if_neg (by omega)

/-! ## A sequence of claims -/

theorem count_nil (base : Text) : count base [] = 0 := rfl

theorem count_increment (base claimed : Text) (pool : NamePool) :
    count base (pool.increment claimed) = count base pool + if claimed = base then 1 else 0 := by
  induction pool with
  | nil =>
      by_cases same : base = claimed
      · simp [increment, count, same]
      · have other : (base == claimed) = false := by simpa using same
        simp [increment, count, List.lookup_cons, other, Ne.symm same]
  | cons entry pool ih =>
      obtain ⟨b, n⟩ := entry
      rw [increment]
      by_cases here : base = b
      · subst here
        by_cases same : base = claimed
        · simp [count, same]
        · simp [count, same, Ne.symm same]
      · have other : (base == b) = false := by simpa using here
        split
        · rename_i same
          subst same
          simp [count, List.lookup_cons, other, Ne.symm here]
        · simpa [count, List.lookup_cons, other] using ih

def after (pool : NamePool) (bases : List Text) : NamePool :=
  bases.foldl (fun pool base => pool.increment base) pool

/-- The names for claims that are made one after the other. -/
def claimAll (pool : NamePool) : List Text → List Text
  | [] => []
  | base :: bases => (pool.claim base).1 :: claimAll (pool.claim base).2 bases

theorem after_append (pool : NamePool) (as bs : List Text) :
    after pool (as ++ bs) = after (after pool as) bs := by
  simp [after]

theorem claimAll_append (pool : NamePool) (as bs : List Text) :
    claimAll pool (as ++ bs) = claimAll pool as ++ claimAll (after pool as) bs := by
  induction as generalizing pool with
  | nil => rfl
  | cons a as ih => exact congrArg ((pool.claim a).1 :: ·) (ih _)

/-- The bases of some claims, each with the number of the claim. -/
def issued (pool : NamePool) : List Text → List (Text × Nat)
  | [] => []
  | base :: bases => (base, count base pool + 1) :: issued (pool.increment base) bases

theorem issued_nil (pool : NamePool) : issued pool [] = [] := rfl

theorem issued_cons (pool : NamePool) (base : Text) (bases : List Text) :
    issued pool (base :: bases) =
      (base, count base pool + 1) :: issued (pool.increment base) bases := rfl

theorem claim_eq_numbered (base : Text) (pool : NamePool) :
    (pool.claim base).1 = numbered base (count base pool + 1) := by
  rw [claim, numbered]
  by_cases first : count base pool = 0 <;> simp [first]

theorem claimAll_eq_map (pool : NamePool) (bases : List Text) :
    claimAll pool bases = (issued pool bases).map fun (base, n) => numbered base n := by
  induction bases generalizing pool with
  | nil => rfl
  | cons base bases ih =>
      rw [issued_cons, List.map_cons]
      exact congrArg₂ List.cons (claim_eq_numbered base pool) (ih _)

theorem mem_issued {pool : NamePool} {bases : List Text} {base : Text} {n : Nat} :
    (base, n) ∈ issued pool bases ↔
      count base pool < n ∧ n ≤ count base pool + bases.count base := by
  induction bases generalizing pool with
  | nil =>
      simp only [issued_nil, List.not_mem_nil, List.count_nil, false_iff]
      omega
  | cons b bases ih =>
      simp only [issued_cons, List.mem_cons, Prod.mk.injEq, ih, count_increment, List.count_cons,
        beq_iff_eq]
      by_cases same : b = base
      · subst same
        simp only [if_true, true_and]
        omega
      · simp only [if_neg same, Ne.symm same, false_and, false_or, Nat.add_zero]

theorem nodup_issued (pool : NamePool) (bases : List Text) : (issued pool bases).Nodup := by
  induction bases generalizing pool with
  | nil => exact List.nodup_nil
  | cons base bases ih =>
      refine List.nodup_cons.mpr ⟨?_, ih _⟩
      intro again
      have := (mem_issued.mp again).1
      rw [count_increment, if_pos rfl] at this
      omega

/-! ## When names meet -/

/-- No base is a shorter base with the number of one of its claims behind it. The second
condition is for the digit one, which is itself no number of a claim but may start one. -/
def Apart (bases : List Text) : Prop :=
  ∀ base ∈ bases,
    (∀ n ≤ bases.count base, 2 ≤ n → base ++ ofNat n ∉ bases) ∧
      (12 ≤ bases.count base → bases.count (base ++ ['1']) < 2)

instance (bases : List Text) : Decidable (Apart bases) :=
  inferInstanceAs (Decidable (∀ base ∈ bases, _ ∧ _))

section

variable {bases : List Text} (apart : Apart bases) {a b : Text} {m n : Nat}

include apart

theorem numbered_ne_base (claimed : n ≤ bases.count a) (many : 2 ≤ n) (known : b ∈ bases) :
    b ≠ a ++ ofNat n := by
  rintro rfl
  have base : a ∈ bases := List.count_pos_iff.mp (by omega)
  exact (apart a base).1 n claimed many known

/-- Of two numerals behind different bases, the longer base takes up the start of one. -/
theorem not_continued {start : Text} (some : start ≠ []) (left : m ≤ bases.count a)
    (right : n ≤ bases.count (a ++ start)) (many : 2 ≤ n) : ofNat m ≠ start ++ ofNat n := by
  intro same
  obtain ⟨k, rfl, below, positive⟩ := exists_ofNat_of_append some Nat.toDigits_ne_nil same
  have base : a ∈ bases := List.count_pos_iff.mp (by omega)
  by_cases one : k = 1
  · subst one
    have wide := add_ten_le_of_cons same
    have few := (apart a base).2 (by omega)
    have : n ≤ bases.count (a ++ ['1']) := right
    omega
  · have longer : a ++ ofNat k ∈ bases := List.count_pos_iff.mp (by omega)
    exact (apart a base).1 k (by omega) (by omega) longer

theorem numbered_inj (left : m ≤ bases.count a) (right : n ≤ bases.count b) (posm : 0 < m)
    (posn : 0 < n) (same : numbered a m = numbered b n) : (a, m) = (b, n) := by
  have knownA : a ∈ bases := List.count_pos_iff.mp (by omega)
  have knownB : b ∈ bases := List.count_pos_iff.mp (by omega)
  by_cases m1 : m = 1 <;> by_cases n1 : n = 1
  · subst m1 n1
    rw [numbered_one, numbered_one] at same
    rw [same]
  · subst m1
    rw [numbered_one, numbered_of_two_le (by omega)] at same
    exact absurd same (numbered_ne_base apart right (by omega) knownA)
  · subst n1
    rw [numbered_one, numbered_of_two_le (by omega)] at same
    exact absurd same.symm (numbered_ne_base apart left (by omega) knownB)
  · rw [numbered_of_two_le (by omega), numbered_of_two_le (by omega)] at same
    rcases List.append_eq_append_iff.mp same with ⟨start, rfl, digits⟩ | ⟨start, rfl, digits⟩
    · by_cases none : start = []
      · subst none
        rw [List.append_nil, ofNat_inj.mp digits]
      · exact absurd digits (not_continued apart none left right (by omega))
    · by_cases none : start = []
      · subst none
        rw [List.append_nil, ofNat_inj.mp digits]
      · exact absurd digits (not_continued apart none right left (by omega))

end

/-- The names of a sequence of claims are different exactly when its bases are apart. -/
theorem nodup_claimAll {bases : List Text} : (claimAll [] bases).Nodup ↔ Apart bases := by
  rw [claimAll_eq_map, List.nodup_map_iff_inj_on (nodup_issued [] bases)]
  constructor
  · intro inj base known
    have claimed {b : Text} {n : Nat} (positive : 0 < n) (few : n ≤ bases.count b) :
        (b, n) ∈ issued [] bases := mem_issued.mpr (by rw [count_nil]; omega)
    refine ⟨?_, ?_⟩
    · intro n few many longer
      have first := claimed Nat.one_pos (List.count_pos_iff.mpr longer)
      have same : numbered base n = numbered (base ++ ofNat n) 1 := by
        rw [numbered_one, numbered_of_two_le many]
      have pair := inj _ (claimed (by omega) few) _ first same
      have : n = 1 := congrArg Prod.snd pair
      omega
    · intro many
      by_contra more
      have same : numbered base 12 = numbered (base ++ ['1']) 2 := by
        rw [numbered_of_two_le (by decide), numbered_of_two_le (by decide), List.append_assoc]
        rfl
      have pair := inj _ (claimed (by decide) many) _ (claimed (by decide) (by omega)) same
      have : 12 = 2 := congrArg Prod.snd pair
      omega
  · rintro apart ⟨a, m⟩ left ⟨b, n⟩ right same
    rw [mem_issued, count_nil] at left right
    exact numbered_inj apart (by omega) (by omega) left.1 right.1 same

end NamePool
end Recast
