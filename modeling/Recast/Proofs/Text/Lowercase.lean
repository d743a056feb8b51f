import Mathlib.Data.List.Infix
import Recast.Text.Lowercase

/-! # Endings in lower case

The small letter of a character outside ASCII is outside ASCII as well, except for `k`, which is
the small letter of the Kelvin sign. So a text that ends in other ASCII signs once it is in lower
case ends in them as it stands, up to the case of its own ASCII letters.
-/

namespace Recast.Text

theorem endsWith_iff {ending t : Text} : endsWith ending t ↔ ending <:+ t := by
  rw [endsWith, List.isPrefixOf_iff_prefix, List.reverse_prefix]

/-- The small letters of a group of capitals are outside ASCII. The Kelvin sign is a group of
its own. -/
def LeavesAscii : Nat × Nat × Nat × Int → Prop
  | (first, last, _, distance) =>
    0x80 ≤ first + distance ∨ (first = 0x212A ∧ last = 0x212A ∧ distance = 0x6B - 0x212A)

instance (group : Nat × Nat × Nat × Int) : Decidable (LeavesAscii group) :=
  inferInstanceAs (Decidable (_ ∨ _))

theorem leavesAscii_of_mem : ∀ group ∈ capitals, LeavesAscii group := by
  set_option maxRecDepth 2000 in decide

theorem smallLetterIn?_of_leavesAscii {groups : List (Nat × Nat × Nat × Int)}
    (wide : ∀ group ∈ groups, LeavesAscii group) {n m : Nat}
    (found : smallLetterIn? groups n = some m) : m = 0x6B ∨ 0x80 ≤ m := by
  induction groups with
  | nil => cases found
  | cons group groups ih =>
      obtain ⟨first, last, step, distance⟩ := group
      rw [List.forall_mem_cons] at wide
      rw [smallLetterIn?] at found
      split at found
      · cases found
      · split at found
        · rename_i inside
          rw [Bool.and_eq_true, decide_eq_true_eq] at inside
          have most := inside.1
          have value := Option.some.inj found
          rcases wide.1 with far | ⟨same, same', near⟩
          · omega
          · omega
        · exact ih wide.2 found

/-- The signs that only ASCII characters have at the end of their lower case. -/
def isPlainSign (c : Char) : Bool := c.toNat != 0 && c != 'k' && c.toNat < 0x80

theorem isPlainSign_ofNat {m : Nat} (known : m = 0x6B ∨ 0x80 ≤ m) :
    isPlainSign (Char.ofNat m) = false := by
  rcases known with rfl | far
  · rfl
  · by_cases valid : m.isValidChar
    · have code : (Char.ofNat m).toNat = m := by
        rw [Char.ofNat, dif_pos valid]
        rfl
      rw [isPlainSign, code, decide_eq_false (by omega), Bool.and_false]
    · rw [Char.ofNat, dif_neg valid]
      rfl

theorem getLast?_lowerChar {c d : Char} (large : 0x80 ≤ c.toNat)
    (last : (lowerChar c).getLast? = some d) : isPlainSign d = false := by
  unfold lowerChar at last
  rw [if_neg (by omega)] at last
  split at last
  · cases last
    rfl
  · cases found : smallLetterIn? capitals c.toNat with
    | none =>
        rw [found] at last
        cases last
        have same : Char.ofNat c.toNat = c := Char.ofNat_toNat c
        have plain := isPlainSign_ofNat (.inr large)
        rwa [same] at plain
    | some m =>
        rw [found] at last
        cases last
        exact isPlainSign_ofNat (smallLetterIn?_of_leavesAscii leavesAscii_of_mem found)

theorem lowerChar_ne_nil (c : Char) : lowerChar c ≠ [] := by
  unfold lowerChar
  split
  · simp
  · split <;> simp

/-- A text whose lower case ends in plain signs ends in them as it stands, but for the case of
ASCII letters. -/
theorem suffix_lowerAscii {ending t : Text} (plain : ∀ c ∈ ending, isPlainSign c)
    (suffix : ending <:+ lower t) : ending <:+ lowerAscii t := by
  induction t using List.reverseRecOn generalizing ending with
  | nil => exact suffix
  | append_singleton t c ih =>
      rcases List.eq_nil_or_concat ending with rfl | ⟨start, d, rfl⟩
      · exact List.nil_suffix
      · rw [List.concat_eq_append] at plain suffix ⊢
        obtain ⟨plainStart, plainLast⟩ := List.forall_mem_append.mp plain
        have split : lower (t ++ [c]) = lower t ++ lowerChar c := by simp [lower]
        have split' : lowerAscii (t ++ [c]) = lowerAscii t ++ [c.toLower] := by simp [lowerAscii]
        rw [split] at suffix
        rw [split']
        have last : (lowerChar c).getLast? = some d := by
          obtain ⟨more, whole⟩ := suffix
          have ends := congrArg List.getLast? whole
          rw [← List.append_assoc, List.getLast?_concat,
            List.getLast?_append_of_ne_nil _ (lowerChar_ne_nil c)] at ends
          exact ends.symm
        rcases Nat.lt_or_ge c.toNat 0x80 with small | large
        · have single : lowerChar c = [c.toLower] := if_pos small
          rw [single] at suffix last
          obtain rfl : c.toLower = d := Option.some.inj last
          rw [List.suffix_append_self_iff] at suffix ⊢
          exact ih plainStart suffix
        · have refused := getLast?_lowerChar large last
          rw [plainLast d (List.mem_singleton_self d)] at refused
          cases refused

end Recast.Text
