import Recast.Json.Printer
import Recast.Proofs.Json.Token

/-! # Strings as they are written

What is written between quotes reads back as the string, character by character. It stays on
one line.
-/

namespace Recast.Json

theorem hexValue4?_control : ∀ n < 0x20,
    hexValue4? '0' '0' (hexDigit (n / 16)) (hexDigit (n % 16)) = some n := by
  decide

theorem charOfCode_of_control {c : Char} (control : c.toNat < 0x20) : charOfCode c.toNat = c := by
  have high : isHighSurrogate c.toNat = false := by simp [isHighSurrogate]; omega
  have low : isLowSurrogate c.toNat = false := by simp [isLowSurrogate]; omega
  rw [charOfCode, high, low, Bool.or_false, if_neg Bool.false_ne_true, Char.ofNat_toNat]

/-- A character is written as one piece, which stands for that character. -/
theorem exists_piece (c : Char) : ∃ piece,
    (∀ raw pieces, Spells raw pieces → Spells (escapeChar c ++ raw) (piece :: pieces)) ∧
      ∀ pieces, joinPieces none (piece :: pieces) = c :: joinPieces none pieces := by
  unfold escapeChar
  split
  case h_8 _ quote backslash _ _ _ _ _ =>
    by_cases control : c.toNat < 0x20
    · rw [if_pos control]
      refine ⟨.code c.toNat, fun raw pieces rest => .code (hexValue4?_control _ control) rest,
        fun pieces => ?_⟩
      have high : isHighSurrogate c.toNat = false := by simp [isHighSurrogate]; omega
      rw [joinPieces]
      simp only [high, Bool.false_eq_true, if_false]
      rw [charOfCode_of_control control]
    · rw [if_neg control]
      exact ⟨.plain c, fun raw pieces rest => .plain quote backslash (Nat.not_lt.mp control) rest,
        fun pieces => rfl⟩
  all_goals exact ⟨.plain _, fun raw pieces rest => .escape rfl rest, fun pieces => rfl⟩

/-- The characters between the quotes spell the string. -/
theorem exists_spells (s : Text) :
    ∃ pieces, Spells (s.flatMap escapeChar) pieces ∧ joinPieces none pieces = s := by
  induction s with
  | nil => exact ⟨[], .nil, rfl⟩
  | cons c s ih =>
      obtain ⟨pieces, spelled, same⟩ := ih
      obtain ⟨piece, here, value⟩ := exists_piece c
      exact ⟨piece :: pieces, here _ _ spelled, by rw [value, same]⟩

theorem readString_quoted (s after : Text) (start : Nat) :
    readString start (s.flatMap escapeChar ++ '"' :: after) = .ok (s, after) := by
  obtain ⟨pieces, spelled, same⟩ := exists_spells s
  rw [readString_of_spells spelled, same]

/-! ## Written on one line -/

theorem single_escapeChar (c : Char) : '\n' ∉ escapeChar c := by
  have digits : ∀ n < 16, hexDigit n ≠ '\n' := by decide
  unfold escapeChar
  split
  case h_8 _ _ _ feed _ _ _ _ =>
    split
    · rename_i control
      have high := digits (c.toNat / 16) (by omega)
      have low := digits (c.toNat % 16) (by omega)
      simp [high.symm, low.symm]
    · rw [List.mem_singleton]
      exact fun same => feed same.symm
  all_goals decide

theorem single_quote (s : Text) : '\n' ∉ quote s := by
  simp only [quote, List.cons_append, List.mem_cons, List.mem_append, List.mem_flatMap,
    List.not_mem_nil, or_false, not_or, not_exists, not_and]
  exact ⟨by decide, fun c _ => single_escapeChar c, by decide⟩

end Recast.Json
