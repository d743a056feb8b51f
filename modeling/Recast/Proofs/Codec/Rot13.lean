import Recast.Codec.Rot13
import Recast.Proofs.Text.Blank

/-! # Rotating twice

Only letters are moved, each to a letter of its case, and a second rotation moves it back.
-/

namespace Recast.Rot13

theorem rotate_of_le {c : Char} (foreign : 0x80 ≤ c.toNat) : rotate c = c := by
  have above (limit : Char) (small : limit.toNat < 0x80) : ¬ c ≤ limit := by
    intro below
    have : c.toNat ≤ limit.toNat := below
    omega
  rw [rotate, if_neg, if_neg]
  · simp [above 'z' (by decide), above 'Z' (by decide)]
  · simp [above 'm' (by decide), above 'M' (by decide)]

theorem rotate_ascii {c : Char} (ascii : c.toNat < 0x80) :
    rotate (rotate c) = c ∧ Text.isBlank (rotate c) = Text.isBlank c :=
  Text.of_toNat_lt c ascii (by decide)

theorem rotate_rotate (c : Char) : rotate (rotate c) = c := by
  by_cases ascii : c.toNat < 0x80
  · exact (rotate_ascii ascii).1
  · have foreign : 0x80 ≤ c.toNat := by omega
    rw [rotate_of_le foreign, rotate_of_le foreign]

theorem isBlank_rotate (c : Char) : Text.isBlank (rotate c) = Text.isBlank c := by
  by_cases ascii : c.toNat < 0x80
  · exact (rotate_ascii ascii).2
  · rw [rotate_of_le (by omega)]

theorem encode_encode (t : Text) : encode (encode t) = t := by
  rw [encode, encode, List.map_map]
  exact (List.map_congr_left fun c _ => rotate_rotate c).trans (List.map_id t)

theorem blank_encode (t : Text) : Text.blank (encode t) = Text.blank t := by
  rw [Text.blank, encode, List.all_map, Text.blank]
  exact congrArg t.all (funext isBlank_rotate)

end Recast.Rot13
