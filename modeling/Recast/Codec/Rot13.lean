import Recast.Text.Basic

/-! # Rotation by thirteen letters

The ASCII letters move half the alphabet on, so that doing it twice changes
nothing.
-/

namespace Recast.Rot13

/-- Move a letter thirteen places on within its half of the case. -/
def rotate (c : Char) : Char :=
  if ('a' ≤ c && c ≤ 'm') || ('A' ≤ c && c ≤ 'M') then Char.ofNat (c.toNat + 13)
  else if ('n' ≤ c && c ≤ 'z') || ('N' ≤ c && c ≤ 'Z') then Char.ofNat (c.toNat - 13)
  else c

/-- Move every letter of a text. -/
def encode (t : Text) : Text := t.map rotate

end Recast.Rot13
