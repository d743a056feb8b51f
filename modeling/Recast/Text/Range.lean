import Recast.Text.Basic

/-! # Ranges of code points

Character classes beyond ASCII are tables of ranges in ascending order.
-/

namespace Recast.Text

/-- Ranges of code points, both ends included, in ascending order without overlap. -/
abbrev Ranges := List (Nat × Nat)

/-- Does some range hold the code point? The search stops at the first range above it. -/
def Ranges.holds : Ranges → Nat → Bool
  | [], _ => false
  | (low, high) :: rest, n =>
    if n < low then false else if n ≤ high then true else Ranges.holds rest n

end Recast.Text
