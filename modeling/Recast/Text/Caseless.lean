import Recast.Text.Boundary

/-! # Comparison without case

Simple case folding, as far as it reaches ASCII letters: besides the capitals,
the Kelvin sign folds to `k`, the long s to `s`, and the dotted capital and the
dotless small i to `i`.
-/

namespace Recast.Text

/-- The ASCII letter that a character folds to, or the character itself. -/
def fold (c : Char) : Char :=
  match c with
  | '\u212A' => 'k'
  | '\u017F' => 's'
  | '\u0130' => 'i'
  | '\u0131' => 'i'
  | c => c.toLower

/-- What follows `start`, which is in lower case, at the beginning of a text. -/
def afterCaseless? : (start t : Text) → Option Text
  | [], t => some t
  | _ :: _, [] => none
  | s :: start, c :: t => if fold c = s then afterCaseless? start t else none

/-- Write `replacement` for each `head`, in any case, that no word runs into from the left. -/
def replaceHeadCaseless (head replacement t : Text) : Text :=
  replaceHits (fun before? rest => startsWord before? && (afterCaseless? head rest).isSome)
    head.length replacement 0 none t

end Recast.Text
