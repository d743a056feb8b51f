import Recast.Text.Word

/-! # Replacing at word boundaries

A search from left to right that sees, at each place, the character before it and
the text from it on. What is replaced is not searched again.
-/

namespace Recast.Text

/-- Does no word run across this place from the left? -/
def startsWord (before? : Option Char) : Bool := !(before?.any isWord)

def endsWord (rest : Text) : Bool := !(rest.head?.any isWord)

/-- At each place where `hit` holds of the character before it and the text from it on,
    write `replacement` for `width` characters. `skip` counts the characters of a replaced
    place that are still to be passed. -/
def replaceHits (hit : Option Char → Text → Bool) (width : Nat) (replacement : Text) :
    Nat → Option Char → Text → Text
  | _, _, [] => []
  | skip + 1, _, c :: rest => replaceHits hit width replacement skip (some c) rest
  | 0, before?, c :: rest =>
    if hit before? (c :: rest) then
      replacement ++ replaceHits hit width replacement (width - 1) (some c) rest
    else c :: replaceHits hit width replacement 0 (some c) rest

/-- Write `replacement` for each `word` that stands alone. -/
def replaceWord (word replacement t : Text) : Text :=
  replaceHits (fun before? rest => startsWord before? && word.isPrefixOf rest
    && endsWord (rest.drop word.length)) word.length replacement 0 none t

/-- Write `replacement` for each `head` that no word runs into from the left. -/
def replaceHead (head replacement t : Text) : Text :=
  replaceHits (fun before? rest => startsWord before? && head.isPrefixOf rest)
    head.length replacement 0 none t

end Recast.Text
