import Recast.Text.Basic

/-! # White space

The characters that trimming removes: the Unicode white space characters, with
the four information separators U+001C to U+001F counted among them.
-/

namespace Recast.Text

/-- Is the character white space? -/
def isBlank (c : Char) : Bool :=
  let n := c.toNat
  (0x09 ≤ n && n ≤ 0x0D) || (0x1C ≤ n && n ≤ 0x20) || n == 0x85 || n == 0xA0 || n == 0x1680
    || (0x2000 ≤ n && n ≤ 0x200A) || n == 0x2028 || n == 0x2029 || n == 0x202F || n == 0x205F
    || n == 0x3000

/-- Drop the white space at the start. -/
def trimLeft (t : Text) : Text := t.dropWhile isBlank

/-- Drop the white space at the end. -/
def trimRight (t : Text) : Text := (t.reverse.dropWhile isBlank).reverse

/-- Drop the white space at both ends. -/
def trim (t : Text) : Text := trimRight (trimLeft t)

/-- Does the text consist of white space alone? -/
def blank (t : Text) : Bool := t.all isBlank

/-- Drop every white space character. -/
def squeeze (t : Text) : Text := t.filter fun c => !isBlank c

/-- The maximal runs of characters other than white space. -/
def words (t : Text) : List Text :=
  go [] t
where
  /-- `word` is the run being read, last character first. -/
  go (word : Text) : Text → List Text
    | [] => if word.isEmpty then [] else [word.reverse]
    | c :: rest =>
      if isBlank c then
        if word.isEmpty then go [] rest else word.reverse :: go [] rest
      else go (c :: word) rest

end Recast.Text
