/-! # Text

A text is the list of its characters, so lengths and positions count code
points. Everything the library reads or writes is a `Text`; literals are coerced.
-/

namespace Recast

/-- A text: its characters in order. -/
abbrev Text := List Char

/-- A literal may stand where a text is expected. -/
instance : Coe String Text := ⟨String.toList⟩

instance : LawfulBEq Text := inferInstance

namespace Text

/-- The parts in order, with `sep` between neighbours. -/
def join (sep : Text) : List Text → Text
  | [] => []
  | [part] => part
  | part :: parts => part ++ sep ++ join sep parts

/-- The pieces between the occurrences of `c`, one more than there are occurrences. -/
def splitOn (c : Char) : Text → List Text
  | [] => [[]]
  | d :: rest =>
    if d = c then [] :: splitOn c rest
    else match splitOn c rest with
      | [] => [[d]]
      | piece :: pieces => (d :: piece) :: pieces

/-- The text before the first `c` and the text after it, when there is one. -/
def cutAt? (c : Char) : Text → Option (Text × Text)
  | [] => none
  | d :: rest =>
    if d = c then some ([], rest)
    else (cutAt? c rest).map fun (before, after) => (d :: before, after)

/-- What follows `start`, when the text begins with it. -/
def after? (start : Text) (t : Text) : Option Text :=
  start.isPrefixOf? t

/-- The text before the first occurrence of `mark` and the text after it. -/
def cutAtText? (mark : Text) : Text → Option (Text × Text)
  | [] => if mark.isEmpty then some ([], []) else none
  | c :: rest =>
    match after? mark (c :: rest) with
    | some tail => some ([], tail)
    | none => (cutAtText? mark rest).map fun (before, tail) => (c :: before, tail)

/-- Does `part` occur somewhere in the text? -/
def hasPart (part t : Text) : Bool :=
  (cutAtText? part t).isSome

/-- `contains` for the end of a text. -/
def endsWith (ending t : Text) : Bool :=
  ending.reverse.isPrefixOf t.reverse

/-- Write `after` for every occurrence of `before`, from left to right without
    overlap; `skip` counts the characters of an occurrence still to be passed. -/
def replaceAux (before after : Text) : Nat → Text → Text
  | _, [] => []
  | skip + 1, _ :: rest => replaceAux before after skip rest
  | 0, c :: rest =>
    if !before.isEmpty && before.isPrefixOf (c :: rest) then
      after ++ replaceAux before after (before.length - 1) rest
    else c :: replaceAux before after 0 rest

/-- Write `after` for every occurrence of `before`. -/
def replace (before after : Text) (t : Text) : Text :=
  replaceAux before after 0 t

/-- `n` copies of `c`. -/
abbrev copies (n : Nat) (c : Char) : Text := List.replicate n c

/-- `n` copies of a text, one after the other. -/
def times (n : Nat) (t : Text) : Text :=
  (List.replicate n t).flatten

/-- A number in decimal digits. -/
def ofNat (n : Nat) : Text := Nat.toDigits 10 n

/-- An integer in decimal digits, with a minus sign when it is negative. -/
def ofInt : Int → Text
  | .ofNat n => ofNat n
  | .negSucc n => '-' :: ofNat (n + 1)

/-- A number in at least `width` decimal digits, filled with zeros on the left. -/
def ofNatPadded (width n : Nat) : Text :=
  let digits := ofNat n
  copies (width - digits.length) '0' ++ digits

/-- Letters `A` to `Z` in lower case; every other character stays. -/
def lowerAscii (t : Text) : Text := t.map Char.toLower

/-- Compare two texts by code points, a proper beginning coming first. -/
def le : Text → Text → Bool
  | [], _ => true
  | _ :: _, [] => false
  | a :: s, b :: t => a.toNat < b.toNat || (a = b && le s t)

/-- Lines end at a line feed, a carriage return or both; all become line feeds. -/
def universalNewlines : Text → Text
  | [] => []
  | '\r' :: '\n' :: rest => '\n' :: universalNewlines rest
  | '\r' :: rest => '\n' :: universalNewlines rest
  | c :: rest => c :: universalNewlines rest

/-- The longest beginning whose characters satisfy `p`, and the rest. -/
abbrev spanWhile (p : Char → Bool) (t : Text) : Text × Text :=
  (t.takeWhile p, t.dropWhile p)

end Text
end Recast
