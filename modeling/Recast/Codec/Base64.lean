import Recast.Text.Blank
import Recast.Text.Utf8

/-! # Base64

Groups of three octets as four letters of a 64-letter alphabet, the last group
filled up with `=`. Decoding text forgives white space and lost padding only.
-/

namespace Recast.Base64

/-- The letter of a number below 64. -/
def letter (n : Nat) : Char :=
  if n < 26 then Char.ofNat ('A'.toNat + n)
  else if n < 52 then Char.ofNat ('a'.toNat + (n - 26))
  else if n < 62 then Char.ofNat ('0'.toNat + (n - 52))
  else if n = 62 then '+' else '/'

/-- The number of a letter. -/
def value? (c : Char) : Option Nat :=
  if 'A' ≤ c && c ≤ 'Z' then some (c.toNat - 'A'.toNat)
  else if 'a' ≤ c && c ≤ 'z' then some (c.toNat - 'a'.toNat + 26)
  else if '0' ≤ c && c ≤ '9' then some (c.toNat - '0'.toNat + 52)
  else if c = '+' then some 62
  else if c = '/' then some 63
  else none

/-- The letters of some octets. -/
def encodeBytes : Bytes → Text
  | [] => []
  | [a] => [letter (a.toNat / 4), letter (a.toNat % 4 * 16), '=', '=']
  | [a, b] =>
    [letter (a.toNat / 4), letter (a.toNat % 4 * 16 + b.toNat / 16), letter (b.toNat % 16 * 4), '=']
  | a :: b :: c :: rest =>
    letter (a.toNat / 4) :: letter (a.toNat % 4 * 16 + b.toNat / 16)
      :: letter (b.toNat % 16 * 4 + c.toNat / 64) :: letter (c.toNat % 64) :: encodeBytes rest

/-- Why letters are no Base64. -/
inductive Fault where
  | notAscii
  | leadingPadding
  | excessData
  | foreignCharacter
  | discontinuousPadding
  /-- One letter more than a multiple of four. -/
  | loneCharacter (count : Nat)
  | incorrectPadding
  deriving DecidableEq, Repr

def Fault.message : Fault → Text
  | .notAscii => "string argument should contain only ASCII characters"
  | .leadingPadding => "Leading padding not allowed"
  | .excessData => "Excess data after padding"
  | .foreignCharacter => "Only base64 data is allowed"
  | .discontinuousPadding => "Discontinuous padding not allowed"
  | .loneCharacter count =>
    "Invalid base64-encoded string: number of data characters (" ++ Text.ofNat count
      ++ ") cannot be 1 more than a multiple of 4"
  | .incorrectPadding => "Incorrect padding"

/-- Where decoding stands: the letters read so far, how many of the current group, the bits
    left over from its last letter, and the padding read after it. -/
structure State where
  letters : Nat := 0
  inGroup : Nat := 0
  left : Nat := 0
  padding : Nat := 0
  padded : Bool := false

/-- The octet completed by the next letter of a group, if it completes one, and the bits left
    over then. -/
def regroup (inGroup left value : Nat) : List UInt8 × Nat :=
  match inGroup with
  | 0 => ([], value)
  | 1 => ([UInt8.ofNat (left * 4 + value / 16)], value % 16)
  | 2 => ([UInt8.ofNat (left * 16 + value / 4)], value % 4)
  | _ => ([UInt8.ofNat (left * 64 + value)], 0)

/-- Decode letters. Padding that completes a group ends the text. -/
def decodeFrom (s : State) : Text → Except Fault Bytes
  | [] =>
    if s.inGroup = 0 then .ok []
    else if s.inGroup = 1 then .error (.loneCharacter s.letters)
    else .error .incorrectPadding
  | c :: rest =>
    if c = '=' then
      if 2 ≤ s.inGroup then
        if 4 ≤ s.inGroup + s.padding + 1 then
          if rest.isEmpty then .ok [] else .error .excessData
        else decodeFrom { s with padding := s.padding + 1, padded := true } rest
      else decodeFrom { s with padded := true } rest
    else match value? c with
      | none => .error .foreignCharacter
      | some value =>
        if s.padded then .error .discontinuousPadding
        else do
          let (octets, left) := regroup s.inGroup s.left value
          let bytes ← decodeFrom
            { s with letters := s.letters + 1, inGroup := (s.inGroup + 1) % 4, left, padding := 0 }
            rest
          return octets ++ bytes

/-- Decode padded letters. -/
def decodeBytes (t : Text) : Except Fault Bytes :=
  if t.any fun c => 0x80 ≤ c.toNat then .error .notAscii
  else if t.head? = some '=' then .error .leadingPadding
  else decodeFrom {} t

/-- Fill up with `=` to a multiple of four. -/
def pad (t : Text) : Text := t ++ Text.copies ((4 - t.length % 4) % 4) '='

/-- Would the letters be whole groups if every foreign character were passed over? `padding`
    is the padding since the last letter of the group. -/
def isLoose (inGroup padding : Nat) : Text → Bool
  | [] => inGroup == 0
  | c :: rest =>
    if c = '=' then
      if 2 ≤ inGroup then
        4 ≤ inGroup + padding + 1 || isLoose inGroup (padding + 1) rest
      else isLoose inGroup padding rest
    else if (value? c).isSome then isLoose ((inGroup + 1) % 4) 0 rest
    else isLoose inGroup padding rest

/-- Why a text cannot be decoded. -/
inductive Error where
  | letters (fault : Fault)
  | octets (e : Utf8.Error)
  deriving DecidableEq, Repr

def Error.message : Error → Text
  | .letters fault => fault.message
  | .octets e => e.message

/-- The Base64 form of a text. -/
def encode (t : Text) : Text := encodeBytes (Utf8.encode t)

/-- Decode letters that may lack their padding. -/
def decodePadding (t : Text) : Except Error Text := do
  let bytes ← (decodeBytes (pad t)).mapError .letters
  (Utf8.decode bytes).mapError .octets

/-- The text of a Base64 form, white space and lost padding forgiven. -/
def decode (t : Text) : Except Error Text := decodePadding (Text.squeeze t)

end Recast.Base64
