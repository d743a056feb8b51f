import Recast.Json.Reader
import Recast.Text.Utf8

/-! # Percent-encoding

Octets outside a small set of ASCII characters are written as `%` and two
hexadecimal digits, the form used in the components of an address.
-/

namespace Recast.Percent

/-- The characters that stand for themselves: letters, digits and `_.-~!*'()`. -/
def unreserved (c : Char) : Bool :=
  c.isAlphanum || "_.-~!*'()".toList.contains c

def hexDigit (n : Nat) : Char := (Nat.digitChar n).toUpper

def escape (b : UInt8) : Text := ['%', hexDigit (b.toNat / 16), hexDigit (b.toNat % 16)]

/-- A character as itself or as the escapes of its octets. -/
def encodeChar (c : Char) : Text :=
  if unreserved c then [c] else (Utf8.encodeChar c).flatMap escape

def encode (t : Text) : Text := t.flatMap encodeChar

/-- Why a text cannot be decoded. -/
inductive Error where
  /-- A `%` without two hexadecimal digits after it. -/
  | malformedEscape (position : Nat)
  | octets (e : Utf8.Error)
  deriving DecidableEq, Repr

def Error.message : Error → Text
  | .malformedEscape position => "malformed escape at position " ++ Text.ofNat position
  | .octets e => e.message

/-- The position of the first `%` without two hexadecimal digits after it. -/
def malformedFrom? (position : Nat) : Text → Option Nat
  | [] => none
  | '%' :: rest =>
    match rest with
    | a :: b :: _ =>
      if (Json.hexValue? a).isSome && (Json.hexValue? b).isSome then
        malformedFrom? (position + 1) rest
      else some position
    | _ => some position
  | _ :: rest => malformedFrom? (position + 1) rest

/-- The octets of an ASCII text whose escapes are well-formed. -/
def octets : Text → Bytes
  | [] => []
  | '%' :: a :: b :: rest =>
    match Json.hexValue? a, Json.hexValue? b with
    | some high, some low => UInt8.ofNat (high * 16 + low) :: octets rest
    | _, _ => 0x25 :: octets (a :: b :: rest)
  | c :: rest => UInt8.ofNat c.toNat :: octets rest

def isAscii (c : Char) : Bool := c.toNat < 0x80

/-- Decode each maximal run of ASCII characters by itself. `run` is the one being read, last
    character first. -/
def decodeRuns (run : Text) : Text → Except Error Text
  | [] => (Utf8.decode (octets run.reverse)).mapError .octets
  | c :: rest =>
    if isAscii c then decodeRuns (c :: run) rest
    else do
      let decoded ← (Utf8.decode (octets run.reverse)).mapError .octets
      let others ← decodeRuns [] rest
      return decoded ++ c :: others

/-- The text of a percent-encoded form. -/
def decode (t : Text) : Except Error Text :=
  match malformedFrom? 0 t with
  | some position => .error (.malformedEscape position)
  | none => decodeRuns [] t

end Recast.Percent
