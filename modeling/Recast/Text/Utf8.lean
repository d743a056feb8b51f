import Recast.Text.Basic

/-! # UTF-8

Characters as octets and back. Decoding is strict: over-long forms, surrogates and
values past U+10FFFF are refused at the first octet that rules the text out.
-/

namespace Recast

/-- Octets in order. -/
abbrev Bytes := List UInt8

namespace Utf8

def encodeChar (c : Char) : Bytes :=
  let n := c.toNat
  let byte (n : Nat) : UInt8 := UInt8.ofNat n
  if n < 0x80 then [byte n]
  else if n < 0x800 then [byte (0xC0 + n / 64), byte (0x80 + n % 64)]
  else if n < 0x10000 then
    [byte (0xE0 + n / 4096), byte (0x80 + n / 64 % 64), byte (0x80 + n % 64)]
  else
    [byte (0xF0 + n / 262144), byte (0x80 + n / 4096 % 64), byte (0x80 + n / 64 % 64),
      byte (0x80 + n % 64)]

def encode (t : Text) : Bytes := t.flatMap encodeChar

/-- What is wrong with a sequence of octets. -/
inductive Fault where
  | invalidStart
  | invalidContinuation
  | unexpectedEnd
  deriving DecidableEq, Repr

/-- Where decoding stops: the octets from `start` up to `stop`, the first one being `byte`. -/
structure Error where
  fault : Fault
  byte : UInt8
  start : Nat
  stop : Nat
  deriving DecidableEq, Repr

def Fault.message : Fault → Text
  | .invalidStart => "invalid start byte"
  | .invalidContinuation => "invalid continuation byte"
  | .unexpectedEnd => "unexpected end of data"

def Error.message (e : Error) : Text :=
  let place : Text :=
    if e.stop = e.start + 1 then
      let digits := Nat.toDigits 16 e.byte.toNat
      "byte 0x" ++ Text.copies (2 - digits.length) '0' ++ digits ++ " in position "
        ++ Text.ofNat e.start
    else "bytes in position " ++ Text.ofNat e.start ++ ['-'] ++ Text.ofNat (e.stop - 1)
  "'utf-8' codec can't decode " ++ place ++ ": " ++ e.fault.message

/-- How many octets follow a first octet, and the least and greatest value of the second. -/
def follow? (b : UInt8) : Option (Nat × UInt8 × UInt8) :=
  if b < 0x80 then some (0, 0x80, 0xBF)
  else if 0xC2 ≤ b && b ≤ 0xDF then some (1, 0x80, 0xBF)
  else if b == 0xE0 then some (2, 0xA0, 0xBF)
  else if b == 0xED then some (2, 0x80, 0x9F)
  else if 0xE1 ≤ b && b ≤ 0xEF then some (2, 0x80, 0xBF)
  else if b == 0xF0 then some (3, 0x90, 0xBF)
  else if 0xF1 ≤ b && b ≤ 0xF3 then some (3, 0x80, 0xBF)
  else if b == 0xF4 then some (3, 0x80, 0x8F)
  else none

/-- The bits that a first octet contributes. -/
def leadBits (count : Nat) (b : UInt8) : Nat :=
  match count with
  | 0 => b.toNat
  | 1 => b.toNat - 0xC0
  | 2 => b.toNat - 0xE0
  | _ => b.toNat - 0xF0

/-- Decode octets. `position` is the place of the next octet. Between characters `owed` is
    zero; inside one it is the number of octets that are still to come, `value` holds the bits
    so far, `low` and `high` bound the next octet, and `lead` and `start` recall the first. -/
def decodeFrom (position owed value : Nat) (low high lead : UInt8) (start : Nat) :
    Bytes → Except Error Text
  | [] =>
    if owed = 0 then .ok [] else .error ⟨.unexpectedEnd, lead, start, position⟩
  | b :: rest =>
    if owed = 0 then
      match follow? b with
      | none => .error ⟨.invalidStart, b, position, position + 1⟩
      | some (0, _, _) => do
        let t ← decodeFrom (position + 1) 0 0 low high b position rest
        return Char.ofNat b.toNat :: t
      | some (count, low, high) =>
        decodeFrom (position + 1) count (leadBits count b) low high b position rest
    else if low ≤ b && b ≤ high then
      let value := value * 64 + (b.toNat - 0x80)
      if owed = 1 then do
        let t ← decodeFrom (position + 1) 0 0 0x80 0xBF b (position + 1) rest
        return Char.ofNat value :: t
      else decodeFrom (position + 1) (owed - 1) value 0x80 0xBF lead start rest
    else .error ⟨.invalidContinuation, lead, start, position⟩

def decode (bytes : Bytes) : Except Error Text :=
  decodeFrom 0 0 0 0x80 0xBF 0 0 bytes

end Utf8
end Recast
