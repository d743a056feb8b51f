import Recast.Codec.Base64
import Recast.Json.Printer
import Recast.Json.Reader

/-! # Signed tokens

A token has three parts between dots: header and payload are JSON in the URL-safe
Base64 alphabet, the signature is kept as it is and not verified.
-/

namespace Recast.Token

/-- The two parts that hold JSON. -/
inductive Part where
  | header
  | payload
  deriving DecidableEq, Repr

def Part.label : Part → Text
  | .header => "header"
  | .payload => "payload"

/-- Why a part cannot be decoded. -/
inductive Cause where
  | letters (e : Base64.Error)
  | json (e : Json.Error)
  deriving DecidableEq, Repr

def Cause.message : Cause → Text
  | .letters e => e.message
  | .json e => e.message

/-- Why a text is no token. -/
inductive Error where
  | wrongPartCount
  | malformed (part : Part) (cause : Cause)
  /-- A part is nested too deeply to be read. -/
  | tooDeep (container : Json.Container)
  deriving DecidableEq, Repr

def Error.message : Error → Text
  | .wrongPartCount => "Invalid JWT: expected 3 dot-separated parts."
  | .malformed part cause => "Invalid JWT " ++ part.label ++ ": " ++ cause.message
  | .tooDeep container => (Json.Error.tooDeep container).message

/-- The plain Base64 letter for one of the URL-safe alphabet. -/
def plainLetter (c : Char) : Char :=
  if c = '-' then '+' else if c = '_' then '/' else c

/-- The JSON value of a part. The constants for numbers that are not finite are allowed. -/
def decodePart (part : Part) (t : Text) : Except Error Json := do
  let text ← (Base64.decodePadding (t.map plainLetter)).mapError
    fun e => .malformed part (.letters e)
  (Json.parseWith true text).mapError fun
    | .tooDeep container => .tooDeep container
    | e => .malformed part (.json e)

/-- The three parts of a token as one object. -/
def decode (t : Text) : Except Error Json :=
  match Text.splitOn '.' (Text.trim t) with
  | [header, payload, signature] => do
    let header ← decodePart .header header
    let payload ← decodePart .payload payload
    return .object [("header", header), ("payload", payload), ("signature", .string signature)]
  | _ => .error .wrongPartCount

end Recast.Token
