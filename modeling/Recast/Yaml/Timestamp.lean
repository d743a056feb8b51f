import Recast.Text.Basic

/-! # Timestamps

Dates, alone or with a time of day, in the forms in which documents spell them.
-/

namespace Recast.Yaml

/-- An offset from universal time as it is written: `Z`, or a sign, hours and minutes. -/
inductive Offset where
  | universal
  | shifted (isWest : Bool) (hours minutes : Text)
  deriving DecidableEq, Repr

/-- A time of day as it is written. -/
structure TimeOfDay where
  hour : Text
  minute : Text
  second : Text
  fraction? : Option Text
  offset? : Option Offset
  deriving DecidableEq, Repr

/-- A timestamp as it is written: the parts are digits. -/
structure Timestamp where
  year : Text
  month : Text
  day : Text
  time? : Option TimeOfDay
  deriving DecidableEq, Repr

namespace Timestamp

/-- At least `least` and at most two digits, and what follows them. -/
def readDigits? (least : Nat) (t : Text) : Option (Text × Text) :=
  let digits := (t.take 2).takeWhile Char.isDigit
  if digits.length < least then none else some (digits, t.drop digits.length)

/-- A space or tab. -/
def isGap (c : Char) : Bool := c == ' ' || c == '\t'

/-- The text after what parts the date from the time. -/
def afterGap? : Text → Option Text
  | c :: rest =>
    if c = 'T' || c = 't' then some rest
    else if isGap c then some (rest.dropWhile isGap)
    else none
  | [] => none

def readOffset? : Text → Option Offset
  | ['Z'] => some .universal
  | c :: rest => do
    let isWest ← if c = '-' then some true else if c = '+' then some false else none
    let (hours, rest) ← readDigits? 1 rest
    match rest with
    | [] => return .shifted isWest hours []
    | ':' :: rest =>
      let (minutes, rest) ← readDigits? 2 rest
      if rest.isEmpty then return .shifted isWest hours minutes else none
    | _ => none
  | [] => none

def readTime? (t : Text) : Option TimeOfDay := do
  let (hour, rest) ← readDigits? 1 t
  let rest ← Text.after? ":" rest
  let (minute, rest) ← readDigits? 2 rest
  let rest ← Text.after? ":" rest
  let (second, rest) ← readDigits? 2 rest
  let (fraction?, rest) : Option Text × Text := match rest with
    | '.' :: rest => (some (rest.takeWhile Char.isDigit), rest.dropWhile Char.isDigit)
    | rest => (none, rest)
  if rest.isEmpty then return { hour, minute, second, fraction?, offset? := none }
  else
    let offset ← readOffset? (rest.dropWhile isGap)
    return { hour, minute, second, fraction?, offset? := some offset }

def ofText? (t : Text) : Option Timestamp := do
  let year := t.take 4
  if year.length = 4 && year.all Char.isDigit then
    let rest ← Text.after? "-" (t.drop 4)
    let (month, rest) ← readDigits? 1 rest
    let rest ← Text.after? "-" rest
    let (day, rest) ← readDigits? 1 rest
    if rest.isEmpty then return { year, month, day, time? := none }
    else
      let rest ← afterGap? rest
      return { year, month, day, time? := some (← readTime? rest) }
  else none

/-- Is it spelled so that it needs no tag? A date alone has two digits each for month and
    day. -/
def isPlain (s : Timestamp) : Bool :=
  s.time?.isSome || (s.month.length = 2 && s.day.length = 2)

end Timestamp
end Recast.Yaml
