import Recast.Yaml.Timestamp

/-! # Dates and times

Timestamps that name a day of the calendar, with a time of day if they have one.
They are written in full, year first.
-/

namespace Recast.Yaml

/-- A day of the calendar. -/
structure Date where
  year : Nat
  month : Nat
  day : Nat
  deriving DecidableEq, Repr

/-- A day with a time of day. The offset from universal time counts minutes to the east. -/
structure Instant where
  date : Date
  hour : Nat
  minute : Nat
  second : Nat
  micro : Nat
  offset? : Option Int
  deriving DecidableEq, Repr

/-- Why a timestamp names no day or time. -/
inductive DateFault where
  | year (n : Nat)
  | month
  | day
  | hour
  | minute
  | second
  /-- An offset of a day or more, in minutes. -/
  | offset (minutes : Int)
  deriving DecidableEq, Repr

/-- A span of time, as messages show it. -/
def spanText (minutes : Int) : Text :=
  let days := minutes / 1440
  let seconds := minutes % 1440 * 60
  "datetime.timedelta(days=" ++ Text.ofInt days
    ++ (if seconds = 0 then [] else (", seconds=" : Text) ++ Text.ofInt seconds) ++ [')']

def DateFault.message : DateFault → Text
  | .year n => "year " ++ Text.ofNat n ++ " is out of range"
  | .month => "month must be in 1..12"
  | .day => "day is out of range for month"
  | .hour => "hour must be in 0..23"
  | .minute => "minute must be in 0..59"
  | .second => "second must be in 0..59"
  | .offset minutes =>
    "offset must be a timedelta strictly between -timedelta(hours=24) and timedelta(hours=24), not "
      ++ spanText minutes ++ ['.']

namespace Date

def isLeap (year : Nat) : Bool := year % 4 == 0 && (year % 100 != 0 || year % 400 == 0)

def daysIn (year month : Nat) : Nat :=
  if month = 2 then if isLeap year then 29 else 28
  else if month ∈ [4, 6, 9, 11] then 30 else 31

def fault? (d : Date) : Option DateFault :=
  if d.year = 0 then some (.year d.year)
  else if d.month = 0 || 12 < d.month then some .month
  else if d.day = 0 || daysIn d.year d.month < d.day then some .day
  else none

/-- Year, month and day. -/
def write (d : Date) : Text :=
  Text.ofNatPadded 4 d.year ++ '-' :: Text.ofNatPadded 2 d.month
    ++ '-' :: Text.ofNatPadded 2 d.day

/-- The number of days before a date, counted from the first year. -/
def dayNumber (d : Date) : Nat :=
  let past := d.year - 1
  let before := past * 365 + past / 4 - past / 100 + past / 400
  (List.range (d.month - 1)).foldl (fun days m => days + daysIn d.year (m + 1)) before + d.day

end Date

namespace Instant

/-- The first fault of a time of day. -/
def fault? (i : Instant) : Option DateFault :=
  if 23 < i.hour then some .hour
  else if 59 < i.minute then some .minute
  else if 59 < i.second then some .second
  else none

/-- The offset as a sign, hours and minutes. -/
def offsetText (minutes : Int) : Text :=
  (if minutes < 0 then '-' else '+') :: Text.ofNatPadded 2 (minutes.natAbs / 60)
    ++ ':' :: Text.ofNatPadded 2 (minutes.natAbs % 60)

/-- Date and time with `mark` between them; a fraction of a second only when there is one. -/
def write (mark : Char) (i : Instant) : Text :=
  i.date.write ++ mark :: Text.ofNatPadded 2 i.hour ++ ':' :: Text.ofNatPadded 2 i.minute
    ++ ':' :: Text.ofNatPadded 2 i.second
    ++ (if i.micro = 0 then [] else '.' :: Text.ofNatPadded 6 i.micro)
    ++ (i.offset?.map offsetText).getD []

/-- Microseconds of universal time, for an instant whose offset is known. -/
def moment? (i : Instant) : Option Int :=
  i.offset?.map fun offset =>
    let minutes : Int := (i.date.dayNumber * 24 + i.hour) * 60 + i.minute
    ((minutes - offset) * 60 + i.second) * 1000000 + i.micro

/-- Are two instants the same moment? One with an offset is none without. -/
def same (i j : Instant) : Bool :=
  match i.moment?, j.moment? with
  | some m, some n => m == n
  | none, none => i == j
  | _, _ => false

end Instant

namespace Timestamp

def number (digits : Text) : Nat := Nat.ofDigitChars 10 digits 0

def date (s : Timestamp) : Date := ⟨number s.year, number s.month, number s.day⟩

/-- Microseconds from the digits of a fraction: six count. -/
def micro (fraction? : Option Text) : Nat :=
  let digits := (fraction?.getD []).take 6
  number (digits ++ Text.copies (6 - digits.length) '0')

def minutes : Offset → Int
  | .universal => 0
  | .shifted isWest hours minutes =>
    let total : Int := number hours * 60 + number minutes
    if isWest then -total else total

/-- The day, or the instant, that a timestamp names. -/
def toDate (s : Timestamp) : Except DateFault (Date ⊕ Instant) :=
  match s.time? with
  | none => match s.date.fault? with
    | some fault => .error fault
    | none => .ok (.inl s.date)
  | some time =>
    let offset? := time.offset?.map minutes
    let instant : Instant :=
      { date := s.date, hour := number time.hour, minute := number time.minute,
        second := number time.second, micro := micro time.fraction?, offset? }
    match offset?.filter fun minutes => 1440 ≤ minutes.natAbs with
    | some minutes => .error (.offset minutes)
    | none => match s.date.fault?.or instant.fault? with
      | some fault => .error fault
      | none => .ok (.inr instant)

end Timestamp
end Recast.Yaml
