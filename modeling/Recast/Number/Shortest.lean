import Recast.Number.Binary64
import Recast.Text.Basic

/-! # The shortest decimal of a binary64 number

A finite value is written with the fewest decimal digits that read back as the
same value, and of those the nearest. Which digits is settled here by exact
integer arithmetic; how they are laid out is one record per format.
-/

namespace Recast.Binary64

/-- The positive decimal `digits · 10 ^ power`. -/
structure Decimal where
  digits : Nat
  power : Int
  deriving DecidableEq, Repr

/-- A positive value and the interval that rounds to it, as integers over one denominator. -/
structure Neighbourhood where
  value : Nat
  low : Nat
  high : Nat
  den : Nat
  /-- Do the ends of the interval round to the value too? -/
  closed : Bool

/-- The neighbourhood of `mantissa · 2 ^ exponent`, in quarters of the last place. Just
    above a power of two the lower half is only half as wide. -/
def Neighbourhood.ofFinite (mantissa : Nat) (exponent : Int) : Neighbourhood :=
  let below := if mantissa = Nat.pow 2 52 && leastExponent < exponent then 1 else 2
  let closed := mantissa % 2 == 0
  match exponent - 2 with
  | .ofNat k =>
    let unit := Nat.pow 2 k
    ⟨4 * mantissa * unit, (4 * mantissa - below) * unit, (4 * mantissa + 2) * unit, 1, closed⟩
  | .negSucc k => ⟨4 * mantissa, 4 * mantissa - below, 4 * mantissa + 2, Nat.pow 2 (k + 1), closed⟩

/-- The neighbourhood in units of `10 ^ power`. -/
def Neighbourhood.scale (v : Neighbourhood) : Int → Neighbourhood
  | .ofNat k => { v with den := v.den * Nat.pow 10 k }
  | .negSucc k =>
    let factor := Nat.pow 10 (k + 1)
    { v with value := v.value * factor, low := v.low * factor, high := v.high * factor }

/-- Does the whole number `n` lie in the interval? -/
def Neighbourhood.holds (v : Neighbourhood) (n : Nat) : Bool :=
  if v.closed then v.low ≤ n * v.den && n * v.den ≤ v.high
  else v.low < n * v.den && n * v.den < v.high

/-- Of the two whole numbers around the value, the nearer one that lies in the interval;
    of two equally near, the even one. -/
def Neighbourhood.nearest? (v : Neighbourhood) : Option Nat :=
  let below := v.value / v.den
  let above := below + 1
  let belowHolds := below != 0 && v.holds below
  match belowHolds, v.holds above with
  | true, true =>
    let twice := 2 * (v.value % v.den)
    if twice < v.den then some below
    else if v.den < twice then some above
    else some (below + below % 2)
  | true, false => some below
  | false, true => some above
  | false, false => none

/-- A power of ten not below the one of the leading digit. -/
def Neighbourhood.leadingPower (v : Neighbourhood) : Int :=
  if v.den ≤ v.value then ((Nat.toDigits 10 (v.value / v.den)).length : Int) - 1
  else 1 - (Nat.toDigits 10 (v.den / v.value)).length

/-- The first hit on grids of ever smaller powers of ten. -/
def Neighbourhood.firstHit (v : Neighbourhood) : Nat → Int → Decimal
  | 0, power => ⟨(v.scale power).value / (v.scale power).den, power⟩
  | tries + 1, power =>
    match (v.scale power).nearest? with
    | some digits => ⟨digits, power⟩
    | none => v.firstHit tries (power - 1)

/-- The digits of the shortest decimal without zeros at the end, and the power of ten of
    the first digit. -/
def shortestDigits (mantissa : Nat) (exponent : Int) : Text × Int :=
  let v := Neighbourhood.ofFinite mantissa exponent
  let decimal := v.firstHit 18 v.leadingPower
  let digits := Text.ofNat decimal.digits
  let significant := (digits.reverse.dropWhile (· = '0')).reverse
  (significant, decimal.power + digits.length - 1)

/-- How a format lays out a binary64 number. -/
structure Layout where
  /-- Positive infinity; a minus sign in front makes it negative. -/
  infinity : Text
  /-- The value that is no number. -/
  nan : Text
  /-- Stands between a mantissa of one digit and its exponent. -/
  bareMantissa : Text

/-- The exponent with its sign and at least two digits. -/
def exponentText (power : Int) : Text :=
  'e' :: (if power < 0 then '-' else '+') :: Text.ofNatPadded 2 power.natAbs

/-- Digits with the leading one at `10 ^ power`: positional from `10 ^ -4` up to below
    `10 ^ 16`, always with a digit after the point, and with an exponent elsewhere. -/
def Layout.place (layout : Layout) (digits : Text) (power : Int) : Text :=
  if power < -4 || 16 ≤ power then
    match digits with
    | [] => []
    | [d] => d :: layout.bareMantissa ++ exponentText power
    | d :: rest => d :: '.' :: rest ++ exponentText power
  else match power with
    | .ofNat k =>
      let whole := digits.take (k + 1)
      let fraction := digits.drop (k + 1)
      whole ++ Text.copies (k + 1 - whole.length) '0' ++
        '.' :: (if fraction.isEmpty then ['0'] else fraction)
    | .negSucc k => '0' :: '.' :: Text.copies k '0' ++ digits

def Layout.write (layout : Layout) : Binary64 → Text
  | .nan => layout.nan
  | .infinite negative => if negative then '-' :: layout.infinity else layout.infinity
  | .finite negative mantissa exponent =>
    let magnitude : Text :=
      if mantissa = 0 then "0.0"
      else
        let (digits, power) := shortestDigits mantissa exponent
        layout.place digits power
    if negative then '-' :: magnitude else magnitude

end Recast.Binary64
