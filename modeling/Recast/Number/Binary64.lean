/-! # Binary64 numbers

The values of the 64-bit binary floating-point format, kept exactly: a finite
value is a signed mantissa times a power of two. Rounding is to nearest, a tie
going to the even mantissa, and is done once, on an exact ratio.
-/

namespace Recast

/-- A binary64 value. The mantissa of a finite one is below `2 ^ 53`, and at least
    `2 ^ 52` unless the exponent is the least one, `-1074`. -/
inductive Binary64 where
  /-- `± mantissa · 2 ^ exponent`; zero has a sign as well. -/
  | finite (negative : Bool) (mantissa : Nat) (exponent : Int)
  | infinite (negative : Bool)
  | nan
  deriving DecidableEq, Repr, Inhabited

namespace Binary64

def leastExponent : Int := -1074

def greatestExponent : Int := 971

def zero (negative : Bool) : Binary64 := .finite negative 0 leastExponent

/-- The whole number nearest to `num / den`, of two equally near the even one. -/
def roundEven (num den : Nat) : Nat :=
  let quotient := num / den
  let twice := 2 * (num % den)
  if twice < den then quotient
  else if den < twice then quotient + 1
  else quotient + quotient % 2

-- Powers are written out: what `^` stands for depends on what is imported.

/-- `num / den` in units of `2 ^ exponent`, as a ratio of its own. -/
def inUnits (num den : Nat) : Int → Nat × Nat
  | .ofNat k => (num, den * Nat.pow 2 k)
  | .negSucc k => (num * Nat.pow 2 (k + 1), den)

/-- The value nearest to `num / den`. -/
def ofRatio (negative : Bool) (num den : Nat) : Binary64 :=
  if num = 0 then zero negative
  else
    let estimate : Int := (num.log2 : Int) - den.log2 - 53
    let (n, d) := inUnits num den estimate
    let exponent := max (if n / d < Nat.pow 2 53 then estimate else estimate + 1) leastExponent
    let (n, d) := inUnits num den exponent
    let mantissa := roundEven n d
    let (mantissa, exponent) :=
      if mantissa = Nat.pow 2 53 then (Nat.pow 2 52, exponent + 1) else (mantissa, exponent)
    if greatestExponent < exponent then .infinite negative else .finite negative mantissa exponent

/-- The value nearest to `digits · 10 ^ power`. Magnitudes far outside the range are
    settled by their number of digits alone. -/
def ofDecimal (negative : Bool) (digits : Nat) (power : Int) : Binary64 :=
  if digits = 0 then zero negative
  else
    let places : Int := (Nat.toDigits 10 digits).length + power
    if 400 < places then .infinite negative
    else if places < -400 then zero negative
    else match power with
      | .ofNat k => ofRatio negative (digits * Nat.pow 10 k) 1
      | .negSucc k => ofRatio negative digits (Nat.pow 10 (k + 1))

/-- The value nearest to an integer. -/
def ofInt (n : Int) : Binary64 := ofRatio (n < 0) n.natAbs 1

/-- The value with the other sign. -/
def neg : Binary64 → Binary64
  | .finite negative mantissa exponent => .finite (!negative) mantissa exponent
  | .infinite negative => .infinite (!negative)
  | .nan => .nan

/-- The signed mantissa of a finite value, in units of `2 ^ unit` for a `unit` not above
    the exponent. -/
def signedIn (unit : Int) (negative : Bool) (mantissa : Nat) (exponent : Int) : Int :=
  let magnitude : Int := (mantissa * Nat.pow 2 (exponent - unit).toNat : Nat)
  if negative then -magnitude else magnitude

/-- A signed number of units of `2 ^ unit`, rounded. -/
def ofUnits (count unit : Int) : Binary64 :=
  match unit with
  | .ofNat k => ofRatio (count < 0) (count.natAbs * Nat.pow 2 k) 1
  | .negSucc k => ofRatio (count < 0) count.natAbs (Nat.pow 2 (k + 1))

/-- The rounded sum. -/
def add : Binary64 → Binary64 → Binary64
  | .nan, _ | _, .nan => .nan
  | .infinite s, .infinite t => if s = t then .infinite s else .nan
  | .infinite s, _ | _, .infinite s => .infinite s
  | .finite s m e, .finite t n f =>
    let unit := min e f
    let sum := signedIn unit s m e + signedIn unit t n f
    if sum = 0 then zero (s && t) else ofUnits sum unit

/-- The rounded product. -/
def mul : Binary64 → Binary64 → Binary64
  | .nan, _ | _, .nan => .nan
  | .infinite s, .infinite t => .infinite (s != t)
  | .infinite s, .finite t n _ | .finite t n _, .infinite s =>
    if n = 0 then .nan else .infinite (s != t)
  | .finite s m e, .finite t n f =>
    match e + f with
    | .ofNat k => ofRatio (s != t) (m * n * Nat.pow 2 k) 1
    | .negSucc k => ofRatio (s != t) (m * n) (Nat.pow 2 (k + 1))

/-- Is the value zero, of either sign? -/
def isZero : Binary64 → Bool
  | .finite _ mantissa _ => mantissa == 0
  | _ => false

/-- Is the value neither infinite nor NaN? -/
def isFinite : Binary64 → Bool
  | .finite .. => true
  | _ => false

/-- The integer that the value is, when it is one. -/
def toInt? : Binary64 → Option Int
  | .finite negative mantissa exponent =>
    let magnitude? : Option Nat := match exponent with
      | .ofNat k => some (mantissa * Nat.pow 2 k)
      | .negSucc k =>
        let unit := Nat.pow 2 (k + 1)
        if mantissa % unit = 0 then some (mantissa / unit) else none
    magnitude?.map fun magnitude => if negative then -(magnitude : Int) else magnitude
  | _ => none

/-- Is the value a whole number? -/
def isIntegral (x : Binary64) : Bool := x.toInt?.isSome

end Binary64
end Recast
