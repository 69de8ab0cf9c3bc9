/-!
# Finite binary floating-point numbers

A finite double is kept by its bits: a sign, an exponent and a fraction. Its magnitude is
`mantissa * 2 ^ exponent`. Magnitudes come from nonnegative quotients by rounding to the nearest one
that has bits, a tie going to the even mantissa; all arithmetic is exact integer arithmetic followed
by one rounding.

The text of a magnitude has the fewest digits that read back to it, and of those the nearest.
-/

namespace Siteworks

/-- A finite double. -/
structure Binary64 where
  /-- The bits: sign, exponent and fraction, from the most significant one on. -/
  bits : UInt64
  /-- The exponent field stands for a number. -/
  finite : (bits.toNat >>> 52) % 2048 ≠ 2047
  deriving DecidableEq, Repr

namespace Binary64

/-- The least mantissa of full precision, `2 ^ 52`. -/
def leadingBit : Nat := 1 <<< 52

/-- The least exponent of a magnitude. -/
def minExponent : Int := -1074

/-- The greatest exponent of a magnitude. -/
def maxExponent : Int := 971

/-- The double with the given bits, unless they stand for an infinity or for no number. -/
def ofBits? (bits : UInt64) : Option Binary64 :=
  if finite : (bits.toNat >>> 52) % 2048 ≠ 2047 then some ⟨bits, finite⟩ else none

/-- The sign bit; zero has one too. -/
def negative (x : Binary64) : Bool := x.bits.toNat >>> 63 = 1

/-- The exponent field. -/
def exponentField (x : Binary64) : Nat := (x.bits.toNat >>> 52) % 2048

/-- The fraction field. -/
def fraction (x : Binary64) : Nat := x.bits.toNat % leadingBit

/-- The integer significand: the fraction, with a leading bit unless the exponent field is zero. -/
def mantissa (x : Binary64) : Nat :=
  if x.exponentField = 0 then x.fraction else leadingBit + x.fraction

/-- The binary exponent of the significand's unit. -/
def exponent (x : Binary64) : Int := minExponent + ((x.exponentField - 1 : Nat) : Int)

/-- The double of a magnitude that has bits: the mantissa lies below `2 ^ 53`, and not below
`2 ^ 52` unless the exponent is the least one. -/
def ofScaled? (negative : Bool) (mantissa : Nat) (exponent : Int) : Option Binary64 :=
  if maxExponent < exponent then none
  else
    let sign := if negative then 1 <<< 63 else 0
    let magnitude := if mantissa < leadingBit then mantissa
      else (exponent - minExponent + 1).toNat * leadingBit + (mantissa - leadingBit)
    ofBits? (UInt64.ofNat (sign + magnitude))

/-- Positive zero, or the negative one. -/
def zero (negative : Bool) : Binary64 :=
  if negative then ⟨0x8000000000000000, by decide⟩ else ⟨0, by decide⟩

/-- The quotient rounded to the nearest integer, a tie going to the even one. -/
def roundDiv (num den : Nat) : Nat :=
  let floor := num / den
  let rest := num % den
  if 2 * rest < den then floor
  else if den < 2 * rest then floor + 1
  else floor + floor % 2

/-- The binary exponent of the unit in which a positive quotient has 53 digits, bounded below. -/
def unitExponent (num den : Nat) : Int :=
  let guess : Int := (num.log2 : Int) - den.log2 - 53
  let scaled (e : Int) : Bool :=
    if e < 0 then decide (num <<< e.natAbs < 2 * leadingBit * den)
    else decide (num < (2 * leadingBit * den) <<< e.natAbs)
  max minExponent (if scaled guess then guess else guess + 1)

/-- The double nearest to a nonnegative quotient, unless it lies beyond the greatest one. -/
def ofQuotient? (negative : Bool) (num den : Nat) : Option Binary64 :=
  if num = 0 then some (zero negative)
  else
    let e := unitExponent num den
    let m := if e < 0 then roundDiv (num <<< e.natAbs) den else roundDiv num (den <<< e.natAbs)
    let (m, e) := if m = 2 * leadingBit then (leadingBit, e + 1) else (m, e)
    ofScaled? negative m e

/-- The magnitude as a quotient. -/
def quotient (x : Binary64) : Nat × Nat :=
  if x.exponent < 0 then (x.mantissa, 1 <<< x.exponent.natAbs)
  else (x.mantissa <<< x.exponent.natAbs, 1)

/-- The rounded product, unless it overflows. -/
def mul? (x y : Binary64) : Option Binary64 :=
  let (a, b) := x.quotient
  let (c, d) := y.quotient
  ofQuotient? (x.negative != y.negative) (a * c) (b * d)

/-- The rounded quotient by a nonzero divisor, unless it overflows. -/
def div? (x y : Binary64) : Option Binary64 :=
  let (a, b) := x.quotient
  let (c, d) := y.quotient
  ofQuotient? (x.negative != y.negative) (a * d) (b * c)

/-- The least `k` with the quotient below `10 ^ k`, searched upwards from a start. -/
def decimalPlace (num den : Nat) : Nat → Int → Int
  | 0, k => k
  | steps + 1, k =>
    let below := if k < 0 then num * Nat.pow 10 k.natAbs < den else num < den * Nat.pow 10 k.natAbs
    if below then k else decimalPlace num den steps (k + 1)

/-- The decimal digits of a positive magnitude with the fewest digits that read back to it, the
nearest of those to it, and the decimal exponent `k` that puts the point before the first digit:
the text stands for `0.d₁d₂… * 10 ^ k`. -/
def shortest (x : Binary64) : List Char × Int :=
  let quarter : Int := x.exponent - 2
  let low := 4 * x.mantissa - (if x.mantissa = leadingBit ∧ minExponent < x.exponent then 1 else 2)
  let mid := 4 * x.mantissa
  let high := 4 * x.mantissa + 2
  let closed := x.mantissa % 2 = 0
  let scale (n : Nat) : Nat := if quarter < 0 then n else n <<< quarter.natAbs
  let den : Nat := if quarter < 0 then 1 <<< quarter.natAbs else 1
  let start : Int := ((scale mid).log2 : Int) - den.log2 - 1
  let place := decimalPlace (scale mid) den 400 (start * 30103 / 100000 - 1)
  let attempt (digits : Nat) : Option Nat :=
    let unit : Int := place - digits
    let up (n : Nat) : Nat := if unit < 0 then n * Nat.pow 10 unit.natAbs else n
    let den := if unit < 0 then den else den * Nat.pow 10 unit.natAbs
    let inside (d : Nat) : Bool :=
      if closed then up (scale low) ≤ d * den && d * den ≤ up (scale high)
      else up (scale low) < d * den && d * den < up (scale high)
    let target := up (scale mid)
    let floor := target / den
    if inside floor && inside (floor + 1) then some (roundDiv target den)
    else if inside floor then some floor
    else if inside (floor + 1) then some (floor + 1)
    else none
  match (List.range' 1 17).findSome? fun digits => (attempt digits).map fun d => (digits, d) with
  | some (digits, d) =>
    if d = Nat.pow 10 digits then (['1'], place + 1) else (Nat.toDigits 10 d, place)
  | none => (['0'], 1)

/-- The text of a double: positional with at least one decimal for decimal exponents from -5 to 15,
otherwise scientific with a sign at a positive exponent. -/
def text (x : Binary64) : List Char :=
  let sign := if x.negative then ['-'] else []
  if x.mantissa = 0 then sign ++ "0.0".toList
  else
    let (digits, place) := x.shortest
    let exponent := place - 1
    let count : Int := digits.length
    if exponent < -5 ∨ 15 < exponent then
      let lead := digits.take 1
      let tail := digits.drop 1
      let point := if tail.isEmpty then [] else '.' :: tail
      let mark := if exponent < 0 then ['e', '-'] else ['e', '+']
      sign ++ lead ++ point ++ mark ++ Nat.toDigits 10 exponent.natAbs
    else if place ≤ 0 then
      sign ++ "0.".toList ++ List.replicate place.natAbs '0' ++ digits
    else if count ≤ place then
      sign ++ digits ++ List.replicate (place - count).natAbs '0' ++ ".0".toList
    else
      sign ++ digits.take place.natAbs ++ ['.'] ++ digits.drop place.natAbs

end Binary64

end Siteworks
