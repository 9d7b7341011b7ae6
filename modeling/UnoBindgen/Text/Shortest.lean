import UnoBindgen.Text.Numeral

/-!
# Shortest decimal fractions

Decimal fractions are kept by machines as whole multiples of powers of two with fifty-three
significant bits.  `Decimal.nearest` rounds a fraction to such a multiple, ties going to the even
one, and `Binary.shortest` gives the fraction with the fewest digits that rounds back to it, and
of those the nearest.  `Decimal.canonical` is one after the other: two fractions that a machine
cannot tell apart have the same canonical form.
-/

namespace UnoBindgen.Text

/-- A whole multiple of a power of two. -/
structure Binary where
  negative : Bool
  mantissa : Nat
  exponent : Int
  deriving DecidableEq, Repr

/-- Divide and round to the nearest whole number, ties going to the even one. -/
def roundedQuotient (numerator denominator : Nat) : Nat :=
  let quotient := numerator / denominator
  let twice := 2 * (numerator % denominator)
  if twice < denominator then quotient
  else if twice > denominator then quotient + 1
  else if quotient % 2 = 0 then quotient
  else quotient + 1

/-- Multiply a quotient by a power of a base, as numerator and denominator. -/
def scaleQuotient (base : Nat) (power : Int) (numerator denominator : Nat) : Nat × Nat :=
  if power ≥ 0 then
    (numerator * Nat.pow base power.toNat, denominator)
  else
    (numerator, denominator * Nat.pow base (-power).toNat)

/-- The smallest exponent of a machine fraction. -/
def leastExponent : Int := -1074

/-- Round a positive quotient to a machine fraction, as mantissa and exponent. -/
def nearestBinary (numerator denominator : Nat) : Nat × Int :=
  let guess := max ((numerator.log2 : Int) - denominator.log2 - 53) leastExponent
  let mantissaAt (exponent : Int) : Nat :=
    let scaled := scaleQuotient 2 (-exponent) numerator denominator
    roundedQuotient scaled.1 scaled.2
  let candidates := [guess, guess + 1, guess + 2]
  match candidates.find? fun exponent => mantissaAt exponent < Nat.pow 2 53 with
  | some exponent => (mantissaAt exponent, exponent)
  | none => (mantissaAt (guess + 3), guess + 3)

/-- Round a decimal fraction to a machine fraction. -/
def Decimal.nearest (decimal : Decimal) : Binary :=
  let places := decimal.exponent + digitCount decimal.digits
  if decimal.digits == 0 || places < -400 then
    ⟨decimal.negative, 0, 0⟩
  else
    let quotient := scaleQuotient 10 decimal.exponent decimal.digits 1
    let (mantissa, exponent) := nearestBinary quotient.1 quotient.2
    ⟨decimal.negative, mantissa, exponent⟩

/-- Whether `digits * 10 ^ power` lies between the neighbours of a machine fraction so that it
rounds to it. -/
def Binary.accepts (binary : Binary) (digits : Nat) (power : Int) : Bool :=
  let wide := binary.mantissa == Nat.pow 2 52 && binary.exponent > leastExponent
  let low := if wide then 4 * binary.mantissa - 1 else 4 * binary.mantissa - 2
  let high := 4 * binary.mantissa + 2
  let (left, leftUnit) := scaleQuotient 10 power digits 1
  let (unit, denominator) := scaleQuotient 2 (binary.exponent - 2) 1 1
  let value := left * denominator
  let lowBound := low * unit * leftUnit
  let highBound := high * unit * leftUnit
  if binary.mantissa % 2 == 0 then
    decide (lowBound ≤ value ∧ value ≤ highBound)
  else
    decide (lowBound < value ∧ value < highBound)

/-- The fraction with the fewest digits that rounds to a machine fraction, looking at up to
`more` further counts of digits.  `top` is the place of the first digit. -/
def Binary.shortestFrom (binary : Binary) (top : Int) : Nat → Nat → Nat × Int
  | 0, _ => (0, 0)
  | more + 1, count =>
    let power := top - count + 1
    let (numerator, denominator) := scaleQuotient 2 binary.exponent binary.mantissa 1
    let (scaled, unit) := scaleQuotient 10 (-power) numerator denominator
    let lower := scaled / unit
    let nearest := roundedQuotient scaled unit
    let other := if nearest = lower then lower + 1 else lower
    if binary.accepts nearest power then (nearest, power)
    else if binary.accepts other power then (other, power)
    else binary.shortestFrom top more (count + 1)

/-- Drop zeros at the end of a digit sequence.  The first argument bounds their number. -/
def dropZeros : Nat → Nat → Int → Nat × Int
  | 0, digits, exponent => (digits, exponent)
  | more + 1, digits, exponent =>
    if digits ≠ 0 ∧ digits % 10 = 0 then dropZeros more (digits / 10) (exponent + 1)
    else (digits, exponent)

/-- The place of the first digit of a positive quotient. -/
def topPlace (numerator denominator : Nat) : Int :=
  let guess : Int := (digitCount numerator : Int) - digitCount denominator
  let (left, right) := scaleQuotient 10 (-guess) numerator denominator
  if left ≥ right then guess else guess - 1

/-- The fraction with the fewest digits that rounds to a machine fraction. -/
def Binary.shortest (binary : Binary) : Decimal :=
  if binary.mantissa == 0 then
    ⟨binary.negative, 0, 0⟩
  else
    let (numerator, denominator) := scaleQuotient 2 binary.exponent binary.mantissa 1
    let (digits, exponent) := binary.shortestFrom (topPlace numerator denominator) 17 1
    let (digits, exponent) := dropZeros 20 digits exponent
    ⟨binary.negative, digits, exponent⟩

/-- The shortest of the fractions that a machine cannot tell from this one. -/
def Decimal.canonical (decimal : Decimal) : Decimal :=
  decimal.nearest.shortest

/-- Whether a canonical fraction is a whole number. -/
def Decimal.isWhole (decimal : Decimal) : Bool :=
  decimal.digits == 0 || decimal.exponent ≥ 0

/-- The whole part of what a machine keeps for a fraction. -/
def Decimal.truncated (decimal : Decimal) : Int :=
  let binary := decimal.nearest
  let (numerator, denominator) := scaleQuotient 2 binary.exponent binary.mantissa 1
  let magnitude : Int := (numerator / denominator : Nat)
  if decimal.negative then -magnitude else magnitude

/-- The sign of a fraction, as text. -/
def Decimal.sign (decimal : Decimal) : Text :=
  if decimal.negative then ['-'] else []

/-- Digits without an exponent. -/
def Decimal.positional (decimal : Decimal) : Text :=
  let digits := Text.ofNat decimal.digits
  decimal.sign ++
    if decimal.exponent ≥ 0 then
      digits ++ (if decimal.digits == 0 then [] else List.replicate decimal.exponent.toNat '0')
    else
      let places := (-decimal.exponent).toNat
      let padded := List.replicate (places + 1 - digits.length) '0' ++ digits
      padded.take (padded.length - places) ++ '.' :: padded.drop (padded.length - places)

/-- One digit before the point, and an exponent of at least two digits. -/
def Decimal.scientific (decimal : Decimal) : Text :=
  let digits := Text.ofNat decimal.digits
  let power := decimal.exponent + (digits.length : Int) - 1
  let exponent := Text.ofNat power.natAbs
  decimal.sign ++ digits.take 1 ++
    (if digits.length > 1 then '.' :: digits.drop 1 else []) ++
    ['e', if power < 0 then '-' else '+'] ++
    (if exponent.length < 2 then '0' :: exponent else exponent)

/-- A canonical fraction as it is shown: positional unless it is very small or very large. -/
def Decimal.shown (decimal : Decimal) : Text :=
  let power := decimal.exponent + (digitCount decimal.digits : Int) - 1
  if decimal.digits != 0 && (power < -4 || power ≥ 21) then decimal.scientific
  else decimal.positional

end UnoBindgen.Text
