import UnoBindgen.Text.Basic

/-!
# Numerals

Reading whole numbers in the bases two, eight, ten and sixteen, and the shape and size of decimal
fractions.
-/

namespace UnoBindgen.Text

/-- The value of a digit; letters go on behind nine. -/
def digitValue? (character : Char) : Option Nat :=
  if '0' ≤ character ∧ character ≤ '9' then some (character.toNat - '0'.toNat)
  else if 'a' ≤ character ∧ character ≤ 'z' then some (character.toNat - 'a'.toNat + 10)
  else if 'A' ≤ character ∧ character ≤ 'Z' then some (character.toNat - 'A'.toNat + 10)
  else none

/-- The value of a hexadecimal digit. -/
def hexValue? (character : Char) : Option Nat :=
  (digitValue? character).filter (· < 16)

/-- Whether a character is a decimal digit. -/
def isDecimal (character : Char) : Bool :=
  '0' ≤ character && character ≤ '9'

/-- Add the digits of a text to a value. -/
def readDigits (base : Nat) : Nat → Text → Option Nat
  | value, [] => some value
  | value, character :: rest =>
    match digitValue? character with
    | some digit => if digit < base then readDigits base (base * value + digit) rest else none
    | none => none

/-- The number that a non-empty text of digits stands for. -/
def natural? (base : Nat) (text : Text) : Option Nat :=
  if text.isEmpty then none else readDigits base 0 text

/-- The base that the start of a numeral asks for, and the digits behind that start.  A lone zero
in front asks for base eight. -/
def splitBase (text : Text) : Nat × Text :=
  match text with
  | '0' :: mark :: rest =>
    if mark == 'x' || mark == 'X' then (16, rest)
    else if mark == 'b' || mark == 'B' then (2, rest)
    else if mark == 'o' || mark == 'O' then (8, rest)
    else (8, mark :: rest)
  | _ => (10, text)

/-- The sign of a numeral, and what stands behind it. -/
def splitSign (text : Text) : Bool × Text :=
  match text with
  | '-' :: rest => (true, rest)
  | '+' :: rest => (false, rest)
  | _ => (false, text)

/-- Whether underscores stand only between digits, or between the mark of a base and a digit. -/
def underscoresSeparate (marked : Bool) (digits : Text) : Bool :=
  let rec go (afterDigit : Bool) : Text → Bool
    | [] => true
    | '_' :: rest =>
      match rest with
      | next :: _ => afterDigit && next != '_' && go false rest
      | [] => false
    | _ :: rest => go true rest
  go marked digits

/-- Read a whole number in the base that its start asks for.  Underscores may separate digits. -/
def wholeNumber? (text : Text) : Option Int :=
  let (negative, unsigned) := splitSign text
  let (base, digits) := splitBase unsigned
  let marked := base != 10
  if !underscoresSeparate marked digits then
    none
  else
    match natural? base (digits.filter (· != '_')) with
    | some number => some (if negative then -(number : Int) else number)
    | none => none

/-- Whether a number fits into a signed word of sixty-four bits. -/
def fitsWord (number : Int) : Bool :=
  -9223372036854775808 ≤ number && number < 9223372036854775808

/-- Read a whole number that fits into a signed word. -/
def word? (text : Text) : Option Int :=
  (wholeNumber? text).filter fitsWord

/-- Read a decimal whole number that fits into a signed word.  Leading zeros mean nothing. -/
def decimalWord? (text : Text) : Option Int :=
  let (negative, digits) := splitSign text
  match natural? 10 digits with
  | some number => some (if negative then -(number : Int) else number) |>.filter fitsWord
  | none => none

/-- A decimal fraction: its sign, its digits as one number, and the power of ten they are
multiplied by. -/
structure Decimal where
  negative : Bool
  digits : Nat
  exponent : Int
  deriving DecidableEq, Repr

/-- Read the exponent of a decimal fraction, which may be missing. -/
def readExponent? (text : Text) : Option Int :=
  match text with
  | [] => some 0
  | mark :: rest =>
    if mark == 'e' || mark == 'E' then
      let (negative, digits) := splitSign rest
      (natural? 10 digits).map fun value => if negative then -(value : Int) else value
    else
      none

/-- Read a decimal fraction: digits, a point and more digits, of which one side may be missing,
and an exponent. -/
def decimal? (text : Text) : Option Decimal :=
  let (negative, unsigned) := splitSign text
  let before := unsigned.takeWhile isDecimal
  let behind := unsigned.dropWhile isDecimal
  let (after, rest) :=
    match behind with
    | '.' :: rest => (rest.takeWhile isDecimal, rest.dropWhile isDecimal)
    | rest => ([], rest)
  if before.isEmpty && after.isEmpty then
    none
  else
    match natural? 10 (before ++ after), readExponent? rest with
    | some digits, some exponent => some ⟨negative, digits, exponent - after.length⟩
    | _, _ => none

/-- The number of decimal digits of a number. -/
def digitCount (number : Nat) : Nat :=
  (Nat.toDigits 10 number).length

/-- The least number that is too large for a double: half a step beyond the largest one. -/
def leastOverflow : Nat := Nat.pow 2 1024 - Nat.pow 2 970

/-- Whether a decimal fraction is too large for a double: half a step beyond the largest one and
further. -/
def Decimal.overflows (decimal : Decimal) : Bool :=
  let places := decimal.exponent + digitCount decimal.digits
  if decimal.digits == 0 || places < 300 then
    false
  else if places > 400 then
    true
  else if decimal.exponent < 0 then
    decimal.digits ≥ leastOverflow * Nat.pow 10 (-decimal.exponent).toNat
  else
    decimal.digits * Nat.pow 10 decimal.exponent.toNat ≥ leastOverflow

end UnoBindgen.Text
