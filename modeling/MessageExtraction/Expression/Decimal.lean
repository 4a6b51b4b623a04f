import MessageExtraction.Text.Digit

/-!
# Decimal numerals

A numeral denotes an exact decimal: a whole coefficient times a power of ten.
The nearest binary fraction of 53 bits is found in whole numbers, a tie going
to the even neighbour, and a decimal beyond the greatest one is infinite.

## Main definitions

* `Decimal` -- a coefficient and an exponent of ten.
* `Decimal.bits` -- the 64 bits of the nearest double.
* `Decimal.scan` -- the numeral at the start of a text, and its length.
-/

namespace MessageExtraction

/-- The number `coefficient * 10 ^ exponent`. -/
structure Decimal where
  coefficient : Nat
  exponent : Int
deriving DecidableEq

namespace Decimal

/-- The quotient rounded to the nearest whole number, a half to the even one. -/
def roundHalfEven (num den : Nat) : Nat :=
  let q := num / den
  let twice := 2 * (num % den)
  if twice < den then q
  else if den < twice then q + 1
  else if q % 2 = 0 then q else q + 1

/-- The bits of the infinite double. -/
def infiniteBits : Nat :=
  0x7ff0000000000000

/-- The bits of the double nearest to the positive fraction `num / den`. -/
def fractionBits (num den : Nat) : Nat :=
  let k : Int := (Nat.log2 num : Int) - Nat.log2 den
  let reaches : Bool :=
    if 0 ≤ k then den <<< k.toNat ≤ num else den ≤ num <<< (-k).toNat
  let unit : Int := max (if reaches then k - 52 else k - 53) (-1074)
  let significand :=
    if 0 ≤ unit then roundHalfEven num (den <<< unit.toNat)
    else roundHalfEven (num <<< (-unit).toNat) den
  min (((unit + 1074).toNat <<< 52) + significand) infiniteBits

/-- The bits of the double nearest to a decimal. -/
def bits (d : Decimal) : Nat :=
  let magnitude : Int := (Nat.toDigits 10 d.coefficient).length + d.exponent
  if d.coefficient = 0 || magnitude < -400 then 0
  else if 400 < magnitude then infiniteBits
  else if 0 ≤ d.exponent then fractionBits (d.coefficient * Nat.pow 10 d.exponent.toNat) 1
  else fractionBits d.coefficient (Nat.pow 10 (-d.exponent).toNat)

/-- The number written by a row of decimal digits. -/
def digitsValue (digits : Text) : Nat :=
  digits.foldl (fun n c => 10 * n + c.digit?.getD 0) 0

/-- The exponent part at the start of a text and its length; no part has length zero. -/
def scanExponent (t : Text) : Int × Nat :=
  match t with
  | [] => (0, 0)
  | e :: t =>
    if e.isAny ['e', 'E'] then
      let sign := t.takeWhile fun c => c.isAny ['+', '-']
      let digits := (t.drop sign.length).takeWhile CodePoint.isDecimalDigit
      if sign.length ≤ 1 && !digits.isEmpty then
        let n : Int := digitsValue digits
        (if sign.any (·.is '-') then -n else n, 1 + sign.length + digits.length)
      else (0, 0)
    else (0, 0)

/-- The digits of the fraction at the start of a text, and its length with the point; no point has
length zero. -/
def scanFraction : Text → Text × Nat
  | [] => ([], 0)
  | c :: t =>
    if c.is '.' then
      let digits := t.takeWhile CodePoint.isDecimalDigit
      (digits, 1 + digits.length)
    else ([], 0)

/-- The numeral at the start of a text, and its length: digits with an optional point among or
after them, or a point with digits after it, and then an optional exponent. -/
def scan (t : Text) : Option (Decimal × Nat) :=
  let whole := t.takeWhile CodePoint.isDecimalDigit
  let (fraction, fractionLength) := scanFraction (t.drop whole.length)
  if whole.isEmpty && fraction.isEmpty then none
  else
    let length := whole.length + fractionLength
    let (exponent, exponentLength) := scanExponent (t.drop length)
    some (⟨digitsValue (whole ++ fraction), exponent - fraction.length⟩, length + exponentLength)

end Decimal

end MessageExtraction
