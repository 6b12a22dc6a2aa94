import TraceContract.Binary64
import TraceContract.Text.Numeral

/-!
# The text of a floating-point number

A number is written with the fifteen significant decimal digits nearest to it, a tie going to
the even digit.  Zeros at the end of the fraction are left out.  Numbers from a ten-thousandth
up to fifteen digits before the point are written without an exponent, all others with one
digit before the point and an exponent of at least two digits.

- `Significant.ofQuotient` finds the fifteen digits of a positive quotient and where the point
  stands.
- `Significant.text` writes them.
- `Binary64.text` is the text of a number, a sign in front of a negative one.
-/

namespace TraceContract

/-- A positive number in scientific form: its significant digits as one number, and the
exponent of ten that the first of them counts. -/
structure Significant where
  digits : Nat
  exponent : Int
  deriving DecidableEq

namespace Significant

/-- How many significant digits are kept. -/
def precision : Nat := 15

/-- The power of ten of the leading digit of a positive quotient. -/
def leadingExponent (num den : Nat) : Int :=
  if den ≤ num then ((Nat.toDigits 10 (num / den)).length : Int) - 1
  else -((Nat.toDigits 10 ((den - 1) / num)).length : Int)

/-- The digits of a positive quotient.  Where rounding gives one digit more than is kept, the
number is a power of ten and moves up by one exponent. -/
def ofQuotient (num den : Nat) : Significant :=
  let exponent := leadingExponent num den
  let shift := (precision : Int) - 1 - exponent
  let digits := roundHalfEven (num * Nat.pow 10 shift.toNat) (den * Nat.pow 10 (-shift).toNat)
  if digits < Nat.pow 10 precision then ⟨digits, exponent⟩ else ⟨digits / 10, exponent + 1⟩

/-- A text without the zeros at its end. -/
def dropFinalZeros (t : Text) : Text := (t.reverse.dropWhile (· == 48)).reverse

/-- The fraction after a point, or nothing where no digit is left of it. -/
def fraction (digits : Text) : Text :=
  match dropFinalZeros digits with
  | [] => []
  | rest => ascii "." ++ rest

/-- The exponent: its sign and at least two digits. -/
def exponentText (exponent : Int) : Text :=
  let size := exponent.natAbs
  ascii "e" ++ (if exponent < 0 then ascii "-" else ascii "+") ++
    (if size < 10 then ascii "0" else []) ++ Text.decimal size

/-- The written form. -/
def text (s : Significant) : Text :=
  let digits := Text.padded precision s.digits
  if s.exponent < -4 ∨ (precision : Int) ≤ s.exponent then
    digits.take 1 ++ fraction (digits.drop 1) ++ exponentText s.exponent
  else if s.exponent < 0 then
    ascii "0" ++ fraction (List.replicate ((-s.exponent).toNat - 1) 48 ++ digits)
  else
    let whole := s.exponent.toNat + 1
    digits.take whole ++ fraction (digits.drop whole)

end Significant

/-- The text of a floating-point number. -/
def Binary64.text (x : Binary64) : Text :=
  (if x.negative then ascii "-" else []) ++
    (if x.isNaN then ascii "nan"
     else if x.isInfinite then ascii "inf"
     else if x.significand = 0 then ascii "0"
     else (Significant.ofQuotient x.numerator x.denominator).text)

end TraceContract
