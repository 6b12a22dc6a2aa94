/-!
# Binary floating-point numbers

A number is its 64 bits: a sign, eleven bits of exponent and 52 bits of fraction.  Nothing here
computes with machine floats, so that each rule is one about natural numbers.

- `Binary64.numerator` and `Binary64.denominator` give the exact size of a finite number.
- `Binary64.same` is numerical equality: the two zeros are equal, and what is no number
  equals nothing.
- `Binary64.ofNat` and `Binary64.ofInt` take an integer to the nearest number, a tie to the
  even significand.
- `Binary64.ofSingle` widens a number of 32 bits, which is exact.
-/

namespace TraceContract

/-- The quotient of two numbers, rounded to the nearest integer and a tie to the even one. -/
def roundHalfEven (num den : Nat) : Nat :=
  let below := num / den
  let rest := num % den
  if den < 2 * rest then below + 1
  else if 2 * rest = den then below + below % 2
  else below

/-- One above the fractions of 52 bits: the weight of the leading bit of a significand. -/
def leadingBit : Nat := 0x10000000000000

def signBit : Nat := 0x8000000000000000

/-- A floating-point number, by its bits. -/
structure Binary64 where
  bits : UInt64
  deriving DecidableEq

namespace Binary64

def negative (x : Binary64) : Bool := signBit ≤ x.bits.toNat

def magnitude (x : Binary64) : Nat := x.bits.toNat % signBit

def exponentField (x : Binary64) : Nat := x.magnitude / leadingBit

def fraction (x : Binary64) : Nat := x.magnitude % leadingBit

/-- Whether the bits stand for no number at all. -/
def isNaN (x : Binary64) : Bool := x.exponentField = 2047 && x.fraction ≠ 0

def isInfinite (x : Binary64) : Bool := x.exponentField = 2047 && x.fraction = 0

/-- The significand as an integer; the least exponent has no implicit leading bit. -/
def significand (x : Binary64) : Nat :=
  if x.exponentField = 0 then x.fraction else x.fraction + leadingBit

/-- The exponent of two that scales the significand, counted from the least one. -/
def scale (x : Binary64) : Nat := x.exponentField - 1

/-- A finite number has the size `numerator / denominator`. -/
def numerator (x : Binary64) : Nat := x.significand * Nat.pow 2 (x.scale - 1074)

def denominator (x : Binary64) : Nat := Nat.pow 2 (1074 - x.scale)

/-- Numerical equality. -/
def same (x y : Binary64) : Bool :=
  !x.isNaN && !y.isNaN && (x.bits == y.bits || (x.magnitude == 0 && y.magnitude == 0))

/-- The number with the given exponent field and a significand that has its leading bit at
place 52; a significand of twice that size carries into the exponent. -/
def pack (exponent significand : Nat) : Binary64 :=
  ⟨UInt64.ofNat (exponent * leadingBit + (significand - leadingBit))⟩

def flipSign (x : Binary64) : Binary64 := ⟨x.bits ^^^ 0x8000000000000000⟩

/-- The number nearest to a natural number. -/
def ofNat (n : Nat) : Binary64 :=
  if n = 0 then ⟨0⟩
  else
    let top := n.log2
    pack (top + 1023)
      (if top ≤ 52 then n * Nat.pow 2 (52 - top) else roundHalfEven n (Nat.pow 2 (top - 52)))

def ofInt (i : Int) : Binary64 :=
  if i < 0 then (ofNat i.natAbs).flipSign else ofNat i.natAbs

/-- What is no number, with the mark of one that an operation has seen. -/
def quiet (x : Binary64) : Binary64 :=
  if x.isNaN then ⟨x.bits ||| 0x0008000000000000⟩ else x

/-- The number that 32 bits stand for: a sign, eight bits of exponent, 23 bits of fraction. -/
def ofSingle (bits : UInt32) : Binary64 :=
  let exponent := bits.toNat % 0x80000000 / 0x800000
  let fraction := bits.toNat % 0x800000
  let unsigned :=
    if exponent = 255 then quiet (pack 2047 (leadingBit + fraction * 0x20000000))
    else if exponent ≠ 0 then pack (exponent + 896) (leadingBit + fraction * 0x20000000)
    else if fraction = 0 then ⟨0⟩
    else pack (fraction.log2 + 874) (fraction * Nat.pow 2 (52 - fraction.log2))
  if 0x80000000 ≤ bits.toNat then unsigned.flipSign else unsigned

end Binary64

end TraceContract
