import TraceContract.Text

/-!
# Decimal numerals

- `decimal` writes a natural number without leading zeros, `signed` an integer with a
  minus sign where it is negative.
- `padded` writes the last digits of a number in a field of fixed width.
- `numeralValue` reads a run of digits back.
-/

namespace TraceContract

namespace Text

def digit (n : Nat) : UInt8 := UInt8.ofNat (48 + n)

/-- A number in decimal, without leading zeros. -/
def decimal (n : Nat) : Text :=
  (Nat.toDigits 10 n).map fun c => UInt8.ofNat c.toNat

/-- An integer in decimal, a minus sign in front of a negative one. -/
def signed (i : Int) : Text :=
  if i < 0 then ascii "-" ++ decimal i.natAbs else decimal i.natAbs

/-- The last `width` decimal digits of a number, leading zeros included. -/
def padded : (width n : Nat) → Text
  | 0, _ => []
  | width + 1, n => padded width (n / 10) ++ [digit (n % 10)]

/-- The value of a run of decimal digits; bytes that are no digits count by their distance
from zero's. -/
def numeralValue (t : Text) : Nat :=
  t.foldl (fun value b => 10 * value + (b.toNat - 48)) 0

@[simp] theorem length_padded (width n : Nat) : (padded width n).length = width := by
  induction width generalizing n with
  | zero => rfl
  | succ width ih => simp [padded, ih]

/-- The last digit comes off the end. -/
theorem decimal_eq (n : Nat) :
    decimal n = (if n < 10 then [] else decimal (n / 10)) ++ [digit (n % 10)] := by
  have character (d : Nat) (h : d < 10) :
      UInt8.ofNat (Nat.digitChar d).toNat = digit d := by
    match d with
    | 0 | 1 | 2 | 3 | 4 | 5 | 6 | 7 | 8 | 9 => rfl
    | _ + 10 => omega
  unfold decimal
  rw [Nat.toDigits_eq_if (by omega)]
  split
  · next h => simp [character n h, Nat.mod_eq_of_lt h]
  · simp [character (n % 10) (Nat.mod_lt _ (by omega))]

/-- Reading a numeral gives the number that it was written from. -/
theorem numeralValue_decimal (n : Nat) : numeralValue (decimal n) = n := by
  induction n using Nat.strongRecOn with
  | ind n ih =>
    have last : (digit (n % 10)).toNat = 48 + n % 10 := by
      simp only [digit, UInt8.toNat_ofNat']
      omega
    rw [decimal_eq]
    split
    · simp only [numeralValue, List.nil_append, List.foldl_cons, List.foldl_nil, last]
      omega
    · have := ih (n / 10) (by omega)
      simp only [numeralValue, List.foldl_append, List.foldl_cons, List.foldl_nil] at this ⊢
      rw [this, last]
      omega

end Text

end TraceContract
