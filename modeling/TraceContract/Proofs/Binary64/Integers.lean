import TraceContract.Binary64.Significant
import TraceContract.Proofs.Text.Decimals

/-!
# Integers in floating point

Fifteen significant digits hold every integer of up to fifteen digits.  Such an integer is a
floating-point number exactly, since it needs fewer than 53 bits, and the text of that number is the
integer's own: no digit is rounded away, the zeros behind its last digit come back in front of the
point, and there is nothing behind the point.

* `Normal` says which exponents and significands `pack` encodes, and its lemmas read each field back.
* `numerator_ofNat`: below the 53rd power of two, taking a natural number to floating point keeps
  its value.
* `Significant.ofQuotient_mul` and `Significant.text_whole`: the digits of an integer, and the
  text that they make.
* `text_ofInt`: an integer of at most fifteen digits has the same text in floating point.
-/

namespace TraceContract

open Text

theorem roundHalfEven_mul (q : Nat) {d : Nat} (hd : 0 < d) : roundHalfEven (q * d) d = q := by
  have hdiv : q * d / d = q := Nat.mul_div_cancel q hd
  have hmod : q * d % d = 0 := Nat.mul_mod_left q d
  simp only [roundHalfEven, hdiv, hmod]
  rw [if_neg (by omega), if_neg (by omega)]

namespace Binary64

/-! ### The fields of a packed number -/

/-- An exponent field and a significand that `pack` encodes as they are: the exponent is neither the
least nor the greatest, and the leading bit of the significand is at place 52. -/
structure Normal (exponent significand : Nat) : Prop where
  pos : 0 < exponent
  lt : exponent < 2047
  leading : leadingBit ≤ significand
  fits : significand < 2 * leadingBit

namespace Normal

variable {exponent significand : Nat}

theorem toNat_bits (h : Normal exponent significand) :
    (pack exponent significand).bits.toNat = exponent * leadingBit + (significand - leadingBit) := by
  obtain ⟨hpos, hlt, hleading, hfits⟩ := h
  rw [pack, UInt64.toNat_ofNat']
  apply Nat.mod_eq_of_lt
  unfold leadingBit at *
  omega

theorem negative_eq (h : Normal exponent significand) :
    (pack exponent significand).negative = false := by
  obtain ⟨hpos, hlt, hleading, hfits⟩ := id h
  rw [negative, decide_eq_false_iff_not, h.toNat_bits]
  unfold leadingBit signBit at *
  omega

theorem magnitude_eq (h : Normal exponent significand) :
    (pack exponent significand).magnitude = exponent * leadingBit + (significand - leadingBit) := by
  obtain ⟨hpos, hlt, hleading, hfits⟩ := id h
  rw [magnitude, h.toNat_bits]
  apply Nat.mod_eq_of_lt
  unfold leadingBit signBit at *
  omega

theorem exponentField_eq (h : Normal exponent significand) :
    (pack exponent significand).exponentField = exponent := by
  obtain ⟨hpos, hlt, hleading, hfits⟩ := id h
  rw [exponentField, h.magnitude_eq]
  unfold leadingBit at *
  omega

theorem significand_eq (h : Normal exponent significand) :
    (pack exponent significand).significand = significand := by
  obtain ⟨hpos, hlt, hleading, hfits⟩ := id h
  rw [Binary64.significand, h.exponentField_eq, if_neg (by omega), fraction, h.magnitude_eq]
  unfold leadingBit at *
  omega

end Normal

/-! ### The sign -/

variable {x : Binary64}

theorem xor_signBit {n : Nat} (h : n < signBit) : n ^^^ signBit = n + signBit := by
  have hbit : signBit = 2 ^ 63 := rfl
  rw [hbit] at h ⊢
  have hdiv : (n ^^^ 2 ^ 63) / 2 ^ 63 = 1 := by
    rw [Nat.xor_div_two_pow, Nat.div_eq_of_lt h, Nat.div_self (by decide)]
    rfl
  have hmod : (n ^^^ 2 ^ 63) % 2 ^ 63 = n := by
    rw [Nat.xor_mod_two_pow, Nat.mod_self, Nat.xor_zero, Nat.mod_eq_of_lt h]
  omega

theorem lt_signBit (h : x.negative = false) : x.bits.toNat < signBit := by
  rw [negative, decide_eq_false_iff_not] at h
  omega

theorem toNat_flipSign (h : x.negative = false) :
    x.flipSign.bits.toNat = x.bits.toNat + signBit := by
  rw [flipSign, UInt64.toNat_xor]
  exact xor_signBit (lt_signBit h)

theorem negative_flipSign (h : x.negative = false) : x.flipSign.negative = true := by
  rw [negative, decide_eq_true_eq, toNat_flipSign h]
  omega

theorem magnitude_flipSign (h : x.negative = false) : x.flipSign.magnitude = x.magnitude := by
  rw [magnitude, magnitude, toNat_flipSign h, Nat.add_mod_right]

theorem text_flipSign (h : x.negative = false) : x.flipSign.text = ascii "-" ++ x.text := by
  have hexponent : x.flipSign.exponentField = x.exponentField := by
    rw [exponentField, exponentField, magnitude_flipSign h]
  have hfraction : x.flipSign.fraction = x.fraction := by
    rw [fraction, fraction, magnitude_flipSign h]
  have hsignificand : x.flipSign.significand = x.significand := by
    rw [significand, significand, hexponent, hfraction]
  rw [text, text, negative_flipSign h, h]
  simp only [isNaN, isInfinite, numerator, denominator, scale, hexponent, hfraction, hsignificand]
  rfl

/-! ### Whole numbers below the 53rd power of two -/

variable {n : Nat}

theorem log2_le (hn : n ≠ 0) (h : n < 2 * leadingBit) : n.log2 ≤ 52 :=
  Nat.le_of_lt_succ ((Nat.log2_lt hn).mpr h)

theorem ofNat_eq_pack (hn : n ≠ 0) (h : n < 2 * leadingBit) :
    ofNat n = pack (n.log2 + 1023) (n * Nat.pow 2 (52 - n.log2)) := by
  rw [ofNat, if_neg hn]
  simp only
  rw [if_pos (log2_le hn h)]

/-- The leading bit of the number is shifted to place 52. -/
theorem normal_ofNat (hn : n ≠ 0) (h : n < 2 * leadingBit) :
    Normal (n.log2 + 1023) (n * Nat.pow 2 (52 - n.log2)) := by
  have htop := log2_le hn h
  have hpos : 0 < Nat.pow 2 (52 - n.log2) := Nat.two_pow_pos _
  refine ⟨by omega, by omega, ?_, ?_⟩
  · calc
      leadingBit = Nat.pow 2 (n.log2 + (52 - n.log2)) := by rw [Nat.add_sub_cancel' htop]; rfl
      _ = Nat.pow 2 n.log2 * Nat.pow 2 (52 - n.log2) := Nat.pow_add 2 _ _
      _ ≤ n * Nat.pow 2 (52 - n.log2) := Nat.mul_le_mul_right _ (Nat.log2_self_le hn)
  · have hsum : n.log2 + 1 + (52 - n.log2) = 53 := by omega
    calc
      n * Nat.pow 2 (52 - n.log2) < Nat.pow 2 (n.log2 + 1) * Nat.pow 2 (52 - n.log2) :=
        Nat.mul_lt_mul_of_pos_right Nat.lt_log2_self hpos
      _ = Nat.pow 2 (n.log2 + 1 + (52 - n.log2)) := (Nat.pow_add 2 _ _).symm
      _ = 2 * leadingBit := by rw [hsum]; rfl

/-- **Below the 53rd power of two, floating point keeps the value of a natural number.** -/
theorem numerator_ofNat (hn : n ≠ 0) (h : n < 2 * leadingBit) :
    (ofNat n).numerator = n * (ofNat n).denominator := by
  have htop := log2_le hn h
  have hnormal := normal_ofNat hn h
  have hover : n.log2 + 1023 - 1 - 1074 = 0 := by omega
  have hunder : 1074 - (n.log2 + 1023 - 1) = 52 - n.log2 := by omega
  rw [numerator, denominator, scale, ofNat_eq_pack hn h, hnormal.significand_eq,
    hnormal.exponentField_eq, hover, hunder]
  exact Nat.mul_one _

theorem denominator_pos (x : Binary64) : 0 < x.denominator := Nat.two_pow_pos _

end Binary64

/-! ### Fifteen digits of a whole number -/

namespace Significant

variable {n : Nat}

/-- The digits that are kept of a whole number: its own, with zeros behind them. -/
def whole (n : Nat) : Significant :=
  ⟨n * Nat.pow 10 (precision - (decimal n).length), ((decimal n).length : Int) - 1⟩

theorem length_decimal_le (h : n < 1000000000000000) : (decimal n).length ≤ precision :=
  (length_decimal_le_iff (by decide)).mpr h

theorem leadingExponent_mul (hn : n ≠ 0) {d : Nat} (hd : 0 < d) :
    leadingExponent (n * d) d = ((decimal n).length : Int) - 1 := by
  have hle : d ≤ n * d := Nat.le_mul_of_pos_left d (Nat.pos_of_ne_zero hn)
  rw [leadingExponent, if_pos hle, Nat.mul_div_cancel n hd, decimal, List.length_map]

theorem digits_whole_lt (h : n < 1000000000000000) : (whole n).digits < Nat.pow 10 precision := by
  have hlen := length_decimal_le h
  calc
    n * Nat.pow 10 (precision - (decimal n).length)
        < Nat.pow 10 (decimal n).length * Nat.pow 10 (precision - (decimal n).length) :=
      Nat.mul_lt_mul_of_pos_right (lt_pow_length_decimal n) (Nat.pow_pos (by decide))
    _ = Nat.pow 10 ((decimal n).length + (precision - (decimal n).length)) :=
      (Nat.pow_add 10 _ _).symm
    _ = Nat.pow 10 precision := by rw [Nat.add_sub_cancel' hlen]

/-- Nothing of a whole number of at most fifteen digits is rounded away. -/
theorem ofQuotient_mul (hn : n ≠ 0) (h : n < 1000000000000000) {d : Nat} (hd : 0 < d) :
    ofQuotient (n * d) d = whole n := by
  have hlen := length_decimal_le h
  have hup : ((precision : Int) - 1 - (((decimal n).length : Int) - 1)).toNat =
      precision - (decimal n).length := by omega
  have hdown : (-((precision : Int) - 1 - (((decimal n).length : Int) - 1))).toNat = 0 := by omega
  have hone : d * Nat.pow 10 0 = d := Nat.mul_one d
  have hdigits : roundHalfEven (n * d * Nat.pow 10 (precision - (decimal n).length)) d =
      (whole n).digits := by
    rw [Nat.mul_right_comm]
    exact roundHalfEven_mul _ hd
  rw [ofQuotient, leadingExponent_mul hn hd]
  rw [hup, hdown, hone, hdigits, if_pos (digits_whole_lt h)]
  rfl

theorem fraction_replicate (k : Nat) : fraction (List.replicate k 48) = [] := by
  have hzeros : dropFinalZeros (List.replicate k 48) = [] := by
    rw [dropFinalZeros, List.reverse_replicate, List.dropWhile_replicate]
    rfl
  rw [fraction, hzeros]

/-- **The text of a whole number has its digits and no others.** -/
theorem text_whole (h : n < 1000000000000000) : (whole n).text = decimal n := by
  have hlen := length_decimal_le h
  have hpos := List.length_pos_iff.mpr (decimal_ne_nil n)
  have hdigits : padded precision (whole n).digits =
      decimal n ++ List.replicate (precision - (decimal n).length) 48 := by
    have hpadded := padded_mul_pow (decimal n).length n (precision - (decimal n).length)
    rwa [Nat.add_sub_cancel' hlen, padded_length_decimal] at hpadded
  have hexponent : (whole n).exponent = ((decimal n).length : Int) - 1 := rfl
  have hwhole : (whole n).exponent.toNat + 1 = (decimal n).length := by omega
  have hplain : ¬ ((whole n).exponent < -4 ∨ (precision : Int) ≤ (whole n).exponent) := by omega
  rw [text]
  simp only
  rw [hdigits, if_neg hplain, if_neg (by omega), hwhole, List.take_left, List.drop_left,
    fraction_replicate, List.append_nil]

end Significant

/-! ### Texts of integers -/

namespace Binary64

theorem negative_ofNat {n : Nat} (h : n < 2 * leadingBit) : (ofNat n).negative = false := by
  by_cases hn : n = 0
  · subst hn
    rfl
  · rw [ofNat_eq_pack hn h]
    exact (normal_ofNat hn h).negative_eq

theorem text_ofNat {n : Nat} (h : n < 1000000000000000) : (ofNat n).text = decimal n := by
  by_cases hn : n = 0
  · subst hn
    rfl
  have hfits : n < 2 * leadingBit := by
    unfold leadingBit
    omega
  have hnormal := normal_ofNat hn hfits
  have htext : (Significant.ofQuotient (ofNat n).numerator (ofNat n).denominator).text =
      decimal n := by
    rw [numerator_ofNat hn hfits, Significant.ofQuotient_mul hn h (denominator_pos _),
      Significant.text_whole h]
  have hexponent : (ofNat n).exponentField ≠ 2047 := by
    rw [ofNat_eq_pack hn hfits, hnormal.exponentField_eq]
    have := hnormal.lt
    omega
  have hsignificand : (ofNat n).significand ≠ 0 := by
    rw [ofNat_eq_pack hn hfits, hnormal.significand_eq]
    have := hnormal.leading
    unfold leadingBit at this
    omega
  rw [text, negative_ofNat hfits, htext]
  simp [isNaN, isInfinite, hexponent, hsignificand]

/-- **An integer of at most fifteen digits has its own text in floating point.** -/
theorem text_ofInt {i : Int} (h : i.natAbs < 1000000000000000) : (ofInt i).text = signed i := by
  have hfits : i.natAbs < 2 * leadingBit := by
    unfold leadingBit
    omega
  rw [ofInt, signed]
  split
  · rw [text_flipSign (negative_ofNat hfits), text_ofNat h]
  · exact text_ofNat h

/-- The first integer whose text in floating point is not its own, and the last whose is. -/
example : (ofInt 1000000000000000).text = ascii "1e+15" ∧
    (ofInt (-999999999999999)).text = ascii "-999999999999999" := by decide

end Binary64

end TraceContract
