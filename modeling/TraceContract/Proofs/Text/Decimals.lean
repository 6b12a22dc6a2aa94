import Mathlib.Data.List.Basic
import Mathlib.Data.List.Induction
import TraceContract.Text.Numeral

/-!
# Digits of decimal numbers

What `Text.decimal` and `Text.padded` write: digits only, as many as the number needs or as the
field has, and the number back when they are read.

* `length_decimal_le_iff`: how many digits a number needs.
* `numeralValue_padded`: a field holds the last digits of its number.
* `padded_length_decimal` and `padded_mul_pow`: a field that is just wide enough is the number
  itself, and zeros at the end of a number are zeros at the end of its field.
* `padded_lt_padded_iff`: fields of one width stand in the order of their numbers.
* `Text.Field` and `Text.Unpadded`: what fields and numbers look like.  `Field.padded_eq` and
  `decimal_numeralValue`: they are written as they are read.
-/

namespace TraceContract

namespace Text

theorem toNat_digit {d : Nat} (h : d < 10) : (digit d).toNat = 48 + d := by
  rw [digit, UInt8.toNat_ofNat']
  omega

theorem isDigit_iff {b : UInt8} : isDigit b = true ↔ 48 ≤ b.toNat ∧ b.toNat ≤ 57 := by
  rw [isDigit, Bool.and_eq_true, decide_eq_true_eq, decide_eq_true_eq, UInt8.le_iff_toNat_le,
    UInt8.le_iff_toNat_le]
  rfl

theorem isDigit_digit {d : Nat} (h : d < 10) : isDigit (digit d) = true := by
  rw [isDigit_iff, toNat_digit h]
  omega

theorem exists_digit {b : UInt8} (h : isDigit b = true) : ∃ d < 10, digit d = b := by
  have hb := isDigit_iff.mp h
  refine ⟨b.toNat - 48, by omega, UInt8.toNat_inj.mp ?_⟩
  rw [toNat_digit (by omega)]
  omega

def DigitRun (t : Text) : Prop := t ≠ [] ∧ ∀ b ∈ t, isDigit b = true

instance (t : Text) : Decidable (DigitRun t) :=
  decidable_of_iff (t ≠ [] ∧ t.all isDigit = true) (by simp [DigitRun])

/-! ### Numbers without leading zeros -/

theorem decimal_ne_nil (n : Nat) : decimal n ≠ [] := by
  rw [decimal_eq]
  simp

theorem decimal_concat {n d : Nat} (hn : n ≠ 0) (h : d < 10) :
    decimal (10 * n + d) = decimal n ++ [digit d] := by
  have hdiv : (10 * n + d) / 10 = n := by omega
  have hmod : (10 * n + d) % 10 = d := by omega
  rw [decimal_eq, if_neg (by omega), hdiv, hmod]

theorem isDigit_of_mem_decimal {n : Nat} {b : UInt8} (h : b ∈ decimal n) : isDigit b = true := by
  induction n using Nat.strongRecOn with
  | ind n ih =>
    rw [decimal_eq, List.mem_append, List.mem_singleton] at h
    rcases h with hfront | rfl
    · split at hfront
      · exact absurd hfront (by simp)
      · next hn => exact ih (n / 10) (by omega) hfront
    · exact isDigit_digit (by omega)

theorem digitRun_decimal (n : Nat) : DigitRun (decimal n) :=
  ⟨decimal_ne_nil n, fun _ hb => isDigit_of_mem_decimal hb⟩

theorem decimal_injective : Function.Injective decimal := by
  intro m n h
  have hvalue := congrArg numeralValue h
  rwa [numeralValue_decimal, numeralValue_decimal] at hvalue

theorem length_decimal_le_iff {n k : Nat} (hk : 0 < k) :
    (decimal n).length ≤ k ↔ n < Nat.pow 10 k := by
  rw [decimal, List.length_map]
  exact Nat.length_toDigits_le_iff (by decide) hk

theorem lt_pow_length_decimal (n : Nat) : n < Nat.pow 10 (decimal n).length :=
  (length_decimal_le_iff (List.length_pos_iff.mpr (decimal_ne_nil n))).mp (Nat.le_refl _)

/-! ### Fields of a fixed width -/

theorem isDigit_of_mem_padded {width n : Nat} {b : UInt8} (h : b ∈ padded width n) :
    isDigit b = true := by
  induction width generalizing n with
  | zero => exact absurd h (by simp [padded])
  | succ width ih =>
    rw [padded, List.mem_append, List.mem_singleton] at h
    rcases h with hfront | rfl
    · exact ih hfront
    · exact isDigit_digit (by omega)

theorem numeralValue_concat (t : Text) {d : Nat} (h : d < 10) :
    numeralValue (t ++ [digit d]) = 10 * numeralValue t + d := by
  rw [numeralValue, List.foldl_append, List.foldl_cons, List.foldl_nil, toNat_digit h, numeralValue]
  omega

theorem padded_concat (width n : Nat) {d : Nat} (h : d < 10) :
    padded (width + 1) (10 * n + d) = padded width n ++ [digit d] := by
  have hdiv : (10 * n + d) / 10 = n := by omega
  have hmod : (10 * n + d) % 10 = d := by omega
  rw [padded, hdiv, hmod]

/-- A field holds the last digits of its number. -/
theorem numeralValue_padded (width n : Nat) :
    numeralValue (padded width n) = n % Nat.pow 10 width := by
  induction width generalizing n with
  | zero => exact (Nat.mod_one n).symm
  | succ width ih =>
    have hpow : Nat.pow 10 (width + 1) = 10 * Nat.pow 10 width := Nat.mul_comm _ _
    rw [padded, numeralValue_concat _ (Nat.mod_lt n (by decide)), ih, hpow, Nat.mod_mul]
    omega

/-- A field as wide as its number has digits is the number without leading zeros. -/
theorem padded_length_decimal (n : Nat) : padded (decimal n).length n = decimal n := by
  induction n using Nat.strongRecOn with
  | ind n ih =>
    rw [decimal_eq]
    by_cases hn : n < 10
    · rw [if_pos hn]
      rfl
    · rw [if_neg hn, List.length_append, List.length_singleton, padded, ih (n / 10) (by omega)]

/-- Zeros at the end of a number are zeros at the end of its field. -/
theorem padded_mul_pow (width n k : Nat) :
    padded (width + k) (n * Nat.pow 10 k) = padded width n ++ List.replicate k 48 := by
  induction k with
  | zero => simp
  | succ k ih =>
    have hpow : n * Nat.pow 10 (k + 1) = 10 * (n * Nat.pow 10 k) := by
      show n * (Nat.pow 10 k * 10) = 10 * (n * Nat.pow 10 k)
      rw [← Nat.mul_assoc, Nat.mul_comm]
    rw [← Nat.add_assoc, hpow, ← Nat.add_zero (10 * _), padded_concat _ _ (by decide), ih,
      List.replicate_succ', List.append_assoc]
    rfl

/-! ### Digits that are read -/

theorem padded_numeralValue {t : Text} (h : ∀ b ∈ t, isDigit b = true) :
    padded t.length (numeralValue t) = t := by
  induction t using List.reverseRecOn with
  | nil => rfl
  | append_singleton t b ih =>
    obtain ⟨d, hd, rfl⟩ := exists_digit (h b (by simp))
    rw [List.length_append, List.length_singleton, numeralValue_concat t hd, padded_concat _ _ hd,
      ih fun c hc => h c (List.mem_append_left _ hc)]

theorem numeralValue_lt_pow {t : Text} (h : ∀ b ∈ t, isDigit b = true) :
    numeralValue t < Nat.pow 10 t.length := by
  rw [← padded_numeralValue h, numeralValue_padded, length_padded]
  exact Nat.mod_lt _ (Nat.pow_pos (by decide))

/-- The text is a number without zeros in front, or a zero alone. -/
def Unpadded (t : Text) : Prop := DigitRun t ∧ (t.head? = some 48 → t = [48])

/-- The text is a number of so many digits. -/
def Field (width : Nat) (t : Text) : Prop := t.length = width ∧ ∀ b ∈ t, isDigit b = true

theorem head?_decimal_ne {n : Nat} (h : n ≠ 0) : (decimal n).head? ≠ some 48 := by
  induction n using Nat.strongRecOn with
  | ind n ih =>
    by_cases hn : n < 10
    · rw [decimal_eq, if_pos hn, Nat.mod_eq_of_lt hn, List.nil_append, List.head?_cons]
      intro hzero
      have hdigit := toNat_digit hn
      rw [Option.some.inj hzero] at hdigit
      exact h (Nat.add_left_cancel hdigit).symm
    · rw [decimal_eq, if_neg hn, List.head?_append_of_ne_nil _ (decimal_ne_nil _)]
      exact ih (n / 10) (by omega) (by omega)

theorem unpadded_decimal (n : Nat) : Unpadded (decimal n) := by
  refine ⟨digitRun_decimal n, fun hhead => ?_⟩
  by_cases hn : n = 0
  · rw [hn]
    decide
  · exact absurd hhead (head?_decimal_ne hn)

theorem field_padded (width n : Nat) : Field width (padded width n) :=
  ⟨length_padded width n, fun _ hb => isDigit_of_mem_padded hb⟩

theorem decimal_numeralValue {t : Text} (h : Unpadded t) : decimal (numeralValue t) = t := by
  obtain ⟨⟨hne, hdigits⟩, hzero⟩ := h
  induction t using List.reverseRecOn with
  | nil => exact absurd rfl hne
  | append_singleton t b ih =>
    obtain ⟨d, hd, rfl⟩ := exists_digit (hdigits b (by simp))
    rw [numeralValue_concat t hd]
    by_cases hfront : t = []
    · subst hfront
      have hvalue : 10 * numeralValue [] + d = d := Nat.zero_add d
      rw [hvalue, decimal_eq, if_pos hd, Nat.mod_eq_of_lt hd]
    · have hhead : t.head? ≠ some 48 := by
        intro hhead
        have hsingle := hzero (by rw [List.head?_append_of_ne_nil _ hfront, hhead])
        have hlength := congrArg List.length hsingle
        rw [List.length_append, List.length_singleton, List.length_singleton] at hlength
        exact hfront (List.length_eq_zero_iff.mp (by omega))
      have hwritten := ih (fun h => absurd h hhead) hfront
        fun c hc => hdigits c (List.mem_append_left _ hc)
      have hpos : numeralValue t ≠ 0 := by
        intro hvalue
        rw [hvalue] at hwritten
        exact hhead (by rw [← hwritten]; decide)
      rw [decimal_concat hpos hd, hwritten]

/-- A field is written as it is read. -/
theorem Field.padded_eq {width : Nat} {t : Text} (h : Field width t) :
    padded width (numeralValue t) = t := by
  rw [← h.1]
  exact padded_numeralValue h.2

theorem Field.numeralValue_lt {width : Nat} {t : Text} (h : Field width t) :
    numeralValue t < Nat.pow 10 width := by
  rw [← h.1]
  exact numeralValue_lt_pow h.2

/-! ### Fields in order -/

/-- Of two texts with fronts of one length the fronts decide, and then the rest. -/
theorem append_lt_append_iff {s s' t t' : Text} (h : s.length = s'.length) :
    s ++ t < s' ++ t' ↔ s < s' ∨ s = s' ∧ t < t' := by
  induction s generalizing s' with
  | nil =>
    obtain rfl := List.length_eq_zero_iff.mp h.symm
    simp
  | cons b s ih =>
    cases s' with
    | nil => exact absurd h (by simp)
    | cons b' s' =>
      rw [List.cons_append, List.cons_append, List.cons_lt_cons_iff, List.cons_lt_cons_iff,
        ih (Nat.succ.inj h), List.cons.injEq, and_or_left, or_assoc, and_assoc]

theorem digit_lt_digit_iff {d e : Nat} (hd : d < 10) (he : e < 10) : digit d < digit e ↔ d < e := by
  rw [UInt8.lt_iff_toNat_lt, toNat_digit hd, toNat_digit he]
  exact Nat.add_lt_add_iff_left

theorem padded_inj {width m n : Nat} (hm : m < Nat.pow 10 width) (hn : n < Nat.pow 10 width) :
    padded width m = padded width n ↔ m = n := by
  refine ⟨fun h => ?_, fun h => h ▸ rfl⟩
  have hvalue := congrArg numeralValue h
  rwa [numeralValue_padded, numeralValue_padded, Nat.mod_eq_of_lt hm, Nat.mod_eq_of_lt hn] at hvalue

/-- Fields of one width stand in the order of their numbers. -/
theorem padded_lt_padded_iff {width m n : Nat} (hm : m < Nat.pow 10 width)
    (hn : n < Nat.pow 10 width) : padded width m < padded width n ↔ m < n := by
  induction width generalizing m n with
  | zero =>
    obtain rfl := Nat.lt_one_iff.mp hm
    obtain rfl := Nat.lt_one_iff.mp hn
    simp [padded]
  | succ width ih =>
    have hfront {k : Nat} (hk : k < Nat.pow 10 (width + 1)) : k / 10 < Nat.pow 10 width :=
      Nat.div_lt_of_lt_mul (Nat.mul_comm (Nat.pow 10 width) 10 ▸ hk)
    have hlast : [digit (m % 10)] < [digit (n % 10)] ↔ m % 10 < n % 10 := by
      rw [List.cons_lt_cons_iff, digit_lt_digit_iff (Nat.mod_lt m (by decide))
        (Nat.mod_lt n (by decide))]
      simp
    rw [padded, padded, append_lt_append_iff (by rw [length_padded, length_padded]),
      ih (hfront hm) (hfront hn), padded_inj (hfront hm) (hfront hn), hlast]
    omega

/-- A field and the separator after it, in front of what follows them. -/
theorem padded_append_lt_iff {width m n : Nat} (hm : m < Nat.pow 10 width)
    (hn : n < Nat.pow 10 width) (separator : UInt8) (s t : Text) :
    padded width m ++ separator :: s < padded width n ++ separator :: t ↔
      m < n ∨ m = n ∧ s < t := by
  rw [append_lt_append_iff (by rw [length_padded, length_padded]), padded_lt_padded_iff hm hn,
    padded_inj hm hn, List.cons_lt_cons_self]

end Text

end TraceContract
