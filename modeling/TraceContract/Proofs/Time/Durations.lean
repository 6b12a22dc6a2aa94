import TraceContract.Proofs.Text.Decimals
import TraceContract.Time.Elapsed

/-!
# Durations read back

The text of a duration gives its milliseconds, all of them, and gives those of no other duration.

* `Elapsed.Reads` says how a number of milliseconds is written, in the two layouts `s.fff` and
  `m:ss.fff`, and what its parts count.
* `reads_iff`: each number is written in one way, which is that of `Elapsed.digits`, and
  `Reads.unique`: no text is read in two ways.
* `length_digits_lt`: the text of every duration of 64 bits fits the buffer.
* `text_reads_back`: the text of every duration of 64 bits.
-/

namespace TraceContract

namespace Elapsed

open Text

/-- A text gives a number of milliseconds: below one minute as seconds, a point and three digits of
milliseconds, from one minute on as minutes, a colon, two digits of seconds below sixty and the same
point and digits. -/
inductive Reads (t : Text) (v : Nat) : Prop
  | seconds (s f : Text) (below : v < 60000) (text_eq : t = s ++ ascii "." ++ f)
      (hs : Unpadded s) (hf : Field 3 f) (value_eq : numeralValue s * 1000 + numeralValue f = v)
  | minutes (m s f : Text) (above : 60000 ≤ v)
      (text_eq : t = m ++ ascii ":" ++ s ++ ascii "." ++ f)
      (hm : Unpadded m) (hs : Field 2 s) (hlt : numeralValue s < 60) (hf : Field 3 f)
      (value_eq : numeralValue m * 60000 + numeralValue s * 1000 + numeralValue f = v)

theorem reads_digits (v : Nat) : Reads (digits v) v := by
  have hthousands : v % 1000 % Nat.pow 10 3 = v % 1000 := Nat.mod_mod v 1000
  by_cases hv : v < 60000
  · refine .seconds (decimal (v / 1000)) (padded 3 (v % 1000)) hv ?_ (unpadded_decimal _)
      (field_padded _ _) ?_
    · rw [digits, if_pos hv]
    · rw [numeralValue_decimal, numeralValue_padded, hthousands]
      omega
  · have hsixty : v / 1000 % 60 % Nat.pow 10 2 = v / 1000 % 60 :=
      Nat.mod_eq_of_lt (show v / 1000 % 60 < 100 by omega)
    refine .minutes (decimal (v / 60000)) (padded 2 (v / 1000 % 60)) (padded 3 (v % 1000))
      (Nat.not_lt.mp hv) ?_ (unpadded_decimal _) (field_padded _ _) ?_ (field_padded _ _) ?_
    · rw [digits, if_neg hv]
    · rw [numeralValue_padded, hsixty]
      exact Nat.mod_lt _ (by decide)
    · rw [numeralValue_decimal, numeralValue_padded, numeralValue_padded, hthousands, hsixty]
      omega

namespace Reads

variable {t : Text} {v w : Nat}

/-- What reads as a number is how the number is written. -/
theorem eq_digits (h : Reads t v) : t = digits v := by
  cases h with
  | seconds s f below text_eq hs hf value_eq =>
    have hlt : numeralValue f < 1000 := hf.numeralValue_lt
    have hseconds : v / 1000 = numeralValue s := by omega
    have hthousands : v % 1000 = numeralValue f := by omega
    rw [text_eq, digits, if_pos below, hseconds, hthousands, decimal_numeralValue hs, hf.padded_eq]
  | minutes m s f above text_eq hm hs hlt hf value_eq =>
    have hlt' : numeralValue f < 1000 := hf.numeralValue_lt
    have hminutes : v / 60000 = numeralValue m := by omega
    have hseconds : v / 1000 % 60 = numeralValue s := by omega
    have hthousands : v % 1000 = numeralValue f := by omega
    rw [text_eq, digits, if_neg (Nat.not_lt.mpr above), hminutes, hseconds, hthousands,
      decimal_numeralValue hm, hs.padded_eq, hf.padded_eq]

theorem split_eq {front front' field field' : Text} {width : Nat} (separator : Text)
    (hfield : Field width field) (hfield' : Field width field')
    (h : front ++ separator ++ field = front' ++ separator ++ field') :
    front = front' ∧ field = field' := by
  obtain ⟨hfront, heq⟩ := List.append_inj' h (hfield.1.trans hfield'.1.symm)
  exact ⟨List.append_cancel_right hfront, heq⟩

theorem unpadded_ne_colon {s m rest : Text} (hs : Unpadded s) : s ≠ m ++ ascii ":" ++ rest := by
  rintro rfl
  have hcolon := hs.1.2 58 (by simp [ascii])
  exact absurd hcolon (by decide)

/-- **A text is read in one way.** -/
theorem unique (h : Reads t v) (h' : Reads t w) : v = w := by
  cases h with
  | seconds s f below text_eq hs hf value_eq =>
    cases h' with
    | seconds s' f' below' text_eq' hs' hf' value_eq' =>
      obtain ⟨rfl, rfl⟩ := split_eq _ hf hf' (text_eq.symm.trans text_eq')
      exact value_eq.symm.trans value_eq'
    | minutes m' s' f' above' text_eq' hm' hs' hlt' hf' value_eq' =>
      obtain ⟨hfront, -⟩ := split_eq _ hf hf' (text_eq.symm.trans text_eq')
      exact absurd hfront (unpadded_ne_colon hs)
  | minutes m s f above text_eq hm hs hlt hf value_eq =>
    cases h' with
    | seconds s' f' below' text_eq' hs' hf' value_eq' =>
      obtain ⟨hfront, -⟩ := split_eq _ hf' hf (text_eq'.symm.trans text_eq)
      exact absurd hfront (unpadded_ne_colon hs')
    | minutes m' s' f' above' text_eq' hm' hs' hlt' hf' value_eq' =>
      obtain ⟨hfront, rfl⟩ := split_eq _ hf hf' (text_eq.symm.trans text_eq')
      obtain ⟨rfl, rfl⟩ := split_eq _ hs hs' hfront
      exact value_eq.symm.trans value_eq'

end Reads

/-- **Each number of milliseconds is written in one way.** -/
theorem reads_iff {t : Text} {v : Nat} : Reads t v ↔ t = digits v := by
  refine ⟨Reads.eq_digits, ?_⟩
  rintro rfl
  exact reads_digits v

/-! ### The buffer -/

theorem length_digits_le {v k : Nat} (hk : 2 ≤ k) (h : v / 60000 < Nat.pow 10 k) :
    (digits v).length ≤ k + 7 := by
  have hseparators : (ascii ":").length = 1 ∧ (ascii ".").length = 1 := by decide
  rw [digits]
  split
  · next hv =>
    have hseconds : v / 1000 < Nat.pow 10 2 := show v / 1000 < 100 by omega
    have hdecimal := (length_decimal_le_iff (by decide)).mpr hseconds
    rw [List.length_append, List.length_append, length_padded]
    omega
  · have hdecimal := (length_decimal_le_iff (by omega)).mpr h
    simp only [List.length_append, length_padded]
    omega

/-- The longest text of 64 bits has twenty-two bytes. -/
theorem length_digits_lt (milliseconds : Int64) :
    (digits milliseconds.toInt.toNat).length < bufferSize := by
  have hlt : milliseconds.toInt < 9223372036854775808 := milliseconds.toInt_lt
  have hminutes : milliseconds.toInt.toNat / 60000 < Nat.pow 10 15 :=
    show milliseconds.toInt.toNat / 60000 < 1000000000000000 by omega
  have hlength := length_digits_le (by decide) hminutes
  rw [bufferSize]
  omega

theorem text_eq_digits (milliseconds : Int64) :
    text milliseconds.toInt = digits milliseconds.toInt.toNat :=
  List.take_of_length_le (Nat.le_sub_one_of_lt (length_digits_lt milliseconds))

/-- **The text of a duration gives its milliseconds**, for every duration of 64 bits; a negative one
counts as none.

It has the layout `s.fff` below one minute and `m:ss.fff` from there on, with as many digits for the
minutes as they need; what its parts count is the duration, and no other text gives that duration
and no other duration has that text.  The buffer holds it whole.  So two durations have one text if
and only if they are the same, or neither is more than nothing. -/
theorem text_reads_back (milliseconds : Int64) :
    (∀ v, Reads (text milliseconds.toInt) v ↔ v = (max milliseconds.toInt 0).toNat) ∧
    (∀ t, Reads t (max milliseconds.toInt 0).toNat ↔ t = text milliseconds.toInt) ∧
    text milliseconds.toInt = digits (max milliseconds.toInt 0).toNat ∧
    (digits (max milliseconds.toInt 0).toNat).length < bufferSize ∧
    (∀ other : Int64, text milliseconds.toInt = text other.toInt ↔
      max milliseconds.toInt 0 = max other.toInt 0) := by
  have hcount (u : Int64) : (max u.toInt 0).toNat = u.toInt.toNat := by omega
  simp only [hcount]
  have hreads (u : Int64) : Reads (text u.toInt) u.toInt.toNat := by
    rw [text_eq_digits]
    exact reads_digits _
  refine ⟨fun v => ⟨fun h => h.unique (hreads _), ?_⟩, fun t => ?_, text_eq_digits _,
    length_digits_lt _, fun other => ?_⟩
  · rintro rfl
    exact hreads _
  · rw [reads_iff, text_eq_digits]
  · constructor
    · intro htext
      have hother := hreads other
      rw [← htext] at hother
      have hsame := (hreads milliseconds).unique hother
      omega
    · intro hmax
      rw [text_eq_digits, text_eq_digits]
      congr 1
      omega

/-- The longest duration, and the shortest. -/
example : text (9223372036854775807 : Int64).toInt = ascii "153722867280912:55.807" ∧
    text (-9223372036854775808 : Int64).toInt = ascii "0.000" := by decide

end Elapsed

end TraceContract
