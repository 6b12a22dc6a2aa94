import TraceContract.Proofs.Time.Reading

/-!
# The order of instants and of their texts

Texts are compared byte by byte.  The layout of an instant has its fields in the order of their
weight and each of a fixed width, so that texts stand in the order of the milliseconds that they
name.  These are not always the milliseconds of the instants: the full second of an instant is
truncated toward zero and its milliseconds are counted upward, and before 1970 these two go apart.
An instant inside a second is then named one second late,

    -500 ms  ↦  1970-01-01 00:00:00.500

and comes, as a text, behind the instants of the second that follows.

* `Date.toDay_lt`: a date that comes first by year, month and day counts fewer days.
* `Instant.text_lt_text_iff`: texts stand in the order of what they name (`Instant.named`).
* `Instant.named_eq`: what they name.
* `Instant.text_le_text_of_le`: when the order of the texts is that of the instants, from 1970 on
  always; `Instant.text_disordered` is a pair whose texts stand the other way round.
-/

namespace TraceContract

/-! ### Dates in order -/

namespace Date

theorem total_append (earlier later : List Nat) :
    total (earlier ++ later) = total earlier + total later := by
  induction earlier with
  | nil => rw [List.nil_append, total_nil, Nat.zero_add]
  | cons length earlier ih => rw [List.cons_append, total_cons, total_cons, ih, Nat.add_assoc]

theorem total_take_mono (lengths : List Nat) {k n : Nat} (h : k ≤ n) :
    total (lengths.take k) ≤ total (lengths.take n) := by
  obtain ⟨j, rfl⟩ := Nat.exists_eq_add_of_le h
  rw [List.take_add, total_append]
  exact Nat.le_add_right _ _

theorem total_take_le (lengths : List Nat) (k : Nat) : total (lengths.take k) ≤ total lengths := by
  conv => rhs; rw [← List.take_append_drop k lengths, total_append]
  exact Nat.le_add_right _ _

theorem total_take_succ {lengths : List Nat} {k length : Nat} (h : lengths[k]? = some length) :
    total (lengths.take (k + 1)) = total (lengths.take k) + length := by
  rw [List.take_add_one, h, total_append, Option.toList_some, total_cons, total_nil, Nat.add_zero]

theorem Valid.day_le_total {d : Date} (h : d.Valid) :
    daysBeforeMonth (monthLengths (isLeap d.year)) d.month + d.day ≤
      total ((monthLengths (isLeap d.year)).take d.month) := by
  obtain ⟨hmonth, -, length, hlength, hday⟩ := h
  have hmonths := total_take_succ hlength
  rw [Nat.sub_add_cancel hmonth] at hmonths
  rw [daysBeforeMonth, hmonths, total]
  omega

/-- One date comes before another by its year, else by its month, else by its day. -/
def Before (d e : Date) : Prop :=
  d.year < e.year ∨ d.year = e.year ∧ (d.month < e.month ∨ d.month = e.month ∧ d.day < e.day)

/-- **A date that comes before another counts fewer days.** -/
theorem toDay_lt {d e : Date} (hd : d.Valid) (he : e.Valid) (h : d.Before e) :
    d.toDay < e.toDay := by
  have hmonth := hd.day_le_total
  have hfirst : 1 ≤ d.day ∧ 1 ≤ e.day := ⟨hd.2.1, he.2.1⟩
  rw [toDay, toDay]
  rcases h with hyear | ⟨hyear, hrest⟩
  · -- The year of the first date is over when that of the second begins.
    have hend := total_take_le (monthLengths (isLeap d.year)) d.month
    have hnext := daysBeforeYear_succ d.year
    have hmono := daysBeforeYear_mono (Int.add_one_le_of_lt hyear)
    omega
  · rw [← hyear]
    rcases hrest with hlt | ⟨hsame, hday⟩
    · have hend := total_take_mono (monthLengths (isLeap d.year)) (Nat.le_sub_one_of_lt hlt)
      have hnext : daysBeforeMonth (monthLengths (isLeap d.year)) e.month =
          total ((monthLengths (isLeap d.year)).take (e.month - 1)) := rfl
      omega
    · rw [hsame]
      omega

end Date

namespace Clock

/-- One time of the day comes before another by its hour, else by its minute, else by its second. -/
def Before (c d : Clock) : Prop :=
  c.hour < d.hour ∨
    c.hour = d.hour ∧ (c.minute < d.minute ∨ c.minute = d.minute ∧ c.second < d.second)

theorem toSecond_lt {c d : Clock} (hc : c.Valid) (h : c.Before d) : c.toSecond < d.toSecond := by
  obtain ⟨-, hminute, hsecond⟩ := hc
  rw [toSecond, toSecond]
  rcases h with hlt | ⟨heq, hlt | ⟨heq', hlt⟩⟩
  · omega
  · omega
  · omega

theorem Valid.toSecond_lt {c : Clock} (h : c.Valid) : c.toSecond < 86400 := by
  obtain ⟨hhour, hminute, hsecond⟩ := h
  rw [toSecond]
  omega

end Clock

namespace Instant

/-! ### Texts in order -/

/-- The dates decide, then the times of the day, then the milliseconds. -/
theorem text_lt_iff (t u : Int64) :
    text t.toInt < text u.toInt ↔
      (date t.toInt).Before (date u.toInt) ∨ date t.toInt = date u.toInt ∧
        ((clock t.toInt).Before (clock u.toInt) ∨ clock t.toInt = clock u.toInt ∧
          millisecond t.toInt < millisecond u.toInt) := by
  obtain ⟨htfirst, htlast⟩ := year_date t
  obtain ⟨hufirst, hulast⟩ := year_date u
  have hyear {year : Int} (h : year ≤ 2262) : year.toNat < Nat.pow 10 4 :=
    show year.toNat < 10000 by omega
  have hmonth (v : Int) : (date v).month < Nat.pow 10 2 :=
    Nat.lt_of_le_of_lt (valid_date v).month_le (by decide)
  have hday (v : Int) : (date v).day < Nat.pow 10 2 :=
    Nat.lt_of_le_of_lt (valid_date v).day_le (by decide)
  have hhour (v : Int) : (clock v).hour < Nat.pow 10 2 :=
    Nat.lt_trans (valid_clock v).1 (by decide)
  have hminute (v : Int) : (clock v).minute < Nat.pow 10 2 :=
    Nat.lt_trans (valid_clock v).2.1 (by decide)
  have hsecond (v : Int) : (clock v).second < Nat.pow 10 2 :=
    Nat.lt_trans (valid_clock v).2.2 (by decide)
  rw [text_eq, text_eq, Text.padded_append_lt_iff (hyear htlast) (hyear hulast),
    Text.padded_append_lt_iff (hmonth _) (hmonth _), Text.padded_append_lt_iff (hday _) (hday _),
    Text.padded_append_lt_iff (hhour _) (hhour _),
    Text.padded_append_lt_iff (hminute _) (hminute _),
    Text.padded_append_lt_iff (hsecond _) (hsecond _),
    Text.padded_lt_padded_iff (millisecond_lt _) (millisecond_lt _)]
  generalize millisecond t.toInt = m, millisecond u.toInt = n
  generalize clock t.toInt = c, clock u.toInt = k
  generalize date t.toInt = d, date u.toInt = e at *
  obtain ⟨year, month, day⟩ := d
  obtain ⟨year', month', day'⟩ := e
  obtain ⟨hour, minute, second⟩ := c
  obtain ⟨hour', minute', second'⟩ := k
  simp only [Date.Before, Clock.Before, Date.mk.injEq, Clock.mk.injEq] at *
  omega

/-- The millisecond that the text of an instant names, counted from the beginning of 1970. -/
def named (nanoseconds : Int) : Int := second nanoseconds * 1000 + millisecond nanoseconds

theorem named_lt_of_text_lt {t u : Int64} (h : text t.toInt < text u.toInt) :
    named t.toInt < named u.toInt := by
  have hsecond := second_eq t.toInt
  have hsecond' := second_eq u.toInt
  have hday := (valid_clock t.toInt).toSecond_lt
  have hmillisecond := millisecond_lt t.toInt
  rw [named, named]
  rcases (text_lt_iff t u).mp h with hdate | ⟨hdate, hclock | ⟨hclock, hlt⟩⟩
  · have := Date.toDay_lt (valid_date _) (valid_date _) hdate
    omega
  · have := Clock.toSecond_lt (valid_clock _) hclock
    rw [hdate] at hsecond
    omega
  · rw [hdate, hclock] at hsecond
    omega

/-- **Texts of instants stand in the order of the milliseconds that they name.** -/
theorem text_lt_text_iff (t u : Int64) :
    text t.toInt < text u.toInt ↔ named t.toInt < named u.toInt := by
  refine ⟨named_lt_of_text_lt, fun h => ?_⟩
  refine Classical.byContradiction fun hnot => ?_
  rcases List.le_iff_lt_or_eq.mp (List.not_lt.mp hnot) with hlt | heq
  · exact Int.lt_asymm h (named_lt_of_text_lt hlt)
  · have hcount := congrArg milliseconds heq
    rw [milliseconds_text, milliseconds_text] at hcount
    exact Int.ne_of_lt h hcount.symm

/-! ### What is named -/

/-- Before 1970 and inside a second: the milliseconds beyond the full seconds, both counted from
1970, are below zero. -/
def Early (nanoseconds : Int) : Prop := (nanoseconds.tdiv 1000000).tmod 1000 < 0

instance (nanoseconds : Int) : Decidable (Early nanoseconds) := Int.decLt ..

theorem not_early_of_nonneg {nanoseconds : Int} (h : 0 ≤ nanoseconds) : ¬ Early nanoseconds :=
  Int.not_lt.mpr (Int.tmod_nonneg _ (Int.tdiv_nonneg h (by decide)))

theorem tdiv_tdiv_of_nonneg {count : Int} (h : 0 ≤ count) :
    (count.tdiv 1000000).tdiv 1000 = count.tdiv 1000000000 := by
  rw [Int.tdiv_eq_ediv_of_nonneg h, Int.tdiv_eq_ediv_of_nonneg h,
    Int.tdiv_eq_ediv_of_nonneg (Int.ediv_nonneg h (by decide))]
  omega

theorem second_eq_tdiv (nanoseconds : Int) :
    second nanoseconds = (nanoseconds.tdiv 1000000).tdiv 1000 := by
  rw [second]
  -- Truncated toward zero, a count and its negative are divided alike.
  rcases nanoseconds.eq_nat_or_neg with ⟨n, rfl | rfl⟩
  · rw [tdiv_tdiv_of_nonneg (Int.natCast_nonneg n)]
  · rw [Int.neg_tdiv, Int.neg_tdiv, Int.neg_tdiv, tdiv_tdiv_of_nonneg (Int.natCast_nonneg n)]

/-- **Which millisecond is named**: that of the instant, and one second later where the instant is
before 1970 and inside a second. -/
theorem named_eq (nanoseconds : Int) :
    named nanoseconds =
      nanoseconds.tdiv 1000000 + if Early nanoseconds then 1000 else 0 := by
  have hsum := Int.mul_tdiv_add_tmod (nanoseconds.tdiv 1000000) 1000
  have hlt := Int.tmod_lt_of_pos (nanoseconds.tdiv 1000000) (show (0 : Int) < 1000 by decide)
  have hgt := Int.lt_tmod_of_pos (nanoseconds.tdiv 1000000) (show (0 : Int) < 1000 by decide)
  rw [named, second_eq_tdiv, millisecond]
  by_cases h : Early nanoseconds
  · rw [if_pos h]
    rw [Early] at h
    omega
  · rw [if_neg h]
    rw [Early] at h
    omega

/-! ### When the orders agree -/

/-- **The order of texts is that of instants from 1970 on**, and of all instants of 64 bits unless
the first is inside a second before 1970.

The text of an instant names its millisecond, and one second later if the instant is before 1970 and
inside a second.  Of two instants the earlier has the smaller text or the same, unless the earlier
one is named late, the other is not, and less than a second lies between them. -/
theorem text_le_text_of_le (t u : Int64) (h : t.toInt ≤ u.toInt) :
    milliseconds (text t.toInt) =
      t.toInt.tdiv 1000000 + (if Early t.toInt then 1000 else 0) ∧
    (0 ≤ t.toInt → text t.toInt ≤ text u.toInt) ∧
    (text t.toInt ≤ text u.toInt ↔
      ¬ (Early t.toInt ∧ ¬ Early u.toInt ∧
        u.toInt.tdiv 1000000 < t.toInt.tdiv 1000000 + 1000)) := by
  have hfull : t.toInt.tdiv 1000000 ≤ u.toInt.tdiv 1000000 := Int.tdiv_le_tdiv (by decide) h
  have hle : text t.toInt ≤ text u.toInt ↔
      ¬ (Early t.toInt ∧ ¬ Early u.toInt ∧
        u.toInt.tdiv 1000000 < t.toInt.tdiv 1000000 + 1000) := by
    rw [← List.not_lt, text_lt_text_iff, named_eq, named_eq]
    by_cases ht : Early t.toInt
    · by_cases hu : Early u.toInt
      · rw [if_pos ht, if_pos hu]
        simp only [ht, hu, not_true_eq_false, false_and, and_false, not_false_eq_true, iff_true]
        omega
      · rw [if_pos ht, if_neg hu]
        simp only [ht, hu, not_false_eq_true, true_and]
        omega
    · rw [if_neg ht]
      simp only [ht, false_and, not_false_eq_true, iff_true]
      split
      · omega
      · omega
  refine ⟨?_, fun hpos => ?_, hle⟩
  · rw [milliseconds_text, ← named, named_eq]
  · exact hle.mpr fun hearly => not_early_of_nonneg hpos hearly.1

/-- Two instants inside one second before 1970, both of them named late. -/
theorem text_le_text_of_le_eve :
    (-1500000000 : Int64).toInt ≤ (-1250000000 : Int64).toInt ∧
      text (-1500000000 : Int64).toInt ≤ text (-1250000000 : Int64).toInt ∧
      milliseconds (ascii "1969-12-31 23:59:59.500") = -500 := by
  have hle : (-1500000000 : Int64).toInt ≤ (-1250000000 : Int64).toInt := by decide
  obtain ⟨hnamed, -, horder⟩ := text_le_text_of_le (-1500000000) (-1250000000) hle
  have htext : text (-1500000000 : Int64).toInt = ascii "1969-12-31 23:59:59.500" := by decide
  rw [htext] at hnamed
  exact ⟨hle, horder.mpr (by decide), hnamed.trans (by decide)⟩

/-- **The last millisecond before 1970 has a greater text than the first one after it.** -/
theorem text_disordered :
    (-1000000 : Int64).toInt ≤ (0 : Int64).toInt ∧
      ¬ text (-1000000 : Int64).toInt ≤ text (0 : Int64).toInt := by
  decide

end Instant

end TraceContract
