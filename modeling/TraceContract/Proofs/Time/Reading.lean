import Mathlib.Data.List.Forall2
import TraceContract.Proofs.Text.Decimals
import TraceContract.Proofs.Time.Calendar
import TraceContract.Time.Instant

/-!
# Instants read back

The text of an instant from 1970 on says which millisecond it falls in, and says nothing else.

* `Instant.Shaped` is the layout `YYYY-MM-DD HH:MM:SS.mmm`; every text of an instant has it.
* `Instant.dateOf`, `Instant.clockOf` and `Instant.millisecondOf` read the numbers at their places
  of the layout, `Instant.milliseconds` counts from the beginning of 1970 to what they name.
* `Instant.Names` says of a text that it names a millisecond, by a date of the calendar and a time
  of the day.  `text_names_millisecond` is the result, for all instants of 64 bits from 1970 on.
-/

namespace TraceContract

namespace Clock

/-- The times of a day without leap seconds. -/
def Valid (c : Clock) : Prop := c.hour < 24 ∧ c.minute < 60 ∧ c.second < 60

theorem valid_ofSecond {second : Nat} (h : second < 86400) : (ofSecond second).Valid := by
  refine ⟨?_, ?_, ?_⟩
  · show second / 3600 < 24
    omega
  · exact Nat.mod_lt _ (by decide)
  · exact Nat.mod_lt _ (by decide)

theorem toSecond_ofSecond (second : Nat) : (ofSecond second).toSecond = second := by
  show second / 3600 * 3600 + second / 60 % 60 * 60 + second % 60 = second
  omega

end Clock

namespace Instant

/-! ### The layout -/

/-- How an instant is laid out: a letter keeps the place of a digit, all else stands for itself. -/
def layout : Text := ascii "YYYY-MM-DD HH:MM:SS.mmm"

def Stands (place b : UInt8) : Prop := if 65 ≤ place then Text.isDigit b = true else b = place

def Shaped (t : Text) : Prop := List.Forall₂ Stands layout t

theorem Shaped.length_eq {t : Text} (h : Shaped t) : t.length = 23 :=
  (List.Forall₂.length_eq h).symm.trans (by decide)

def field (t : Text) (start width : Nat) : Nat := Text.numeralValue ((t.drop start).take width)

def dateOf (t : Text) : Date := ⟨field t 0 4, field t 5 2, field t 8 2⟩

def clockOf (t : Text) : Clock := ⟨field t 11 2, field t 14 2, field t 17 2⟩

def millisecondOf (t : Text) : Nat := field t 20 3

/-- The milliseconds from the beginning of 1970 to the date and the time that a text names. -/
def milliseconds (t : Text) : Int :=
  ((dateOf t).toDay * 86400 + (clockOf t).toSecond) * 1000 + millisecondOf t

/-- A text names a millisecond, counted from the beginning of 1970. -/
structure Names (t : Text) (millisecond : Int) : Prop where
  shaped : Shaped t
  length_eq : t.length = 23
  date : (dateOf t).Valid
  clock : (clockOf t).Valid
  milliseconds_eq : milliseconds t = millisecond

/-! ### The text by its fields -/

/-- The separators as the bytes they are. -/
theorem text_eq (nanoseconds : Int) :
    text nanoseconds =
      Text.padded 4 (date nanoseconds).year.toNat ++ 45 ::
      (Text.padded 2 (date nanoseconds).month ++ 45 ::
      (Text.padded 2 (date nanoseconds).day ++ 32 ::
      (Text.padded 2 (clock nanoseconds).hour ++ 58 ::
      (Text.padded 2 (clock nanoseconds).minute ++ 58 ::
      (Text.padded 2 (clock nanoseconds).second ++ 46 ::
      Text.padded 3 (millisecond nanoseconds)))))) := by
  simp only [text, List.append_assoc]
  rfl

theorem layout_eq :
    layout =
      List.replicate 4 89 ++ 45 :: (List.replicate 2 77 ++ 45 :: (List.replicate 2 68 ++ 32 ::
      (List.replicate 2 72 ++ 58 :: (List.replicate 2 77 ++ 58 :: (List.replicate 2 83 ++ 46 ::
      List.replicate 3 109))))) := by
  decide

theorem forall₂_padded {place : UInt8} (h : 65 ≤ place) (width n : Nat) :
    List.Forall₂ Stands (List.replicate width place) (Text.padded width n) := by
  rw [List.forall₂_iff_get]
  refine ⟨by rw [List.length_replicate, Text.length_padded], fun i hi hi' => ?_⟩
  rw [Stands, List.get_eq_getElem, List.getElem_replicate, if_pos h]
  exact Text.isDigit_of_mem_padded (List.get_mem _ ⟨i, hi'⟩)

theorem forall₂_padded_append {place separator : UInt8} (h : 65 ≤ place) (h' : separator < 65)
    (width n : Nat) {places t : Text} (ht : List.Forall₂ Stands places t) :
    List.Forall₂ Stands (List.replicate width place ++ separator :: places)
      (Text.padded width n ++ separator :: t) := by
  refine List.rel_append (forall₂_padded h width n) (.cons ?_ ht)
  rw [Stands, if_neg (UInt8.not_le.mpr h')]

/-- **Every instant is written in the layout.** -/
theorem shaped_text (nanoseconds : Int) : Shaped (text nanoseconds) := by
  rw [Shaped, text_eq, layout_eq]
  repeat refine forall₂_padded_append (by decide) (by decide) _ _ ?_
  exact forall₂_padded (by decide) _ _

theorem field_first (width n : Nat) (rest : Text) :
    field (Text.padded width n ++ rest) 0 width = n % Nat.pow 10 width := by
  rw [field, List.drop_zero, List.take_left' (Text.length_padded width n),
    Text.numeralValue_padded]

theorem field_only (width n : Nat) : field (Text.padded width n) 0 width = n % Nat.pow 10 width := by
  have := field_first width n []
  rwa [List.append_nil] at this

theorem field_later {width start : Nat} (h : width < start) (n : Nat) (separator : UInt8)
    (rest : Text) (width' : Nat) :
    field (Text.padded width n ++ separator :: rest) start width' =
      field rest (start - (width + 1)) width' := by
  obtain ⟨start, rfl⟩ := Nat.exists_eq_add_of_lt h
  have hdrop : (Text.padded width n ++ separator :: rest).drop (width + start + 1) =
      rest.drop start := by
    rw [Nat.add_assoc, ← List.drop_drop, List.drop_left' (Text.length_padded width n),
      List.drop_succ_cons]
  have hstart : width + start + 1 - (width + 1) = start := by omega
  rw [field, hdrop, hstart, field]

/-! ### What the fields hold -/

theorem second_eq (nanoseconds : Int) :
    (date nanoseconds).toDay * 86400 + (clock nanoseconds).toSecond = second nanoseconds := by
  rw [date, Date.toDay_ofDay, clock, Clock.toSecond_ofSecond]
  omega

theorem valid_date (nanoseconds : Int) : (date nanoseconds).Valid := Date.valid_ofDay _

theorem valid_clock (nanoseconds : Int) : (clock nanoseconds).Valid :=
  Clock.valid_ofSecond (by omega)

/-- The second is less than a second away. -/
theorem second_near (nanoseconds : Int) :
    nanoseconds - 1000000000 < second nanoseconds * 1000000000 ∧
      second nanoseconds * 1000000000 < nanoseconds + 1000000000 := by
  have hsum : 1000000000 * second nanoseconds + nanoseconds.tmod 1000000000 = nanoseconds :=
    Int.mul_tdiv_add_tmod nanoseconds 1000000000
  have hlt : nanoseconds.tmod 1000000000 < 1000000000 := Int.tmod_lt_of_pos _ (by decide)
  have hgt : -1000000000 < nanoseconds.tmod 1000000000 := Int.lt_tmod_of_pos _ (by decide)
  omega

/-- An instant of 64 bits falls in one of the years from 1677 to 2262. -/
theorem year_date (t : Int64) : 1677 ≤ (date t.toInt).year ∧ (date t.toInt).year ≤ 2262 := by
  have hnear := second_near t.toInt
  have hle : -9223372036854775808 ≤ t.toInt := t.le_toInt
  have hlt : t.toInt < 9223372036854775808 := t.toInt_lt
  have hfirst : Date.daysBeforeYear 1677 - Date.daysBefore1970 = -107015 := by decide
  have hlast : Date.daysBeforeYear (2262 + 1) - Date.daysBefore1970 = 107016 := by decide
  constructor
  · rw [date, Date.le_year_ofDay_iff]
    omega
  · refine Int.le_of_lt_add_one (Int.not_le.mp fun hyear => ?_)
    rw [date, Date.le_year_ofDay_iff] at hyear
    omega

theorem millisecond_lt (nanoseconds : Int) : millisecond nanoseconds < 1000 := by
  rw [millisecond]
  omega

theorem dateOf_text {nanoseconds : Int} (h : 0 ≤ (date nanoseconds).year)
    (h' : (date nanoseconds).year < 10000) : dateOf (text nanoseconds) = date nanoseconds := by
  have hmonth := (valid_date nanoseconds).month_le
  have hday := (valid_date nanoseconds).day_le
  rw [text_eq, dateOf, field_first, field_later (by decide), field_first, field_later (by decide),
    field_later (by decide), field_first]
  simp only [Nat.pow_eq, Nat.reducePow]
  rw [Nat.mod_eq_of_lt (by omega), Nat.mod_eq_of_lt (by omega), Nat.mod_eq_of_lt (by omega),
    Int.toNat_of_nonneg h]

theorem clockOf_text (nanoseconds : Int) : clockOf (text nanoseconds) = clock nanoseconds := by
  obtain ⟨hhour, hminute, hsecond⟩ := valid_clock nanoseconds
  rw [text_eq, clockOf]
  simp (disch := decide) only [field_later, field_first, Nat.reduceAdd, Nat.reduceSub, Nat.pow_eq,
    Nat.reducePow]
  rw [Nat.mod_eq_of_lt (by omega), Nat.mod_eq_of_lt (by omega), Nat.mod_eq_of_lt (by omega)]

theorem millisecondOf_text (nanoseconds : Int) :
    millisecondOf (text nanoseconds) = millisecond nanoseconds := by
  rw [text_eq, millisecondOf]
  simp (disch := decide) only [field_later, field_only, Nat.reduceAdd, Nat.reduceSub, Nat.pow_eq,
    Nat.reducePow]
  exact Nat.mod_eq_of_lt (millisecond_lt nanoseconds)

theorem milliseconds_text (t : Int64) :
    milliseconds (text t.toInt) = second t.toInt * 1000 + millisecond t.toInt := by
  obtain ⟨hfirst, hlast⟩ := year_date t
  rw [milliseconds, dateOf_text (by omega) (by omega), clockOf_text, millisecondOf_text, second_eq]

/-! ### Instants from 1970 on -/

theorem second_millisecond {nanoseconds : Int} (h : 0 ≤ nanoseconds) :
    second nanoseconds * 1000 + millisecond nanoseconds = nanoseconds / 1000000 := by
  have hfull : 0 ≤ nanoseconds / 1000000 := Int.ediv_nonneg h (by decide)
  rw [second, millisecond, Int.tdiv_eq_ediv_of_nonneg h, Int.tdiv_eq_ediv_of_nonneg h,
    Int.tmod_eq_emod_of_nonneg hfull]
  omega

/-- Instants of the same millisecond have one text. -/
theorem text_congr {nanoseconds later : Int} (h : 0 ≤ nanoseconds) (h' : 0 ≤ later)
    (hsame : nanoseconds / 1000000 = later / 1000000) : text nanoseconds = text later := by
  have hsum := second_millisecond h
  have hsum' := second_millisecond h'
  have hlt := millisecond_lt nanoseconds
  have hlt' := millisecond_lt later
  have hsecond : second nanoseconds = second later := by omega
  have hmillisecond : millisecond nanoseconds = millisecond later := by omega
  simp only [text, date, clock, hsecond, hmillisecond]

theorem names_text {t : Int64} (h : 0 ≤ t.toInt) : Names (text t.toInt) (t.toInt / 1000000) := by
  obtain ⟨hfirst, hlast⟩ := year_date t
  have hdate : dateOf (text t.toInt) = date t.toInt := dateOf_text (by omega) (by omega)
  refine ⟨shaped_text _, (shaped_text _).length_eq, ?_, ?_, ?_⟩
  · rw [hdate]
    exact valid_date _
  · rw [clockOf_text]
    exact valid_clock _
  · rw [milliseconds_text, second_millisecond h]

/-- **The text of an instant names its millisecond**: it is laid out as `YYYY-MM-DD HH:MM:SS.mmm`,
its date is one of the calendar and its time one of the day, and counted from the beginning of 1970
they are the full milliseconds of the instant.  Hence two instants have one text where they fall in
one millisecond, and only there. -/
theorem text_names_millisecond (t : Int64) (h : 0 ≤ t.toInt) :
    Names (text t.toInt) (t.toInt / 1000000) ∧
      ∀ u : Int64, 0 ≤ u.toInt →
        (text t.toInt = text u.toInt ↔ t.toInt / 1000000 = u.toInt / 1000000) := by
  refine ⟨names_text h, fun u hu => ⟨fun htext => ?_, text_congr h hu⟩⟩
  have hcount := (names_text hu).milliseconds_eq
  rw [← htext] at hcount
  exact (names_text h).milliseconds_eq.symm.trans hcount

/-- The first and the last instant of the last millisecond of a leap day. -/
theorem text_names_millisecond_leap_day :
    0 ≤ (951868799999000000 : Int64).toInt ∧ 0 ≤ (951868799999999999 : Int64).toInt ∧
      Names (ascii "2000-02-29 23:59:59.999") 951868799999 ∧
      text (951868799999000000 : Int64).toInt = text (951868799999999999 : Int64).toInt := by
  have hfirst : 0 ≤ (951868799999000000 : Int64).toInt := by decide
  have hlast : 0 ≤ (951868799999999999 : Int64).toInt := by decide
  obtain ⟨hnames, hsame⟩ := text_names_millisecond 951868799999000000 hfirst
  have htext : text (951868799999000000 : Int64).toInt = ascii "2000-02-29 23:59:59.999" := by
    decide
  have hcount : (951868799999000000 : Int64).toInt / 1000000 = 951868799999 := by decide
  rw [htext, hcount] at hnames
  exact ⟨hfirst, hlast, hnames, (hsame 951868799999999999 hlast).mpr (by decide)⟩

end Instant

end TraceContract
