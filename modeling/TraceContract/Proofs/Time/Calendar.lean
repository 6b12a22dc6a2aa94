import TraceContract.Time.Calendar

/-!
# Days and dates

Every day, before 1970 and after, has a date of the calendar, and the date counts back to the day.

* `locate_eq` finds the month of a day of the year among the lengths of the months.
* `Division` says how the days since the year 1 fall into cycles of 400 years, centuries, times of
  four years, years and days of the year, and which years have a day 365.  That `ofDay` divides in
  this way (`exists_division`) is all that is used of its arithmetic.
* `valid_ofDay` and `toDay_ofDay`: the date of a day is in the calendar, and is the date of no other
  day.
* `le_year_ofDay_iff`: which days have dates in a year or after it.
-/

namespace TraceContract

namespace Date

/-! ### Months -/

def total (lengths : List Nat) : Nat := lengths.foldl (· + ·) 0

@[simp] theorem total_nil : total [] = 0 := rfl

theorem total_cons (length : Nat) (later : List Nat) :
    total (length :: later) = length + total later := by
  have shift (a : Nat) : later.foldl (· + ·) a = a + later.foldl (· + ·) 0 := by
    induction later generalizing a with
    | nil => rfl
    | cons next later ih =>
      rw [List.foldl_cons, List.foldl_cons, ih (a + next), ih (0 + next)]
      omega
  rw [total, List.foldl_cons, shift, total]
  omega

/-- **The month of a day of the year**: it begins after the months before it, and is longer than the
days of it that are past. -/
theorem locate_eq {lengths : List Nat} {dayOfYear : Nat} (h : dayOfYear < total lengths)
    (month : Nat) :
    ∃ k length past, lengths[k]? = some length ∧ past < length ∧
      total (lengths.take k) + past = dayOfYear ∧
      locate lengths month dayOfYear = (month + k, past + 1) := by
  induction lengths generalizing month dayOfYear with
  | nil => exact absurd h (by simp)
  | cons length later ih =>
    rw [total_cons] at h
    rw [locate]
    by_cases hd : dayOfYear < length
    · rw [if_pos hd]
      exact ⟨0, length, dayOfYear, rfl, hd, by simp, rfl⟩
    · have hlater : dayOfYear - length < total later := by omega
      obtain ⟨k, length', past, hget, hpast, htotal, hlocate⟩ := ih hlater (month + 1)
      rw [if_neg hd, hlocate]
      refine ⟨k + 1, length', past, hget, hpast, ?_, ?_⟩
      · rw [List.take_succ_cons, total_cons]
        omega
      · rw [Nat.add_assoc, Nat.add_comm 1 k]

theorem total_monthLengths (leap : Bool) :
    total (monthLengths leap) = if leap then 366 else 365 := by
  cases leap <;> rfl

theorem length_monthLengths (leap : Bool) : (monthLengths leap).length = 12 := by
  cases leap <;> rfl

theorem le_of_mem_monthLengths {leap : Bool} {length : Nat} (h : length ∈ monthLengths leap) :
    length ≤ 31 := by
  have hall : ∀ length ∈ monthLengths leap, length ≤ 31 := by cases leap <;> decide
  exact hall length h

theorem Valid.month_le {d : Date} (h : d.Valid) : d.month ≤ 12 := by
  obtain ⟨-, -, length, hlength, -⟩ := h
  have := (List.getElem?_eq_some_iff.mp hlength).1
  rw [length_monthLengths] at this
  omega

theorem Valid.day_le {d : Date} (h : d.Valid) : d.day ≤ 31 := by
  obtain ⟨-, -, length, hlength, hday⟩ := h
  have := le_of_mem_monthLengths (List.mem_of_getElem? hlength)
  omega

/-! ### Years -/

theorem isLeap_iff {year : Int} :
    isLeap year = true ↔ year % 4 = 0 ∧ (year % 100 ≠ 0 ∨ year % 400 = 0) := by
  simp [isLeap]

/-- A year is as long as its months are together. -/
theorem daysBeforeYear_succ (year : Int) :
    daysBeforeYear (year + 1) = daysBeforeYear year + total (monthLengths (isLeap year)) := by
  rw [total_monthLengths]
  by_cases hleap : isLeap year = true
  · rw [if_pos hleap]
    rw [isLeap_iff] at hleap
    simp only [daysBeforeYear]
    omega
  · rw [if_neg hleap]
    rw [isLeap_iff] at hleap
    simp only [daysBeforeYear]
    omega

/-- How a number of days since the beginning of the year 1 is divided.  Of the four years of an
olympiad only the last has a day 365, and in the last olympiad of a century only where the century
is the last of its cycle. -/
structure Division (days cycle : Int) (century olympiad single dayOfYear : Nat) : Prop where
  days_eq : days = 146097 * cycle + 36524 * century + 1461 * olympiad + 365 * single + dayOfYear
  century_le : century ≤ 3
  olympiad_le : olympiad ≤ 24
  single_le : single ≤ 3
  dayOfYear_le : dayOfYear ≤ 365
  leapDay : dayOfYear = 365 → single = 3 ∧ (olympiad = 24 → century = 3)

def yearOf (cycle : Int) (century olympiad single : Nat) : Int :=
  400 * cycle + 100 * century + 4 * olympiad + single + 1

namespace Division

variable {days cycle : Int} {century olympiad single dayOfYear : Nat}

theorem daysBeforeYear_eq (h : Division days cycle century olympiad single dayOfYear) :
    daysBeforeYear (yearOf cycle century olympiad single) + dayOfYear = days := by
  obtain ⟨hdays, hcentury, holympiad, hsingle, -, -⟩ := h
  have hfour : (400 * cycle + 100 * century + 4 * olympiad + single) / 4 =
      100 * cycle + 25 * century + olympiad := by omega
  have hhundred : (400 * cycle + 100 * century + 4 * olympiad + single) / 100 =
      4 * cycle + century := by omega
  have hcycle : (400 * cycle + 100 * century + 4 * olympiad + single) / 400 = cycle := by omega
  rw [daysBeforeYear, yearOf, Int.add_sub_cancel]
  simp only [hfour, hhundred, hcycle]
  omega

theorem dayOfYear_lt (h : Division days cycle century olympiad single dayOfYear) :
    dayOfYear < total (monthLengths (isLeap (yearOf cycle century olympiad single))) := by
  obtain ⟨-, hcentury, holympiad, hsingle, hday, hleap⟩ := h
  rw [total_monthLengths]
  split
  · omega
  next hcommon =>
    have hne : dayOfYear ≠ 365 := by
      intro hlast
      obtain ⟨hthird, hend⟩ := hleap hlast
      refine hcommon (isLeap_iff.mpr ?_)
      rw [yearOf]
      omega
    omega

/-- The next year has not begun. -/
theorem lt_daysBeforeYear_succ (h : Division days cycle century olympiad single dayOfYear) :
    days < daysBeforeYear (yearOf cycle century olympiad single + 1) := by
  have htotal := h.daysBeforeYear_eq
  have hday := h.dayOfYear_lt
  have hlength := daysBeforeYear_succ (yearOf cycle century olympiad single)
  omega

end Division

/-- The date of a day of a year. -/
def ofYearDay (year : Int) (dayOfYear : Nat) : Date :=
  ⟨year, (locate (monthLengths (isLeap year)) 1 dayOfYear).1,
    (locate (monthLengths (isLeap year)) 1 dayOfYear).2⟩

/-- Four units of which the last has one day more: where a day falls in them. -/
theorem exists_unit {past : Nat} (unit : Nat) (hunit : 0 < unit) (h : past ≤ 4 * unit) :
    ∃ whole rest, min (past / unit) 3 = whole ∧ past - unit * whole = rest ∧
      past = unit * whole + rest ∧ whole ≤ 3 ∧ rest ≤ unit ∧ (rest = unit → whole = 3) := by
  have hdivided : unit * (past / unit) + past % unit = past := Nat.div_add_mod past unit
  have hrest : past % unit < unit := Nat.mod_lt past hunit
  by_cases hq : past / unit ≤ 3
  · refine ⟨past / unit, past % unit, Nat.min_eq_left hq, ?_, hdivided.symm, hq,
      Nat.le_of_lt hrest, ?_⟩
    · omega
    · omega
  · have hfull : unit * 4 ≤ unit * (past / unit) := Nat.mul_le_mul_left unit (by omega)
    exact ⟨3, unit, Nat.min_eq_right (by omega), by omega, by omega, Nat.le_refl 3,
      Nat.le_refl unit, fun _ => rfl⟩

/-- **How a day is divided for its date.** -/
theorem exists_division (day : Int) :
    ∃ cycle century olympiad single dayOfYear,
      Division (day + daysBefore1970) cycle century olympiad single dayOfYear ∧
      ofDay day = ofYearDay (yearOf cycle century olympiad single) dayOfYear := by
  refine ⟨_, _, _, _, _, ?_, rfl⟩
  obtain ⟨inCycle, hin⟩ : ∃ inCycle, ((day + daysBefore1970) % 146097).toNat = inCycle := ⟨_, rfl⟩
  rw [hin]
  obtain ⟨century, inCentury, hcentury, hinCentury, hcycle, hcentury_le, hinCentury_le, hlast⟩ :=
    exists_unit 36524 (by decide) (show inCycle ≤ 4 * 36524 by omega)
  rw [hcentury, hinCentury]
  obtain ⟨single, dayOfYear, hsingle, hday, holympiad, hsingle_le, hday_le, hleap⟩ :=
    exists_unit 365 (by decide) (show inCentury % 1461 ≤ 4 * 365 by omega)
  rw [hsingle, hday]
  refine ⟨by omega, hcentury_le, by omega, hsingle_le, hday_le, fun h => ⟨hleap h, fun hend => ?_⟩⟩
  -- the last day of a century in its twenty-fifth olympiad is the cycle's last
  exact hlast (by omega)

/-! ### Dates of days -/

theorem valid_toDay_ofYearDay {year : Int} {dayOfYear : Nat}
    (h : dayOfYear < total (monthLengths (isLeap year))) :
    (ofYearDay year dayOfYear).Valid ∧
      (ofYearDay year dayOfYear).toDay + daysBefore1970 = daysBeforeYear year + dayOfYear := by
  obtain ⟨k, length, past, hlength, hpast, htotal, hlocate⟩ := locate_eq h 1
  have hdate : ofYearDay year dayOfYear = ⟨year, 1 + k, past + 1⟩ := by rw [ofYearDay, hlocate]
  have hk : 1 + k - 1 = k := Nat.add_sub_cancel_left 1 k
  rw [hdate]
  refine ⟨⟨Nat.le_add_right 1 k, Nat.le_add_left 1 past, length, ?_, hpast⟩, ?_⟩
  · rw [hk]
    exact hlength
  · have hmonth : daysBeforeMonth (monthLengths (isLeap year)) (1 + k) =
        total ((monthLengths (isLeap year)).take k) := by
      rw [daysBeforeMonth, hk, total]
    show daysBeforeYear year + (daysBeforeMonth (monthLengths (isLeap year)) (1 + k) : Int) +
      ((past + 1 : Nat) : Int) - 1 - daysBefore1970 + daysBefore1970 = _
    rw [hmonth]
    omega

/-- **Every day has a date of the calendar.** -/
theorem valid_ofDay (day : Int) : (ofDay day).Valid := by
  obtain ⟨cycle, century, olympiad, single, dayOfYear, hdivision, hdate⟩ := exists_division day
  rw [hdate]
  exact (valid_toDay_ofYearDay hdivision.dayOfYear_lt).1

/-- **The date of a day counts back to the day.** -/
theorem toDay_ofDay (day : Int) : (ofDay day).toDay = day := by
  obtain ⟨cycle, century, olympiad, single, dayOfYear, hdivision, hdate⟩ := exists_division day
  have hday := (valid_toDay_ofYearDay hdivision.dayOfYear_lt).2
  have htotal := hdivision.daysBeforeYear_eq
  rw [hdate]
  omega

theorem daysBeforeYear_mono {year later : Int} (h : year ≤ later) :
    daysBeforeYear year ≤ daysBeforeYear later := by
  simp only [daysBeforeYear]
  omega

/-- The days of a year, and no others, have dates in it. -/
theorem le_year_ofDay_iff {year day : Int} :
    year ≤ (ofDay day).year ↔ daysBeforeYear year ≤ day + daysBefore1970 := by
  obtain ⟨cycle, century, olympiad, single, dayOfYear, hdivision, hdate⟩ := exists_division day
  have hyear : (ofDay day).year = yearOf cycle century olympiad single := by rw [hdate]; rfl
  have htotal := hdivision.daysBeforeYear_eq
  have hnext := hdivision.lt_daysBeforeYear_succ
  rw [hyear]
  constructor
  · intro hle
    have := daysBeforeYear_mono hle
    omega
  · intro hle
    refine Int.not_lt.mp fun hlt => ?_
    have := daysBeforeYear_mono (Int.add_one_le_of_lt hlt)
    omega

end Date

end TraceContract
