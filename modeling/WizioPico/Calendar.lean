/-
**Calendar time of C, in UTC.**

The two conversions of the standard library between seconds since 1970 and the fields of a
`struct tm`, in the proleptic Gregorian calendar and without time zones, and the proof that they
are inverse to each other.

* `Calendar.Tm` — the fields of a `struct tm` that a date and a time of day have;
* `Calendar.mktime`, `Calendar.localtime` — the conversions.  `mktime` takes any fields, with a
  month outside of `0..11` counted into the year, and does not read the day of the week;
* `Calendar.Tm.Normalised` — the fields are those of a day of the calendar;
* `Calendar.normalised_localtime`, `Calendar.mktime_localtime`, `Calendar.localtime_mktime` —
  **they are inverse**: every second has exactly one normalised description;
* `Calendar.daysBeforeYear_add` — a bound on the days of a span of years.
-/

import Mathlib.Algebra.Group.Int.Defs
import Mathlib.Data.Int.Notation

set_option relaxedAutoImplicit false
set_option autoImplicit false

namespace Calendar

/-! ### Days of the calendar -/

/-- The extra day of a leap year. -/
def leapDay (y : ℤ) : ℤ := if (y % 4 = 0 ∧ y % 100 ≠ 0) ∨ y % 400 = 0 then 1 else 0

/-- The days before the first of January of a year, counted from that of the year 1. -/
def daysBeforeYear (y : ℤ) : ℤ := 365 * (y - 1) + (y - 1) / 4 - (y - 1) / 100 + (y - 1) / 400

/-- The days of a year before one of its months; `0` is January.  From March on the lengths of
the months repeat every five months. -/
def daysBeforeMonth (leap m : ℤ) : ℤ :=
  if m < 2 then 31 * m else (153 * m - 304) / 5 + 59 + leap

/-- The days of a month. -/
def monthLength (leap m : ℤ) : ℤ := daysBeforeMonth leap (m + 1) - daysBeforeMonth leap m

example : [0, 1, 2, 3, 4, 5, 6, 7, 8, 9, 10, 11].map (monthLength 1) =
    [31, 29, 31, 30, 31, 30, 31, 31, 30, 31, 30, 31] := by decide

theorem leapDay_bounds (y : ℤ) : 0 ≤ leapDay y ∧ leapDay y ≤ 1 := by
  unfold leapDay
  split <;> simp

/-- A year has 365 days, or 366. -/
theorem daysBeforeYear_succ (y : ℤ) :
    daysBeforeYear (y + 1) = daysBeforeYear y + 365 + leapDay y := by
  unfold daysBeforeYear leapDay
  split <;> omega

/-- The years of a span have at least 365 days each. -/
theorem daysBeforeYear_add {y z : ℤ} (h : y ≤ z) :
    daysBeforeYear y + 365 * (z - y) ≤ daysBeforeYear z := by
  unfold daysBeforeYear
  omega

/-- The twelve months make up the year. -/
theorem daysBeforeMonth_year (leap : ℤ) : daysBeforeMonth leap 12 = 365 + leap := by
  unfold daysBeforeMonth
  omega

theorem daysBeforeMonth_bounds {leap m : ℤ} (hl : 0 ≤ leap ∧ leap ≤ 1) (hm : 0 ≤ m ∧ m ≤ 12) :
    0 ≤ daysBeforeMonth leap m ∧ daysBeforeMonth leap m ≤ 366 := by
  unfold daysBeforeMonth
  split <;> omega

/-- A later month begins after the earlier one has ended. -/
theorem daysBeforeMonth_succ_le {leap m n : ℤ} (hl : 0 ≤ leap ∧ leap ≤ 1) (hm : 0 ≤ m)
    (h : m < n) : daysBeforeMonth leap (m + 1) ≤ daysBeforeMonth leap n := by
  unfold daysBeforeMonth
  split <;> split <;> omega

/-! ### The year and the month of a day -/

/-- The year a day belongs to: 400 years have 146097 days, which is right up to one year. -/
def yearOf (days : ℤ) : ℤ :=
  let y := 400 * days / 146097 + 1
  if days < daysBeforeYear y then y - 1
  else if daysBeforeYear (y + 1) ≤ days then y + 1
  else y

/-- The month a day of a year belongs to. -/
def monthOf (leap yday : ℤ) : ℤ :=
  if yday < 31 then 0
  else if yday < 59 + leap then 1
  else (5 * (yday - 59 - leap) + 2) / 153 + 2

theorem yearOf_spec (days : ℤ) :
    daysBeforeYear (yearOf days) ≤ days ∧ days < daysBeforeYear (yearOf days + 1) := by
  unfold yearOf
  simp only
  split
  · rename_i h
    unfold daysBeforeYear at *
    omega
  · rename_i h
    split
    · rename_i h'
      unfold daysBeforeYear at *
      omega
    · rename_i h'
      exact ⟨Int.not_lt.1 h, Int.not_le.1 h'⟩

/-- There is only one such year. -/
theorem yearOf_eq {days y : ℤ} (h : daysBeforeYear y ≤ days) (h' : days < daysBeforeYear (y + 1)) :
    yearOf days = y := by
  obtain ⟨hle, hlt⟩ := yearOf_spec days
  rcases Int.lt_trichotomy (yearOf days) y with hy | hy | hy
  · have := daysBeforeYear_add (Int.add_one_le_of_lt hy)
    omega
  · exact hy
  · have := daysBeforeYear_add (Int.add_one_le_of_lt hy)
    omega

theorem monthOf_bounds {leap yday : ℤ} (hd : 0 ≤ yday ∧ yday < 365 + leap) :
    0 ≤ monthOf leap yday ∧ monthOf leap yday < 12 := by
  unfold monthOf
  split
  · omega
  · split <;> omega

theorem monthOf_spec {leap yday : ℤ} (hl : 0 ≤ leap ∧ leap ≤ 1)
    (hd : 0 ≤ yday ∧ yday < 365 + leap) :
    daysBeforeMonth leap (monthOf leap yday) ≤ yday ∧
      yday < daysBeforeMonth leap (monthOf leap yday + 1) := by
  unfold monthOf
  split
  · unfold daysBeforeMonth; omega
  · split
    · unfold daysBeforeMonth; omega
    · unfold daysBeforeMonth
      split <;> split <;> omega

/-- There is only one such month. -/
theorem monthOf_eq {leap yday m : ℤ} (hl : 0 ≤ leap ∧ leap ≤ 1) (hm : 0 ≤ m ∧ m < 12)
    (h : daysBeforeMonth leap m ≤ yday) (h' : yday < daysBeforeMonth leap (m + 1)) :
    monthOf leap yday = m := by
  have hyear := daysBeforeMonth_succ_le hl hm.1 (show m < 12 from hm.2)
  rw [daysBeforeMonth_year] at hyear
  have h0 := daysBeforeMonth_bounds hl ⟨hm.1, by omega⟩
  have hd : 0 ≤ yday ∧ yday < 365 + leap := ⟨by omega, by omega⟩
  have hb := monthOf_bounds hd
  obtain ⟨hle, hlt⟩ := monthOf_spec hl hd
  rcases Int.lt_trichotomy (monthOf leap yday) m with hy | hy | hy
  · have := daysBeforeMonth_succ_le hl hb.1 hy
    omega
  · exact hy
  · have := daysBeforeMonth_succ_le hl hm.1 hy
    omega

/-! ### The fields of a date and a time of day -/

/-- The fields of a `struct tm`: `mon` counts from January as 0, `year` from 1900, and `wday` from
Sunday as 0. -/
@[ext] structure Tm where
  sec : ℤ
  min : ℤ
  hour : ℤ
  mday : ℤ
  mon : ℤ
  year : ℤ
  wday : ℤ
  deriving DecidableEq

/-- The days before the first of January 1970. -/
def epoch : ℤ := 719162

namespace Tm

/-- The calendar year, with the months of other years carried over. -/
def calendarYear (p : Tm) : ℤ := 1900 + p.year + p.mon / 12

/-- The day, counted from the first of January of the year 1. -/
def days (p : Tm) : ℤ :=
  daysBeforeYear p.calendarYear + daysBeforeMonth (leapDay p.calendarYear) (p.mon % 12) +
    (p.mday - 1)

/-- **The fields are those of a day of the calendar.**  The year 1 began with a Monday. -/
structure Normalised (p : Tm) : Prop where
  sec : 0 ≤ p.sec ∧ p.sec < 60
  min : 0 ≤ p.min ∧ p.min < 60
  hour : 0 ≤ p.hour ∧ p.hour < 24
  mon : 0 ≤ p.mon ∧ p.mon < 12
  mday : 1 ≤ p.mday ∧ p.mday ≤ monthLength (leapDay (1900 + p.year)) p.mon
  wday : p.wday = (p.days + 1) % 7

end Tm

/-- `mktime`. -/
def mktime (p : Tm) : ℤ := 86400 * (p.days - epoch) + 3600 * p.hour + 60 * p.min + p.sec

/-- `localtime`. -/
def localtime (t : ℤ) : Tm :=
  let days := t / 86400 + epoch
  let y := yearOf days
  let yday := days - daysBeforeYear y
  let mon := monthOf (leapDay y) yday
  { sec := t % 60, min := t % 3600 / 60, hour := t % 86400 / 3600,
    mday := yday - daysBeforeMonth (leapDay y) mon + 1, mon := mon, year := y - 1900,
    wday := (days + 1) % 7 }

/-- The day of the year of a second. -/
theorem yday_bounds (days : ℤ) :
    0 ≤ days - daysBeforeYear (yearOf days) ∧
      days - daysBeforeYear (yearOf days) < 365 + leapDay (yearOf days) := by
  have h := yearOf_spec days
  rw [daysBeforeYear_succ] at h
  omega

/-- A month that is not carried over leaves the year as it is. -/
theorem Tm.calendarYear_of_mon {p : Tm} (h : 0 ≤ p.mon ∧ p.mon < 12) :
    p.calendarYear = 1900 + p.year ∧ p.mon % 12 = p.mon := by
  unfold Tm.calendarYear
  omega

theorem localtime_mon (t : ℤ) : 0 ≤ (localtime t).mon ∧ (localtime t).mon < 12 :=
  monthOf_bounds (yday_bounds _)

/-- The fields name the day of the second they were made for. -/
theorem days_localtime (t : ℤ) : (localtime t).days = t / 86400 + epoch := by
  obtain ⟨hy, hm⟩ := Tm.calendarYear_of_mon (localtime_mon t)
  have hyear : 1900 + (localtime t).year = yearOf (t / 86400 + epoch) := by
    simp only [localtime]
    omega
  unfold Tm.days
  rw [hy, hm, hyear]
  simp only [localtime]
  omega

/-- **`localtime` gives normalised fields.** -/
theorem normalised_localtime (t : ℤ) : (localtime t).Normalised where
  sec := by simp only [localtime]; omega
  min := by simp only [localtime]; omega
  hour := by simp only [localtime]; omega
  mon := localtime_mon t
  mday := by
    have hyear : 1900 + (localtime t).year = yearOf (t / 86400 + epoch) := by
      simp only [localtime]
      omega
    have h := monthOf_spec (leapDay_bounds (yearOf (t / 86400 + epoch))) (yday_bounds _)
    rw [hyear]
    simp only [localtime, monthLength]
    omega
  wday := by rw [days_localtime]; rfl

/-- **`mktime` undoes `localtime`.** -/
theorem mktime_localtime (t : ℤ) : mktime (localtime t) = t := by
  unfold mktime
  rw [days_localtime]
  simp only [localtime]
  omega

/-- **`localtime` undoes `mktime`**, on normalised fields. -/
theorem localtime_mktime {p : Tm} (h : p.Normalised) : localtime (mktime p) = p := by
  obtain ⟨hy, hm⟩ := Tm.calendarYear_of_mon h.mon
  have hl := leapDay_bounds (1900 + p.year)
  have hmday := h.mday
  have hday : mktime p / 86400 + epoch = p.days := by
    have h1 := h.sec
    have h2 := h.min
    have h3 := h.hour
    unfold mktime
    omega
  have hdays : p.days = daysBeforeYear (1900 + p.year) +
      daysBeforeMonth (leapDay (1900 + p.year)) p.mon + (p.mday - 1) := by
    unfold Tm.days
    rw [hy, hm]
  have hb := daysBeforeMonth_bounds hl ⟨h.mon.1, Int.le_of_lt h.mon.2⟩
  have hend := daysBeforeMonth_succ_le hl h.mon.1 h.mon.2
  rw [daysBeforeMonth_year] at hend
  unfold monthLength at hmday
  have hyear : yearOf p.days = 1900 + p.year := by
    refine yearOf_eq (by omega) ?_
    rw [daysBeforeYear_succ]
    omega
  have hmon : monthOf (leapDay (1900 + p.year)) (p.days - daysBeforeYear (1900 + p.year)) =
      p.mon := monthOf_eq hl h.mon (by omega) (by omega)
  have h1 := h.sec
  have h2 := h.min
  have h3 := h.hour
  ext
  · simp only [localtime, mktime]; omega
  · simp only [localtime, mktime]; omega
  · simp only [localtime, mktime]; omega
  · simp only [localtime, hday, hyear, hmon]; omega
  · simp only [localtime, hday, hyear, hmon]
  · simp only [localtime, hday, hyear]; omega
  · simp only [localtime, hday, h.wday]

end Calendar
