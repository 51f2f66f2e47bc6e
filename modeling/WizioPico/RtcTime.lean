/-
**The clock: `set_now`, `set_now_tm` and `now`.**

The functions of `wizio/newlib/time.c` between calendar time and the RTC, with the checks of
`rtc_set_datetime` of `SDK/hardware/rtc.c`.  The RTC is taken to stand still between a setting and
the reading that follows it, and to return the fields it was last given.

* `Pico.Time.Datetime` — the SDK's `datetime_t`, with `validDatetime`;
* `Pico.Time.setNowTm`, `Pico.Time.setNow`, `Pico.Time.now`;
* `Pico.Time.now_setNowTm` — what `now` makes of the fields `set_now_tm` has stored: a moment in
  another month, and some 1900 years too early;
* `Pico.Time.clock_agrees_iff` — **a time that is set is never read back**, since the setting side
  leaves out both offsets that the reading side takes away.
-/

import WizioPico.Calendar

set_option relaxedAutoImplicit false
set_option autoImplicit false

namespace Pico.Time

open Calendar

/-! ### The RTC -/

/-- `datetime_t`: the year is an `int16_t`, the other fields are `int8_t`. -/
structure Datetime where
  year : ℤ
  month : ℤ
  day : ℤ
  dotw : ℤ
  hour : ℤ
  min : ℤ
  sec : ℤ
  deriving DecidableEq

/-- The fields the RTC holds; `none` as long as it is not running. -/
abbrev Rtc := Option Datetime

/-- `valid_datetime`. -/
def validDatetime (t : Datetime) : Bool :=
  (0 ≤ t.year && t.year ≤ 4095) && (1 ≤ t.month && t.month ≤ 12) && (1 ≤ t.day && t.day ≤ 31) &&
    (0 ≤ t.dotw && t.dotw ≤ 6) && (0 ≤ t.hour && t.hour ≤ 23) && (0 ≤ t.min && t.min ≤ 59) &&
    (0 ≤ t.sec && t.sec ≤ 59)

/-- `rtc_set_datetime`. -/
def rtcSetDatetime (rtc : Rtc) (t : Datetime) : Rtc × Bool :=
  if !validDatetime t then (rtc, false) else (some t, true)

/-- `rtc_get_datetime`; nothing is stored while the RTC is not running. -/
def rtcGetDatetime (rtc : Rtc) : Option Datetime := rtc

/-! ### Setting and reading -/

/-- The conversion of an `int` to an `int8_t`. -/
def toInt8 (x : ℤ) : ℤ := (x + 128) % 256 - 128

/-- The conversion of an `int` to an `int16_t`. -/
def toInt16 (x : ℤ) : ℤ := (x + 32768) % 65536 - 32768

/-- The fields `set_now_tm` hands to the RTC. -/
def datetimeOf (p : Tm) : Datetime where
  sec := toInt8 p.sec
  min := toInt8 p.min
  hour := toInt8 p.hour
  day := toInt8 p.mday
  month := toInt8 p.mon
  year := toInt16 p.year
  dotw := toInt8 p.wday

/-- `set_now_tm`. -/
def setNowTm (rtc : Rtc) (p : Tm) : Rtc × Bool := rtcSetDatetime rtc (datetimeOf p)

/-- `set_now`. -/
def setNow (rtc : Rtc) (t : ℤ) : Rtc × Bool := setNowTm rtc (localtime t)

/-- The fields `now` hands to `mktime`. -/
def tmOf (t : Datetime) : Tm where
  sec := t.sec
  min := t.min
  hour := t.hour
  mday := t.day
  mon := t.month - 1
  year := t.year - 1900
  wday := t.dotw

/-- `now`.  Its local `datetime_t` has no defined value if the RTC is not running. -/
def now (rtc : Rtc) : Option ℤ := (rtcGetDatetime rtc).map fun t => mktime (tmOf t)

/-- The years the clock is meant for, 1970 to 4095. -/
def InRange (p : Tm) : Prop := 70 ≤ p.year ∧ p.year ≤ 2195

instance (p : Tm) : Decidable (InRange p) := inferInstanceAs (Decidable (_ ∧ _))

/-! ### What is read back -/

theorem toInt8_of_bounds {x : ℤ} (h : 0 ≤ x ∧ x < 128) : toInt8 x = x := by
  unfold toInt8
  omega

theorem toInt16_of_bounds {x : ℤ} (h : 0 ≤ x ∧ x < 32768) : toInt16 x = x := by
  unfold toInt16
  omega

/-- A month is at most 31 days long. -/
theorem monthLength_le {leap m : ℤ} (hl : 0 ≤ leap ∧ leap ≤ 1) (hm : 0 ≤ m) :
    monthLength leap m ≤ 31 := by
  unfold monthLength daysBeforeMonth
  split <;> split <;> omega

/-- No field of a normalised date changes when it is stored. -/
theorem datetimeOf_eq {p : Tm} (h : p.Normalised) (hp : InRange p) :
    datetimeOf p = ⟨p.year, p.mon, p.mday, p.wday, p.hour, p.min, p.sec⟩ := by
  obtain ⟨hsec, hmin, hhour, hmon, hmday, hwday⟩ := h
  have hlen := monthLength_le (leapDay_bounds (1900 + p.year)) hmon.1
  have hw : 0 ≤ p.wday ∧ p.wday < 128 := by omega
  unfold InRange at hp
  unfold datetimeOf
  rw [toInt8_of_bounds (x := p.sec) (by omega), toInt8_of_bounds (x := p.min) (by omega),
    toInt8_of_bounds (x := p.hour) (by omega), toInt8_of_bounds (x := p.mday) (by omega),
    toInt8_of_bounds (x := p.mon) (by omega), toInt8_of_bounds hw,
    toInt16_of_bounds (x := p.year) (by omega)]

/-- The RTC refuses January, whose number is 0 here, and takes every other month. -/
theorem setNowTm_eq (rtc : Rtc) {p : Tm} (h : p.Normalised) (hp : InRange p) :
    setNowTm rtc p = if p.mon = 0 then (rtc, false) else (some (datetimeOf p), true) := by
  have hvalid : validDatetime (datetimeOf p) = !decide (p.mon = 0) := by
    rw [datetimeOf_eq h hp]
    obtain ⟨hsec, hmin, hhour, hmon, hmday, hwday⟩ := h
    have hlen := monthLength_le (leapDay_bounds (1900 + p.year)) hmon.1
    unfold InRange at hp
    unfold validDatetime
    by_cases h0 : p.mon = 0
    · simp [h0]
    · simp [h0]
      omega
  unfold setNowTm rtcSetDatetime
  rw [hvalid]
  by_cases h0 : p.mon = 0 <;> simp [h0]

/-- **What is read back**: the month before, in the year whose number counted from 0 is the year
that was set counted from 1900. -/
theorem now_setNowTm (rtc : Rtc) {p : Tm} (h : p.Normalised) (hp : InRange p) (h0 : p.mon ≠ 0) :
    now (setNowTm rtc p).1 = some (mktime { p with mon := p.mon - 1, year := p.year - 1900 }) := by
  rw [setNowTm_eq rtc h hp, if_neg h0, datetimeOf_eq h hp]
  rfl

/-- It is another moment. -/
theorem mktime_shifted {p : Tm} (hmon : 0 < p.mon ∧ p.mon < 12) :
    mktime { p with mon := p.mon - 1, year := p.year - 1900 } < mktime p := by
  have hyears := daysBeforeYear_add (y := p.year) (z := 1900 + p.year) (by omega)
  have hb := daysBeforeMonth_bounds (leapDay_bounds (1900 + p.year))
    (m := p.mon) ⟨by omega, by omega⟩
  have hb' := daysBeforeMonth_bounds (leapDay_bounds p.year)
    (m := p.mon - 1) ⟨by omega, by omega⟩
  have hy : (1900 + p.year + p.mon / 12) = 1900 + p.year := by omega
  have hy' : (1900 + (p.year - 1900) + (p.mon - 1) / 12) = p.year := by omega
  have hm : p.mon % 12 = p.mon := by omega
  have hm' : (p.mon - 1) % 12 = p.mon - 1 := by omega
  unfold mktime Tm.days Tm.calendarYear
  simp only [hy, hy', hm, hm']
  omega

/-- **Setting and reading agree for no time.**  `set_now` either refuses the time or makes the
clock show another one; after `set_now_tm` the clock shows what was asked for only if the date was
refused, for being in January, by a clock that showed it before. -/
theorem clock_agrees_iff (rtc : Rtc) :
    (∀ t, InRange (localtime t) →
      ¬ ((setNow rtc t).2 = true ∧ now (setNow rtc t).1 = some t)) ∧
    (∀ p : Tm, p.Normalised → InRange p →
      (now (setNowTm rtc p).1 = some (mktime p) ↔ p.mon = 0 ∧ now rtc = some (mktime p))) := by
  have hread : ∀ p : Tm, p.Normalised → InRange p → p.mon ≠ 0 →
      now (setNowTm rtc p).1 ≠ some (mktime p) := by
    intro p h hp h0 heq
    rw [now_setNowTm rtc h hp h0] at heq
    have := mktime_shifted (p := p) ⟨by have := h.mon; omega, h.mon.2⟩
    have := Option.some.inj heq
    omega
  constructor
  · rintro t ht ⟨hok, hnow⟩
    have h := normalised_localtime t
    have h0 : (localtime t).mon ≠ 0 := by
      intro h0
      rw [setNow, setNowTm_eq rtc h ht, if_pos h0] at hok
      cases hok
    rw [setNow] at hnow
    exact hread _ h ht h0 (by rw [hnow, mktime_localtime])
  · intro p h hp
    by_cases h0 : p.mon = 0
    · rw [setNowTm_eq rtc h hp, if_pos h0]
      simp [h0]
    · simp only [h0, false_and, iff_false]
      exact hread p h hp h0

/-- Noon of 15 June 2021 is in range, and not read back. -/
theorem clock_agrees_june :
    InRange (localtime 1623758400) ∧
      ¬ ((setNow none 1623758400).2 = true ∧
        now (setNow none 1623758400).1 = some 1623758400) :=
  ⟨by decide, (clock_agrees_iff none).1 1623758400 (by decide)⟩

/-- It is accepted, and the clock then shows noon of 15 May of the year 121; midnight of
1 January 2021 is not even accepted. -/
theorem clock_agrees_violated :
    ¬ ∀ (rtc : Rtc) (t : ℤ), InRange (localtime t) →
      (setNow rtc t).2 = true ∧ now (setNow rtc t).1 = some t := by
  intro h
  obtain ⟨-, hnow⟩ := h none 1623758400 (by decide)
  revert hnow
  decide

example : (localtime 1623758400, (setNow none 1623758400).2,
    (now (setNow none 1623758400).1).map localtime, (setNow none 1609459200).2) =
    (⟨0, 0, 12, 15, 5, 121, 2⟩, true, some ⟨0, 0, 12, 15, 4, -1779, 4⟩, false) := by decide

end Pico.Time
