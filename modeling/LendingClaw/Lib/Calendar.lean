/-
LendingClaw.Lib.Calendar — dates of the Gregorian calendar, for days
counted from 1 January 1970, and clocks of time zones.

The calendar repeats every 400 years, which are a whole number of weeks
(`cycle`). A year begins in March here, so that the leap day is its last.
A clock shows the time of an instant moved by an offset that changes
now and then, and had its first value for all times before some instant.

Nothing here names a program.
-/
import Mathlib.Tactic.Linarith
import Mathlib.Tactic.Ring

namespace LendingClaw.Lib

namespace Calendar

/-- The days of 400 years. -/
def cycle : Int := 146097

/-- The day of its 400 years, from 1 March 2000. -/
def dayOfCycle (day : Int) : Int := (day + 719468) % cycle

def yearOfCycle (n : Int) : Int := (n - n / 1460 + n / 36524 - n / 146096) / 365

/-- The day of its year, from 1 March. -/
def dayOfYear (n : Int) : Int :=
  n - (365 * yearOfCycle n + yearOfCycle n / 4 - yearOfCycle n / 100)

/-- The month of its year, from March. -/
def monthOfYear (n : Int) : Int := (5 * dayOfYear n + 2) / 153

/-- The month, from 1 for January. -/
def month (day : Int) : Int :=
  let m := monthOfYear (dayOfCycle day)
  if m < 10 then m + 3 else m - 9

/-- The day of the month, from 1. -/
def dayOfMonth (day : Int) : Int :=
  let n := dayOfCycle day
  dayOfYear n - (153 * monthOfYear n + 2) / 5 + 1

/-- The day of the week, from 0 for Sunday. -/
def weekday (day : Int) : Int := (day + 4) % 7

-- 29 February 2024 was a Thursday
example : month 19782 = 2 ∧ dayOfMonth 19782 = 29 ∧ weekday 19782 = 4 := by decide

theorem dayOfCycle_bounds (day : Int) : 0 ≤ dayOfCycle day ∧ dayOfCycle day < cycle := by
  unfold dayOfCycle cycle
  omega

theorem dayOfYear_bounds {n : Int} (h : 0 ≤ n) (hlt : n < cycle) :
    0 ≤ dayOfYear n ∧ dayOfYear n ≤ 365 := by
  unfold dayOfYear yearOfCycle
  unfold cycle at hlt
  have hlast : n / 146096 = 0 ∨ (n / 146096 = 1 ∧ n = 146096) := by omega
  rcases hlast with hlast | ⟨-, rfl⟩
  · rw [hlast]
    have hcentury : n / 36524 = 0 ∨ n / 36524 = 1 ∨ n / 36524 = 2 ∨ n / 36524 = 3 := by omega
    -- the year and the day have the same century, and nearly the same leap cycle
    have hcenturies : (n - n / 1460 + n / 36524 - 0) / 365 / 100 = n / 36524 := by
      rcases hcentury with hf | hf | hf | hf <;> rw [hf] <;> omega
    have hleaps : (n - n / 1460 + n / 36524 - 0) / 365 / 4 = n / 1460
        ∨ (n - n / 1460 + n / 36524 - 0) / 365 / 4 + 1 = n / 1460 := by
      rcases hcentury with hf | hf | hf | hf <;> rw [hf] <;> omega
    rw [hcenturies]
    rcases hleaps with hleaps | hleaps <;> omega
  · decide

theorem month_bounds (day : Int) : 1 ≤ month day ∧ month day ≤ 12 := by
  obtain ⟨h, hlt⟩ := dayOfCycle_bounds day
  have hday := dayOfYear_bounds h hlt
  unfold month monthOfYear
  dsimp only
  split <;> omega

theorem dayOfMonth_bounds (day : Int) : 1 ≤ dayOfMonth day ∧ dayOfMonth day ≤ 31 := by
  obtain ⟨h, hlt⟩ := dayOfCycle_bounds day
  have hday := dayOfYear_bounds h hlt
  unfold dayOfMonth monthOfYear
  dsimp only
  omega

theorem weekday_bounds (day : Int) : 0 ≤ weekday day ∧ weekday day ≤ 6 := by
  unfold weekday
  omega

theorem dayOfCycle_add_cycle (day k : Int) : dayOfCycle (day + cycle * k) = dayOfCycle day := by
  unfold dayOfCycle cycle
  omega

@[simp] theorem month_add_cycle (day k : Int) : month (day + cycle * k) = month day := by
  rw [month, dayOfCycle_add_cycle, month]

@[simp] theorem dayOfMonth_add_cycle (day k : Int) :
    dayOfMonth (day + cycle * k) = dayOfMonth day := by
  rw [dayOfMonth, dayOfCycle_add_cycle, dayOfMonth]

@[simp] theorem weekday_add_cycle (day k : Int) : weekday (day + cycle * k) = weekday day := by
  unfold weekday cycle
  omega

end Calendar

/-- A clock, in one unit of time. -/
structure Clock where
  offset : Int → Int
  settled : ∃ first, ∀ t ≤ first, offset t = offset first

namespace Clock

/-- A clock that is never changed. -/
def fixed (offset : Int) : Clock := { offset := fun _ => offset, settled := ⟨0, fun _ _ => rfl⟩ }

/-- What the clock shows. -/
def shows (clock : Clock) (t : Int) : Int := t + clock.offset t

@[simp] theorem shows_fixed (offset t : Int) : (fixed offset).shows t = t + offset := rfl

/-- A time comes again after every period: some instant shows it so many
periods earlier, and the clock is not changed for a while. -/
theorem exists_steady (clock : Clock) {period : Int} (hperiod : 0 < period) (time room : Int) :
    ∃ t k : Int, ∀ d, d ≤ room → clock.shows (t + d) = time + period * k + d := by
  obtain ⟨first, hfirst⟩ := clock.settled
  have hsome : ∃ k : Int, time + period * k - clock.offset first + room ≤ first := by
    refine ⟨-|time - clock.offset first + room - first|, ?_⟩
    have habs := le_abs_self (time - clock.offset first + room - first)
    nlinarith [abs_nonneg (time - clock.offset first + room - first)]
  obtain ⟨k, hk⟩ := hsome
  refine ⟨time + period * k - clock.offset first, k, fun d hd => ?_⟩
  have hsame := hfirst (time + period * k - clock.offset first + d) (by omega)
  rw [shows, hsame]
  ring

end Clock

end LendingClaw.Lib
