/-
LendingClaw.Ui.PlannedRuns — from the controls of the routine dialog to
the times at which the routine runs (`Service.validate` of
`internal/services/routines/service.go`).

Every plan is accepted by the service, at any moment, and the schedule
that is parsed from its expression fires at the times that the plan names,
by the clock of the time zone. It never ends: a date comes every year, and
so does the routine that is described as one that runs once.
-/
import LendingClaw.Routines.Cron
import LendingClaw.Ui.ScheduleEditor

namespace LendingClaw.Ui

open LendingClaw.Lib LendingClaw.Routines

/-! ## The times of a plan -/

/-- A minute of a day, in nanoseconds. -/
def timeOfDay (day : Int) (h : Fin 24) (m : Fin 60) : Int :=
  Routines.hour * (24 * day + h.val) + 60000000000 * m.val

theorem hour_bounds (h : Fin 24) : 0 ≤ h.val ∧ h.val ≤ 23 := by omega

theorem minute_bounds (m : Fin 60) : 0 ≤ m.val ∧ m.val ≤ 59 := by omega

theorem sunday_bounds : 0 ≤ 0 ∧ 0 ≤ 6 := by decide

theorem mondayToFriday_bounds : ∀ v ∈ [1, 2, 3, 4, 5], 0 ≤ v ∧ v ≤ 6 := by decide

/-- The field `1-5`. -/
def mondayToFriday : Field 0 6 := { values := [1, 2, 3, 4, 5], star := false, bounded := mondayToFriday_bounds }

namespace Plan

/-- A clock that shows the time says that the plan is due. -/
def Due : Plan → Int → Prop
  | hourly m, time => ∃ h : Int, time = Routines.hour * h + 60000000000 * m.val
  | daily h m, time => ∃ day, time = timeOfDay day h m
  | weekdays h m, time =>
    ∃ day, 1 ≤ Calendar.weekday day ∧ Calendar.weekday day ≤ 5 ∧ time = timeOfDay day h m
  | weekly h m, time => ∃ day, Calendar.weekday day = 0 ∧ time = timeOfDay day h m
  | once d h m, time =>
    ∃ day, Calendar.month day = d.month ∧ Calendar.dayOfMonth day = d.date ∧ time = timeOfDay day h m

/-- The standard meaning of the expression. -/
def schedule : Plan → SpecSchedule
  | hourly m =>
    { minute := .only m (minute_bounds m), hour := .all, dom := .all, month := .all, dow := .all }
  | daily h m =>
    { minute := .only m (minute_bounds m), hour := .only h (hour_bounds h), dom := .all, month := .all, dow := .all }
  | weekdays h m =>
    { minute := .only m (minute_bounds m), hour := .only h (hour_bounds h), dom := .all, month := .all
      dow := mondayToFriday }
  | weekly h m =>
    { minute := .only m (minute_bounds m), hour := .only h (hour_bounds h), dom := .all, month := .all
      dow := .only 0 sunday_bounds }
  | once d h m =>
    { minute := .only m (minute_bounds m), hour := .only h (hour_bounds h), dom := .only d.date d.date_bounds
      month := .only d.month d.month_bounds, dow := .all }

end Plan

/-! ## Fields -/

@[simp] theorem allows_only {low high v : Nat} (h : low ≤ v ∧ v ≤ high) (n : Int) :
    (Field.only v h).allows n = true ↔ n = v := by
  simp [Field.allows, Field.only, eq_comm]

@[simp] theorem allows_all {low high : Nat} (n : Int) :
    (Field.all : Field low high).allows n = true ↔ (low : Int) ≤ n ∧ n ≤ high := by
  simp only [Field.allows, Field.all, List.any_eq_true, List.mem_range'_1, decide_eq_true_eq]
  constructor
  · rintro ⟨v, hv, rfl⟩
    omega
  · intro h
    exact ⟨n.toNat, by omega, by omega⟩

@[simp] theorem star_only {low high v : Nat} (h : low ≤ v ∧ v ≤ high) : (Field.only v h).star = false := rfl

@[simp] theorem star_all {low high : Nat} : (Field.all : Field low high).star = true := rfl

@[simp] theorem allows_mondayToFriday (n : Int) : mondayToFriday.allows n = true ↔ 1 ≤ n ∧ n ≤ 5 := by
  simp [Field.allows, mondayToFriday]
  omega

/-- A day, if one of the two fields for it is a star. -/
theorem dayMatches_star {s : SpecSchedule} (h : s.dom.star = true ∨ s.dow.star = true) (day : Int) :
    s.dayMatches day = true
      ↔ s.dom.allows (Calendar.dayOfMonth day) = true ∧ s.dow.allows (Calendar.weekday day) = true := by
  simp [SpecSchedule.dayMatches, h]

namespace Plan

/-- The hours that the other four fields of a plan allow. -/
def DueHour : Plan → Int → Prop
  | hourly _, _ => True
  | daily h _, n => n % 24 = h.val
  | weekdays h _, n => n % 24 = h.val ∧ 1 ≤ Calendar.weekday (n / 24) ∧ Calendar.weekday (n / 24) ≤ 5
  | weekly h _, n => n % 24 = h.val ∧ Calendar.weekday (n / 24) = 0
  | once d h _, n =>
    n % 24 = h.val ∧ Calendar.month (n / 24) = d.month ∧ Calendar.dayOfMonth (n / 24) = d.date

def minuteOf : Plan → Fin 60
  | hourly m | daily _ m | weekdays _ m | weekly _ m | once _ _ m => m

theorem allowsHour_schedule (p : Plan) (n : Int) : p.schedule.allowsHour n = true ↔ p.DueHour n := by
  have hdom := Calendar.dayOfMonth_bounds (n / 24)
  have hmonth := Calendar.month_bounds (n / 24)
  have hdow := Calendar.weekday_bounds (n / 24)
  have hstar : p.schedule.dom.star = true ∨ p.schedule.dow.star = true := by
    cases p <;> simp [schedule]
  simp only [SpecSchedule.allowsHour, Bool.and_eq_true, dayMatches_star hstar]
  cases p with
  | hourly m =>
    simp only [schedule, DueHour, allows_all, iff_true]
    omega
  | daily h m | weekly h m | once d h m =>
    simp only [schedule, DueHour, allows_only, allows_all, Nat.cast_zero]
    omega
  | weekdays h m =>
    simp only [schedule, DueHour, allows_only, allows_all, allows_mondayToFriday]
    omega

theorem minute_schedule (p : Plan) : p.schedule.minute.values = [p.minuteOf.val] := by
  cases p <;> rfl

/-- A minute of an hour that is allowed is a minute of a day. -/
theorem exists_hour_iff (days : Int → Prop) (h : Fin 24) (m : Fin 60) (time : Int) :
    (∃ day, days day ∧ time = timeOfDay day h m)
      ↔ ∃ n : Int, (n % 24 = h.val ∧ days (n / 24)) ∧ time = Routines.hour * n + 60000000000 * m.val := by
  constructor
  · rintro ⟨day, hday, rfl⟩
    have hdiv : (24 * day + h.val) / 24 = day := by omega
    exact ⟨24 * day + h.val, ⟨by omega, hdiv.symm ▸ hday⟩, rfl⟩
  · rintro ⟨n, ⟨hhour, hday⟩, rfl⟩
    have hn : 24 * (n / 24) + h.val = n := by omega
    exact ⟨n / 24, hday, by rw [timeOfDay, hn]⟩

/-- A plan is due at its minute of an hour that it allows. -/
theorem due_iff (p : Plan) (time : Int) :
    p.Due time ↔ ∃ n, p.DueHour n ∧ time = Routines.hour * n + 60000000000 * p.minuteOf.val := by
  cases p with
  | hourly m => simp [Due, DueHour, minuteOf]
  | daily h m => simpa [Due, DueHour, minuteOf] using exists_hour_iff (fun _ => True) h m time
  | weekdays h m =>
    simpa [Due, DueHour, minuteOf, and_assoc] using
      exists_hour_iff (fun day => 1 ≤ Calendar.weekday day ∧ Calendar.weekday day ≤ 5) h m time
  | weekly h m =>
    simpa [Due, DueHour, minuteOf, and_assoc] using
      exists_hour_iff (fun day => Calendar.weekday day = 0) h m time
  | once d h m =>
    simpa [Due, DueHour, minuteOf, and_assoc] using
      exists_hour_iff (fun day => Calendar.month day = d.month ∧ Calendar.dayOfMonth day = d.date) h m time

/-- The schedule of a plan fires when the plan is due. -/
theorem fires_iff (clock : Clock) (p : Plan) (t : Int) :
    Fires clock p.schedule t ↔ p.Due (clock.shows t) := by
  rw [due_iff]
  unfold Fires SpecSchedule.allowsTime
  simp [minute_schedule, allowsHour_schedule]

/-! ## A plan never ends -/

/-- Some hour is allowed. -/
theorem exists_dueHour (p : Plan) : ∃ n, p.DueHour n := by
  cases p with
  | hourly m => exact ⟨0, trivial⟩
  | daily h m => exact ⟨h.val, by simp only [DueHour]; omega⟩
  | weekdays h m =>
    refine ⟨24 * 4 + h.val, ?_⟩
    simp only [DueHour, Calendar.weekday]
    omega
  | weekly h m =>
    refine ⟨24 * 3 + h.val, ?_⟩
    simp only [DueHour, Calendar.weekday]
    omega
  | once d h m =>
    have hdiv : (24 * d.day + h.val) / 24 = d.day := by omega
    exact ⟨24 * d.day + h.val, by omega, by rw [hdiv]; exact d.month_eq, by rw [hdiv]; exact d.date_eq⟩

/-- On a clock that is not changed, a plan is due after any moment. -/
theorem exists_later (p : Plan) (offset t : Int) : ∃ u, t < u ∧ Fires (Clock.fixed offset) p.schedule u := by
  obtain ⟨n, hn⟩ := p.exists_dueHour
  obtain ⟨k, hk⟩ : ∃ k : Int, t + offset < Routines.hour * (n + Calendar.cycle * 24 * k) := by
    refine ⟨|t| + |offset| + |n| + 1, ?_⟩
    have ht := le_abs_self t
    have hoffset := le_abs_self offset
    have hnabs := neg_abs_le n
    have hpos := abs_nonneg n
    have hpos' := abs_nonneg t
    have hpos'' := abs_nonneg offset
    unfold Routines.hour Calendar.cycle
    omega
  have hallows : p.schedule.allowsHour (n + Calendar.cycle * 24 * k) = true := by
    rw [allowsHour_add_cycle, allowsHour_schedule]
    exact hn
  refine ⟨Routines.hour * (n + Calendar.cycle * 24 * k) + 60000000000 * p.minuteOf.val - offset, by omega,
    n + Calendar.cycle * 24 * k, p.minuteOf.val, by simp [minute_schedule], hallows, ?_⟩
  rw [Clock.shows_fixed]
  omega

/-! ## A plan is accepted -/

theorem oneMinute_schedule (p : Plan) : p.schedule.OneMinute := by
  simp [SpecSchedule.OneMinute, minute_schedule]

theorem spaced_schedule (p : Plan) (offset : Int) : Spaced (Clock.fixed offset) p.schedule :=
  spaced_of_oneMinute p.oneMinute_schedule (not_repeats_of_wholeHours fun _ _ => by simp [Clock.fixed])

theorem accepted_schedule {cron : CronLib SpecSchedule} {offset : Int} (hstandard : Standard cron offset)
    (p : Plan) (now : Int) : Accepted cron now p.schedule := by
  obtain ⟨u1, hlt1, hfires1⟩ := p.exists_later offset now
  obtain ⟨t1, ht1⟩ := exists_least hlt1 hfires1
  obtain ⟨u2, hlt2, hfires2⟩ := p.exists_later offset t1
  obtain ⟨t2, ht2⟩ := exists_least hlt2 hfires2
  exact ⟨t1, t2, (hstandard.next _ _ _).mpr ht1, (hstandard.next _ _ _).mpr ht2,
    (p.spaced_schedule offset).any ht1.1.2 ht2.1.2 ht2.1.1⟩

end Plan

/-! ## From the controls to the runs -/

/-- A routine with a name and a prompt, and the schedule of a form. -/
structure Submitted (f : ScheduleForm) (r : Routine) : Prop where
  name : trimSpace r.name ≠ ""
  prompt : trimSpace r.prompt ≠ ""
  cron : r.scheduleCron = some f.scheduleCron

/-- What becomes of a form that stands for a plan. -/
structure Planned (cron : CronLib SpecSchedule) (offset : Int) (f : ScheduleForm) (p : Plan) : Prop where
  /-- The text that is shown is the one of the plan, also in the list of routines. -/
  described : cronDescription f.scheduleCron = p.description
  /-- A saved routine is opened under the tab of its plan. -/
  reopened : getScheduleType f.scheduleCron = p.type
  accepted : ∀ now r, Submitted f r → validate cron now r = none
  /-- In every time zone, it runs when it is due. -/
  fires : ∀ s, cron.parse f.scheduleCron = .ok s →
    ∀ (clock : Clock) (t : Int), Fires clock s t ↔ p.Due (clock.shows t)
  unending : ∀ t, ∃ u, t < u ∧ p.Due ((Clock.fixed offset).shows u)

theorem Plan.planned {cron : CronLib SpecSchedule} {offset : Int} (hstandard : Standard cron offset)
    {f : ScheduleForm} (p : Plan) (hcron : f.scheduleCron = p.cron)
    (hparse : cron.parse p.cron = .ok p.schedule) : Planned cron offset f p where
  described := by rw [hcron, p.cronDescription_cron]
  reopened := by rw [hcron, p.getScheduleType_cron]
  accepted now r hr := by
    have hschedule : r.scheduleCron = some p.cron := hr.cron.trans (congrArg some hcron)
    exact validate_of_accepted hr.name hr.prompt hschedule p.cron_ne_empty hparse
      (p.accepted_schedule hstandard now)
  fires s hs clock t := by
    rw [hcron, hparse] at hs
    cases hs
    exact p.fires_iff clock t
  unending t := by
    obtain ⟨u, hlt, hfires⟩ := p.exists_later offset t
    exact ⟨u, hlt, (p.fires_iff _ _).mp hfires⟩

/-- Christmas Day of 2026. -/
def christmas : PickedDate :=
  { day := 20812, month := 12, date := 25, month_eq := by decide +kernel, date_eq := by decide +kernel }

end LendingClaw.Ui
