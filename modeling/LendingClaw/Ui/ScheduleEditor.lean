/-
LendingClaw.Ui.ScheduleEditor — the controls for the schedule of a routine
(`ScheduleTypeInput.tsx`, `TriggerSelector.tsx`, `TimeField.tsx`,
`RoutineFormDialog.tsx`).

The dialog keeps a kind of schedule and an expression as texts. From the
moment a tab is chosen they stand for a plan, which the other controls
change as they should (`Sheet.form_choose`). What is shown can be another
kind than the plan in two cases: under the tab for an expression of one's
own, and under the tab for one date before a date is picked.
-/
import LendingClaw.Lib.Calendar
import LendingClaw.Lib.Runs
import LendingClaw.Ui.CronText

namespace LendingClaw.Ui

open LendingClaw.Lib

/-! ## The dialog -/

/-- What the form has of a schedule. -/
structure ScheduleForm where
  scheduleType : ScheduleType
  scheduleCron : String
  deriving DecidableEq

/-- `SCHEDULE_PRESET_CRON`. -/
def presetCron : ScheduleType → Option String
  | .hourly => some "0 * * * *"
  | .daily => some "0 9 * * *"
  | .weekdays => some "0 9 * * 1-5"
  | .weekly => some "0 9 * * 0"
  | .once => some "0 9 * * *"
  | .custom => none

/-- A day that was picked, with its month and its date. -/
structure PickedDate where
  day : Int
  month : Nat
  date : Nat
  month_eq : Calendar.month day = month
  date_eq : Calendar.dayOfMonth day = date

/-- A change of a control: a tab, the field for the minute, the two
columns of a time, a date with its time, the field for an expression; or
the form is saved and opened again. -/
inductive ScheduleEdit where
  | tab (type : ScheduleType)
  | minute (value : String)
  | selectHour (h : Fin 24)
  | selectMinute (m : Fin 60)
  | pick (d : PickedDate) (h : Fin 24) (m : Fin 60)
  | typed (value : String)
  | reopen

/-- The kinds with a time of the day. -/
def ScheduleType.timed : ScheduleType → Bool
  | .daily | .weekdays | .weekly => true
  | _ => false

/-- A number inside of a template string. -/
def textOf (n : Nat) : String := toString n

/-- An option of `HOURS` or `MINUTES`. -/
def option2 (n : Nat) : String := pad2 (textOf n)

/-- The hour and the minute that `TimeField` shows. -/
def timeParts (cron : String) : String × String :=
  let parts := splitColons (parseTime cron)
  (parts.head?.getD "09", parts[1]?.getD "00")

/-- The `onChange` of a time. -/
def ScheduleForm.setTime (f : ScheduleForm) (time : String) : ScheduleForm :=
  { f with scheduleCron := generateCron f.scheduleType (if time = "" then "00:00" else time) }

/-- A control is only there under its tab. -/
def ScheduleForm.edit (f : ScheduleForm) : ScheduleEdit → ScheduleForm
  | .tab type => { scheduleType := type, scheduleCron := (presetCron type).getD f.scheduleCron }
  | .minute value =>
    if f.scheduleType = .hourly then
      { scheduleType := .hourly, scheduleCron := generateCron .hourly (if value = "" then "0" else value) }
    else f
  | .selectHour h =>
    if f.scheduleType.timed then f.setTime (option2 h ++ ":" ++ (timeParts f.scheduleCron).2) else f
  | .selectMinute m =>
    if f.scheduleType.timed then f.setTime ((timeParts f.scheduleCron).1 ++ ":" ++ option2 m) else f
  | .pick d h m =>
    if f.scheduleType = .once then
      { scheduleType := .once
        scheduleCron := textOf m.val ++ " " ++ textOf h.val ++ " " ++ textOf d.date ++ " "
          ++ textOf d.month ++ " *" }
    else f
  | .typed value =>
    if f.scheduleType = .custom then { scheduleType := .custom, scheduleCron := value } else f
  | .reopen =>
    let cron := if f.scheduleCron = "" then "0 * * * *" else f.scheduleCron
    { scheduleType := getScheduleType cron, scheduleCron := cron }

/-! ## Plans -/

/-- What the controls can express. -/
inductive Plan where
  | hourly (m : Fin 60)
  | daily (h : Fin 24) (m : Fin 60)
  | weekdays (h : Fin 24) (m : Fin 60)
  | weekly (h : Fin 24) (m : Fin 60)
  | once (d : PickedDate) (h : Fin 24) (m : Fin 60)

namespace Plan

def type : Plan → ScheduleType
  | hourly _ => .hourly
  | daily _ _ => .daily
  | weekdays _ _ => .weekdays
  | weekly _ _ => .weekly
  | once _ _ _ => .once

def cron : Plan → String
  | hourly m => cronOf (textOf m.val) "*" "*" "*" "*"
  | daily h m => cronOf (textOf m.val) (textOf h.val) "*" "*" "*"
  | weekdays h m => cronOf (textOf m.val) (textOf h.val) "*" "*" "1-5"
  | weekly h m => cronOf (textOf m.val) (textOf h.val) "*" "*" "0"
  | once d h m => cronOf (textOf m.val) (textOf h.val) (textOf d.date) (textOf d.month) "*"

/-- The clock time of a plan. -/
def clock (h : Fin 24) (m : Fin 60) : String := option2 h ++ ":" ++ option2 m

def description : Plan → String
  | hourly m => "Every hour at minute " ++ option2 m
  | daily h m => "Every day at " ++ clock h m
  | weekdays h m => "Weekdays at " ++ clock h m
  | weekly h m => "Every week on Sunday at " ++ clock h m
  | once d h m => "Once on " ++ (option2 d.date ++ "/" ++ option2 d.month) ++ " at " ++ clock h m

/-- Another hour of the day. -/
def atHour (h : Fin 24) : Plan → Plan
  | daily _ m => daily h m
  | weekdays _ m => weekdays h m
  | weekly _ m => weekly h m
  | p => p

/-- Another minute of the hour. -/
def atMinute (m : Fin 60) : Plan → Plan
  | daily h _ => daily h m
  | weekdays h _ => weekdays h m
  | weekly h _ => weekly h m
  | p => p

/-- The plan of a tab. -/
def preset : ScheduleType → Option Plan
  | .hourly => some (hourly 0)
  | .daily => some (daily 9 0)
  | .weekdays => some (weekdays 9 0)
  | .weekly => some (weekly 9 0)
  | .once => some (daily 9 0)
  | .custom => none

end Plan

/-- The tab that is shown, and the plan. -/
structure Sheet where
  shown : ScheduleType
  plan : Plan

/-- A change that keeps to plans. -/
inductive Choice where
  | tab (type : ScheduleType)
  | minute (m : Fin 60)
  | selectHour (h : Fin 24)
  | selectMinute (m : Fin 60)
  | pick (d : PickedDate) (h : Fin 24) (m : Fin 60)
  | reopen

/-- The change of the controls. -/
def Choice.edit : Choice → ScheduleEdit
  | .tab type => .tab type
  | .minute m => .minute (textOf m.val)
  | .selectHour h => .selectHour h
  | .selectMinute m => .selectMinute m
  | .pick d h m => .pick d h m
  | .reopen => .reopen

namespace Sheet

def choose (s : Sheet) : Choice → Sheet
  | .tab type => { shown := type, plan := (Plan.preset type).getD s.plan }
  | .minute m => if s.shown = .hourly then { s with plan := .hourly m } else s
  | .selectHour h => if s.shown.timed then { s with plan := s.plan.atHour h } else s
  | .selectMinute m => if s.shown.timed then { s with plan := s.plan.atMinute m } else s
  | .pick d h m => if s.shown = .once then { s with plan := .once d h m } else s
  | .reopen => { s with shown := s.plan.type }

/-- The form that stands for the sheet. -/
def form (s : Sheet) : ScheduleForm := { scheduleType := s.shown, scheduleCron := s.plan.cron }

/-- The plan is of the kind that is shown, but for the two tabs that can
show another. -/
def Consistent (s : Sheet) : Prop :=
  s.shown = s.plan.type ∨ s.shown = .custom ∨ (s.shown = .once ∧ s.plan = .daily 9 0)

end Sheet

/-! ## Numbers as texts -/

/-- What the functions of `cron.ts` make of the text of a number. -/
structure ReadsAs (text : String) (n : Nat) : Prop where
  part : IsPart text
  isNumber : isNumberPart text = true
  number : numberOfPart text = n
  padded : parseIntText (pad2 text) = text
  colons : ':' ∉ (pad2 text).toList

theorem readsAs_fin (n : Fin 60) : ReadsAs (textOf n.val) n.val where
  part := by
    have hall : ∀ n : Fin 60, (textOf n.val).toList ≠ []
        ∧ (textOf n.val).toList.all (fun c => isJsSpace c = false) = true := by decide +kernel
    exact ⟨(hall n).1, fun c hc => by simpa using List.all_eq_true.mp (hall n).2 c hc⟩
  isNumber := by
    have hall : ∀ n : Fin 60, isNumberPart (textOf n.val) = true := by decide +kernel
    exact hall n
  number := by
    have hall : ∀ n : Fin 60, numberOfPart (textOf n.val) = n.val := by decide +kernel
    exact hall n
  padded := by
    have hall : ∀ n : Fin 60, parseIntText (pad2 (textOf n.val)) = textOf n.val := by decide +kernel
    exact hall n
  colons := by
    have hall : ∀ n : Fin 60, ':' ∉ (pad2 (textOf n.val)).toList := by decide +kernel
    exact hall n

/-- The numbers of a schedule are less than sixty. -/
theorem readsAs {n : Nat} (h : n < 60) : ReadsAs (textOf n) n := readsAs_fin ⟨n, h⟩

theorem not_isNumber_star : isNumberPart "*" = false := by decide

theorem ReadsAs.ne_star {text : String} {n : Nat} (h : ReadsAs text n) : text ≠ "*" := by
  rintro rfl
  have hnumber := h.isNumber
  rw [not_isNumber_star] at hnumber
  cases hnumber

theorem ReadsAs.ne_empty {text : String} {n : Nat} (h : ReadsAs text n) : text ≠ "" := by
  rintro rfl
  exact h.part.1 rfl

theorem isPart_star : IsPart "*" := ⟨by decide, by simp [isJsSpace]⟩

/-- The two sides of a time. -/
theorem splitColons_time {a b : String} (ha : ':' ∉ a.toList) (hb : ':' ∉ b.toList) :
    splitColons (a ++ ":" ++ b) = [a, b] := by
  have htext : (a ++ ":" ++ b).toList = a.toList ++ ':' :: b.toList := by simp
  unfold splitColons
  rw [htext, List.splitOn_append_cons_self_of_not_mem ha, List.splitOn_eq_singleton hb]
  simp

/-! ## What the controls read in a plan -/

theorem PickedDate.date_bounds (d : PickedDate) : 1 ≤ d.date ∧ d.date ≤ 31 := by
  have h := Calendar.dayOfMonth_bounds d.day
  have hdate := d.date_eq
  omega

theorem PickedDate.month_bounds (d : PickedDate) : 1 ≤ d.month ∧ d.month ≤ 12 := by
  have h := Calendar.month_bounds d.day
  have hmonth := d.month_eq
  omega

theorem readsAs_hour (h : Fin 24) : ReadsAs (textOf h.val) h.val := readsAs (by omega)

theorem PickedDate.readsAs_date (d : PickedDate) : ReadsAs (textOf d.date) d.date :=
  readsAs (by have h := d.date_bounds; omega)

theorem PickedDate.readsAs_month (d : PickedDate) : ReadsAs (textOf d.month) d.month :=
  readsAs (by have h := d.month_bounds; omega)

theorem cronOf_ne_empty (min hr dom mon dow : String) : cronOf min hr dom mon dow ≠ "" := by
  intro h
  have hlength := congrArg (fun text => text.toList.length) h
  simp [cronOf] at hlength

theorem isPart_weekdays : IsPart "1-5" := ⟨by decide, by simp [isJsSpace]⟩

theorem isPart_sunday : IsPart "0" := ⟨by decide, by simp [isJsSpace]⟩

theorem cronParts_hourly (m : Fin 60) :
    cronParts (Plan.hourly m).cron = [textOf m.val, "*", "*", "*", "*"] :=
  cronParts_cronOf (readsAs_fin m).part isPart_star isPart_star isPart_star isPart_star

theorem cronParts_timed (h : Fin 24) (m : Fin 60) {dow : String} (hdow : IsPart dow) :
    cronParts (cronOf (textOf m.val) (textOf h.val) "*" "*" dow)
      = [textOf m.val, textOf h.val, "*", "*", dow] :=
  cronParts_cronOf (readsAs_fin m).part (readsAs_hour h).part isPart_star isPart_star hdow

theorem cronParts_once (d : PickedDate) (h : Fin 24) (m : Fin 60) :
    cronParts (Plan.once d h m).cron
      = [textOf m.val, textOf h.val, textOf d.date, textOf d.month, "*"] :=
  cronParts_cronOf (readsAs_fin m).part (readsAs_hour h).part d.readsAs_date.part d.readsAs_month.part
    isPart_star

theorem Plan.cron_ne_empty (p : Plan) : p.cron ≠ "" := by
  cases p <;> exact cronOf_ne_empty _ _ _ _ _

/-- A saved plan is opened again under its own tab. -/
theorem Plan.getScheduleType_cron (p : Plan) : getScheduleType p.cron = p.type := by
  unfold getScheduleType
  rw [if_neg p.cron_ne_empty]
  cases p with
  | hourly m => simp [cronParts_hourly, Plan.type]
  | daily h m =>
    rw [show (Plan.daily h m).cron = cronOf (textOf m.val) (textOf h.val) "*" "*" "*" from rfl,
      cronParts_timed h m isPart_star]
    simp [(readsAs_hour h).ne_star, Plan.type]
  | weekdays h m =>
    rw [show (Plan.weekdays h m).cron = cronOf (textOf m.val) (textOf h.val) "*" "*" "1-5" from rfl,
      cronParts_timed h m isPart_weekdays]
    simp [Plan.type]
  | weekly h m =>
    rw [show (Plan.weekly h m).cron = cronOf (textOf m.val) (textOf h.val) "*" "*" "0" from rfl,
      cronParts_timed h m isPart_sunday]
    simp [Plan.type]
  | once d h m =>
    simp [cronParts_once, d.readsAs_date.ne_star, d.readsAs_date.isNumber, d.readsAs_month.isNumber,
      Plan.type]

/-- The two columns of a plan with a time show its time. -/
theorem timeParts_timed (h : Fin 24) (m : Fin 60) {dow : String} (hdow : IsPart dow) :
    timeParts (cronOf (textOf m.val) (textOf h.val) "*" "*" dow) = (option2 h, option2 m) := by
  have htime : parseTime (cronOf (textOf m.val) (textOf h.val) "*" "*" dow) = Plan.clock h m := by
    simp [parseTime, cronParts_timed h m hdow, (readsAs_hour h).ne_star, (readsAs_fin m).ne_star,
      Plan.clock, option2]
  have hsplit : splitColons (Plan.clock h m) = [option2 h, option2 m] :=
    splitColons_time (readsAs_hour h).colons (readsAs_fin m).colons
  simp [timeParts, htime, hsplit]

theorem clock_ne_empty (h : Fin 24) (m : Fin 60) : Plan.clock h m ≠ "" := by
  intro hempty
  have hlength := congrArg (fun text => text.toList.length) hempty
  simp [Plan.clock] at hlength

theorem option2_ne_empty (n : Nat) : option2 n ≠ "" := by
  intro hempty
  have hlength := congrArg (fun text => text.toList.length) hempty
  obtain ⟨hwidth, htext⟩ : 2 - (textOf n).toList.length = 0 ∧ textOf n = "" := by
    simpa [option2, pad2] using hlength
  simp [htext] at hwidth

/-- The last field for a kind with a time. -/
def dowOf : ScheduleType → String
  | .weekdays => "1-5"
  | .weekly => "0"
  | _ => "*"

theorem isPart_dowOf (type : ScheduleType) : IsPart (dowOf type) := by
  cases type with
  | weekdays => exact isPart_weekdays
  | weekly => exact isPart_sunday
  | once | hourly | daily | custom => exact isPart_star

/-- The expression that is made of a time. -/
theorem generateCron_clock {type : ScheduleType} (htype : type.timed = true) (h : Fin 24) (m : Fin 60) :
    generateCron type (Plan.clock h m)
      = cronOf (textOf m.val) (textOf h.val) "*" "*" (dowOf type) := by
  have hsplit : splitColons (Plan.clock h m) = [option2 h, option2 m] :=
    splitColons_time (readsAs_hour h).colons (readsAs_fin m).colons
  have hhour : parseIntText (option2 h) = textOf h.val := (readsAs_hour h).padded
  have hminute : parseIntText (option2 m) = textOf m.val := (readsAs_fin m).padded
  cases type with
  | daily | weekdays | weekly =>
    refine String.toList_injective ?_
    simp [generateCron, hsplit, option2_ne_empty, hhour, hminute, cronOf, dowOf]
  | once | hourly | custom => cases htype

theorem setTime_timed {f : ScheduleForm} (htype : f.scheduleType.timed = true) (h : Fin 24) (m : Fin 60) :
    f.setTime (option2 h ++ ":" ++ option2 m)
      = { scheduleType := f.scheduleType
          scheduleCron := cronOf (textOf m.val) (textOf h.val) "*" "*" (dowOf f.scheduleType) } := by
  have hclock := generateCron_clock htype h m
  unfold ScheduleForm.setTime
  rw [← Plan.clock, if_neg (clock_ne_empty h m), hclock]

/-! ## The dialog keeps a plan -/

theorem preset_cron {type : ScheduleType} {p : Plan} (h : Plan.preset type = some p) :
    presetCron type = some p.cron := by
  cases type with
  | hourly | daily | weekdays | weekly | once =>
    cases h
    exact congrArg some (by decide +kernel)
  | custom => cases h

theorem generateCron_minute (m : Fin 60) : generateCron .hourly (textOf m.val) = (Plan.hourly m).cron := by
  refine String.toList_injective ?_
  simp [generateCron, (readsAs_fin m).ne_empty, Plan.cron, cronOf]

theorem once_cron (d : PickedDate) (h : Fin 24) (m : Fin 60) :
    textOf m.val ++ " " ++ textOf h.val ++ " " ++ textOf d.date ++ " " ++ textOf d.month ++ " *"
      = (Plan.once d h m).cron := by
  refine String.toList_injective ?_
  simp [Plan.cron, cronOf]

/-- Under a tab with a time, the plan is one with a time. -/
theorem Sheet.Consistent.timed {s : Sheet} (hs : s.Consistent) (htimed : s.shown.timed = true) :
    ∃ h m, s.plan.cron = cronOf (textOf m) (textOf h) "*" "*" (dowOf s.shown)
      ∧ (∀ h', (s.plan.atHour h').cron = cronOf (textOf m) (textOf h'.val) "*" "*" (dowOf s.shown))
      ∧ (∀ m', (s.plan.atMinute m').cron = cronOf (textOf m'.val) (textOf h) "*" "*" (dowOf s.shown))
      ∧ h < 24 ∧ m < 60 := by
  have htype : s.shown = s.plan.type := by
    rcases hs with htype | hcustom | ⟨honce, -⟩
    · exact htype
    · simp [hcustom, ScheduleType.timed] at htimed
    · simp [honce, ScheduleType.timed] at htimed
  cases hplan : s.plan with
  | daily h m | weekdays h m | weekly h m =>
    rw [hplan] at htype
    exact ⟨h, m, by rw [htype]; rfl, fun _ => by rw [htype]; rfl, fun _ => by rw [htype]; rfl, h.2, m.2⟩
  | hourly m | once d h m => simp [htype, hplan, Plan.type, ScheduleType.timed] at htimed

/-- One change of a control is the change of the plan. -/
theorem Sheet.form_choose {s : Sheet} (hs : s.Consistent) (c : Choice) :
    s.form.edit c.edit = (s.choose c).form := by
  cases c with
  | tab type =>
    cases htype : Plan.preset type with
    | some p => simp [Choice.edit, ScheduleForm.edit, Sheet.choose, Sheet.form, htype, preset_cron htype]
    | none =>
      cases type with
      | custom => rfl
      | hourly | daily | weekdays | weekly | once => cases htype
  | minute m =>
    by_cases hshown : s.shown = .hourly
    · simp [Choice.edit, ScheduleForm.edit, Sheet.choose, Sheet.form, hshown, (readsAs_fin m).ne_empty,
        generateCron_minute]
    · simp [Choice.edit, ScheduleForm.edit, Sheet.choose, Sheet.form, hshown]
  | selectHour h =>
    by_cases htimed : s.shown.timed = true
    · obtain ⟨h0, m0, hcron, hhour, -, hh0, hm0⟩ := hs.timed htimed
      have hparts := timeParts_timed ⟨h0, hh0⟩ ⟨m0, hm0⟩ (isPart_dowOf s.shown)
      have hset := setTime_timed (f := s.form) htimed h ⟨m0, hm0⟩
      simp only [Choice.edit, ScheduleForm.edit, Sheet.choose, if_pos htimed]
      simpa [Sheet.form, htimed, hcron, hparts, hhour] using hset
    · simp [Choice.edit, ScheduleForm.edit, Sheet.choose, Sheet.form, htimed]
  | selectMinute m =>
    by_cases htimed : s.shown.timed = true
    · obtain ⟨h0, m0, hcron, -, hminute, hh0, hm0⟩ := hs.timed htimed
      have hparts := timeParts_timed ⟨h0, hh0⟩ ⟨m0, hm0⟩ (isPart_dowOf s.shown)
      have hset := setTime_timed (f := s.form) htimed ⟨h0, hh0⟩ m
      simp only [Choice.edit, ScheduleForm.edit, Sheet.choose, if_pos htimed]
      simpa [Sheet.form, htimed, hcron, hparts, hminute] using hset
    · simp [Choice.edit, ScheduleForm.edit, Sheet.choose, Sheet.form, htimed]
  | pick d h m =>
    by_cases hshown : s.shown = .once
    · simp [Choice.edit, ScheduleForm.edit, Sheet.choose, Sheet.form, hshown, once_cron]
    · simp [Choice.edit, ScheduleForm.edit, Sheet.choose, Sheet.form, hshown]
  | reopen =>
    simp [Choice.edit, ScheduleForm.edit, Sheet.choose, Sheet.form, Plan.cron_ne_empty,
      Plan.getScheduleType_cron]

theorem Plan.type_atHour (h : Fin 24) (p : Plan) : (p.atHour h).type = p.type := by
  cases p <;> rfl

theorem Plan.type_atMinute (m : Fin 60) (p : Plan) : (p.atMinute m).type = p.type := by
  cases p <;> rfl

theorem Sheet.Consistent.atTime {s : Sheet} (hs : s.Consistent) (htimed : s.shown.timed = true)
    {p : Plan} (hp : p.type = s.plan.type) : ({ s with plan := p } : Sheet).Consistent := by
  rcases hs with htype | hcustom | ⟨honce, -⟩
  · exact .inl (htype.trans hp.symm)
  · exact .inr (.inl hcustom)
  · simp [honce, ScheduleType.timed] at htimed

theorem Plan.preset_type {type : ScheduleType} {p : Plan} (h : Plan.preset type = some p) :
    type = p.type ∨ (type = .once ∧ p = .daily 9 0) := by
  cases type with
  | hourly | daily | weekdays | weekly =>
    cases h
    exact .inl rfl
  | once =>
    cases h
    exact .inr ⟨rfl, rfl⟩
  | custom => cases h

theorem Sheet.consistent_preset {type : ScheduleType} {p : Plan} (h : Plan.preset type = some p) :
    (Sheet.mk type p).Consistent := by
  rcases Plan.preset_type h with htype | honce
  · exact .inl htype
  · exact .inr (.inr honce)

theorem Sheet.consistent_choose {s : Sheet} (hs : s.Consistent) (c : Choice) :
    (s.choose c).Consistent := by
  cases c with
  | tab type =>
    cases hpreset : Plan.preset type with
    | some p => simpa [Sheet.choose, hpreset] using Sheet.consistent_preset hpreset
    | none =>
      cases type with
      | custom => exact .inr (.inl rfl)
      | hourly | daily | weekdays | weekly | once => cases hpreset
  | minute m =>
    by_cases hshown : s.shown = .hourly
    · simp [Sheet.choose, hshown, Sheet.Consistent, Plan.type]
    · simpa [Sheet.choose, hshown] using hs
  | selectHour h =>
    by_cases htimed : s.shown.timed = true
    · simpa [Sheet.choose, htimed] using hs.atTime htimed (Plan.type_atHour h s.plan)
    · simpa [Sheet.choose, htimed] using hs
  | selectMinute m =>
    by_cases htimed : s.shown.timed = true
    · simpa [Sheet.choose, htimed] using hs.atTime htimed (Plan.type_atMinute m s.plan)
    · simpa [Sheet.choose, htimed] using hs
  | pick d h m =>
    by_cases hshown : s.shown = .once
    · simp [Sheet.choose, hshown, Sheet.Consistent, Plan.type]
    · simpa [Sheet.choose, hshown] using hs
  | reopen => exact .inl rfl

/-- Choices, one after the other, are changes of the plan. -/
theorem Sheet.form_run {s : Sheet} (hs : s.Consistent) (choices : List Choice) :
    run ScheduleForm.edit s.form (choices.map Choice.edit) = (run Sheet.choose s choices).form
      ∧ (run Sheet.choose s choices).Consistent := by
  induction choices generalizing s with
  | nil => exact ⟨rfl, hs⟩
  | cons c choices ih =>
    have hrest := ih (Sheet.consistent_choose hs c)
    simpa [Sheet.form_choose hs c] using hrest

/-- From the moment a tab is chosen, whatever was in the form before. -/
theorem Sheet.form_from_tab (f : ScheduleForm) (edits : List ScheduleEdit) {type : ScheduleType} {p : Plan}
    (hpreset : Plan.preset type = some p) (choices : List Choice) :
    run ScheduleForm.edit f (edits ++ .tab type :: choices.map Choice.edit)
      = (run Sheet.choose { shown := type, plan := p } choices).form := by
  have htab : (run ScheduleForm.edit f edits).edit (.tab type) = (Sheet.mk type p).form := by
    simp [ScheduleForm.edit, preset_cron hpreset, Sheet.form]
  rw [run_append, run_cons, htab]
  exact (Sheet.form_run (Sheet.consistent_preset hpreset) choices).1

/-! ## The description of a plan -/

theorem formatCronTime_clock (h : Fin 24) (m : Fin 60) :
    formatCronTime (textOf h.val) (textOf m.val) = some (Plan.clock h m) := by
  have hhour := readsAs_hour h
  have hminute := readsAs_fin m
  unfold formatCronTime
  simp only [hhour.isNumber, hminute.isNumber, hhour.number, hminute.number]
  rw [if_neg (by simp), if_neg (by omega)]
  rfl

theorem formatCronMinute_option (m : Fin 60) : formatCronMinute (textOf m.val) = some (option2 m) := by
  have hminute := readsAs_fin m
  unfold formatCronMinute
  simp only [hminute.isNumber, hminute.number]
  rw [if_neg (by simp), if_neg (by omega)]
  rfl

theorem formatCronDayMonth_picked (d : PickedDate) :
    formatCronDayMonth (textOf d.date) (textOf d.month) = some (option2 d.date ++ "/" ++ option2 d.month) := by
  have hdate := d.date_bounds
  have hmonth := d.month_bounds
  unfold formatCronDayMonth
  simp only [d.readsAs_date.isNumber, d.readsAs_month.isNumber, d.readsAs_date.number, d.readsAs_month.number]
  rw [if_neg (by simp), if_neg (by omega)]
  rfl

theorem cronDescription_hourly {cron min text : String} (hparts : cronParts cron = [min, "*", "*", "*", "*"])
    (htext : formatCronMinute min = some text) : cronDescription cron = "Every hour at minute " ++ text := by
  unfold cronDescription
  rw [hparts]
  simp [htext]

/-- With a time, the last field says which days. -/
theorem cronDescription_timed {cron min hr dow time : String} (hparts : cronParts cron = [min, hr, "*", "*", dow])
    (hhour : hr ≠ "*") (htime : formatCronTime hr min = some time) :
    (dow = "*" → cronDescription cron = "Every day at " ++ time)
      ∧ (dow = "1-5" → cronDescription cron = "Weekdays at " ++ time)
      ∧ (dow = "0" → cronDescription cron = "Every week on Sunday at " ++ time) := by
  unfold cronDescription
  rw [hparts]
  refine ⟨?_, ?_, ?_⟩
  · rintro rfl
    simp [hhour, htime]
  · rintro rfl
    simp [htime]
  · rintro rfl
    simp [htime, weekdayLabels]

theorem cronDescription_once {cron min hr dom mon time date : String}
    (hparts : cronParts cron = [min, hr, dom, mon, "*"]) (hdom : dom ≠ "*") (hmon : mon ≠ "*")
    (htime : formatCronTime hr min = some time) (hdate : formatCronDayMonth dom mon = some date) :
    cronDescription cron = "Once on " ++ date ++ " at " ++ time := by
  unfold cronDescription
  rw [hparts]
  simp [hdom, hmon, htime, hdate]

/-- The text that is shown with a plan. -/
theorem Plan.cronDescription_cron (p : Plan) : cronDescription p.cron = p.description := by
  cases p with
  | hourly m => exact cronDescription_hourly (cronParts_hourly m) (formatCronMinute_option m)
  | daily h m =>
    exact (cronDescription_timed (cronParts_timed h m isPart_star) (readsAs_hour h).ne_star
      (formatCronTime_clock h m)).1 rfl
  | weekdays h m =>
    exact (cronDescription_timed (cronParts_timed h m isPart_weekdays) (readsAs_hour h).ne_star
      (formatCronTime_clock h m)).2.1 rfl
  | weekly h m =>
    exact (cronDescription_timed (cronParts_timed h m isPart_sunday) (readsAs_hour h).ne_star
      (formatCronTime_clock h m)).2.2 rfl
  | once d h m =>
    exact cronDescription_once (cronParts_once d h m) d.readsAs_date.ne_star d.readsAs_month.ne_star
      (formatCronTime_clock h m) (formatCronDayMonth_picked d)

end LendingClaw.Ui
