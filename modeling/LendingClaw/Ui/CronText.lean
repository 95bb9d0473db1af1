/-
LendingClaw.Ui.CronText — cron expressions as the routine dialog writes
and reads them (`ui/web/src/lib/cron.ts`).

An expression is taken apart at its white space. What a field stands for
is looked at only where it is a plain number; `parseInt` gives NaN for
what does not start with one. Numbers too long to be exact, the dates of
`parseOnceDate` and the names of time zones are left out.
-/
import LendingClaw.Lib.JsText

namespace LendingClaw.Ui

open LendingClaw.Lib

/-! ## Parts and numbers -/

/-- `cron.trim().split(/\s+/)`. -/
def cronParts (cron : String) : List String :=
  let text := jsTrim cron.toList
  if text = [] then [""]
  else ((text.splitOnP isJsSpace).filter (· ≠ [])).map String.ofList

/-- `isNumberPart`. -/
def isNumberPart (value : String) : Bool := value.toList ≠ [] && value.toList.all Char.isDigit

/-- `Number(value)`, of a number part. -/
def numberOfPart (value : String) : Nat := Nat.ofDigitChars 10 value.toList 0

/-- `padStart(2, "0")`. -/
def pad2 (text : String) : String :=
  String.ofList (List.replicate (2 - text.toList.length) '0' ++ text.toList)

/-- `parseInt(text, 10)`, none for NaN. -/
def parseInt (text : String) : Option Int :=
  match text.toList.dropWhile isJsSpace with
  | '-' :: rest => (digitsOf rest).map fun n => -(n : Int)
  | '+' :: rest => (digitsOf rest).map fun n => (n : Int)
  | rest => (digitsOf rest).map fun n => (n : Int)
where
  digitsOf (text : List Char) : Option Nat :=
    let digits := text.takeWhile Char.isDigit
    if digits = [] then none else some (Nat.ofDigitChars 10 digits 0)

/-- `parseInt(text, 10).toString()`. -/
def parseIntText (text : String) : String :=
  match parseInt text with
  | some n => toString n
  | none => "NaN"

/-! ## Kinds of schedules -/

inductive ScheduleType where
  | once
  | hourly
  | daily
  | weekdays
  | weekly
  | custom
  deriving DecidableEq

/-- `getScheduleType`. -/
def getScheduleType (cron : String) : ScheduleType :=
  if cron = "" then .hourly
  else
    match cronParts cron with
    | [_, hr, dom, mon, dow] =>
      if hr = "*" ∧ dom = "*" ∧ mon = "*" ∧ dow = "*" then .hourly
      else if dom = "*" ∧ mon = "*" ∧ dow = "*" then .daily
      else if dom = "*" ∧ mon = "*" ∧ dow = "1-5" then .weekdays
      else if dom = "*" ∧ mon = "*" ∧ dow ≠ "*" ∧ dow ≠ "1-5" then .weekly
      else if isNumberPart dom ∧ isNumberPart mon ∧ dow = "*" then .once
      else .custom
    | _ => .custom

/-- `parseTime`. -/
def parseTime (cron : String) : String :=
  match cronParts cron with
  | [min, hr, _, _, _] =>
    (if hr = "*" then "09" else pad2 hr) ++ ":" ++ (if min = "*" then "00" else pad2 min)
  | _ => "09:00"

/-- `parseMinute`. -/
def parseMinute (cron : String) : String :=
  match cronParts cron with
  | [min, _, _, _, _] => if min = "*" then "0" else min
  | _ => "0"

/-- The pieces of `text.split(":")`. -/
def splitColons (text : String) : List String := (text.toList.splitOn ':').map String.ofList

/-- `generateCron`. -/
def generateCron (type : ScheduleType) (timeOrMin : String) : String :=
  if type = .hourly then (if timeOrMin = "" then "0" else timeOrMin) ++ " * * * *"
  else
    let hr := (splitColons timeOrMin).head?.getD ""
    let min := (splitColons timeOrMin)[1]?.getD ""
    let h := if hr = "" then "0" else parseIntText hr
    let m := if min = "" then "0" else parseIntText min
    match type with
    | .daily => m ++ " " ++ h ++ " * * *"
    | .weekdays => m ++ " " ++ h ++ " * * 1-5"
    | .weekly => m ++ " " ++ h ++ " * * 0"
    | _ => "0 0 * * *"

/-! ## Descriptions -/

/-- `formatCronTime`. -/
def formatCronTime (hour minute : String) : Option String :=
  if ¬ isNumberPart hour ∨ ¬ isNumberPart minute then none
  else if numberOfPart hour > 23 ∨ numberOfPart minute > 59 then none
  else some (pad2 (toString (numberOfPart hour)) ++ ":" ++ pad2 (toString (numberOfPart minute)))

/-- `formatCronMinute`. -/
def formatCronMinute (minute : String) : Option String :=
  if ¬ isNumberPart minute then none
  else if numberOfPart minute > 59 then none
  else some (pad2 (toString (numberOfPart minute)))

/-- `formatCronDayMonth`. -/
def formatCronDayMonth (dayOfMonth month : String) : Option String :=
  if ¬ isNumberPart dayOfMonth ∨ ¬ isNumberPart month then none
  else if numberOfPart dayOfMonth < 1 ∨ numberOfPart dayOfMonth > 31 ∨ numberOfPart month < 1 ∨ numberOfPart month > 12 then
    none
  else some (pad2 (toString (numberOfPart dayOfMonth)) ++ "/" ++ pad2 (toString (numberOfPart month)))

/-- `WEEKDAY_LABELS`. -/
def weekdayLabels : List (String × String) :=
  [("0", "Sunday"), ("7", "Sunday"), ("1", "Monday"), ("2", "Tuesday"), ("3", "Wednesday"),
    ("4", "Thursday"), ("5", "Friday"), ("6", "Saturday")]

/-- `cronDescription`. -/
def cronDescription (cron : String) : String :=
  match cronParts cron with
  | [minute, hour, dayOfMonth, month, dayOfWeek] =>
    let time := formatCronTime hour minute
    let everyDate := dayOfMonth = "*" ∧ month = "*"
    match (if hour = "*" ∧ everyDate ∧ dayOfWeek = "*" then formatCronMinute minute else none) with
    | some text => "Every hour at minute " ++ text
    | none =>
      match time with
      | none => "Custom schedule"
      | some time =>
        if everyDate ∧ dayOfWeek = "*" then "Every day at " ++ time
        else if everyDate ∧ dayOfWeek = "1-5" then "Weekdays at " ++ time
        else
          match (if everyDate then weekdayLabels.lookup dayOfWeek else none) with
          | some weekday => "Every week on " ++ weekday ++ " at " ++ time
          | none =>
            if month = "*" ∧ dayOfWeek = "*" ∧ isNumberPart dayOfMonth then
              "Every month on day " ++ toString (numberOfPart dayOfMonth) ++ " at " ++ time
            else
              match (if dayOfWeek = "*" then formatCronDayMonth dayOfMonth month else none) with
              | some dayMonth => "Once on " ++ dayMonth ++ " at " ++ time
              | none => "Custom schedule at " ++ time
  | _ => "Custom schedule"

/-- `timezoneDescription`. -/
def timezoneDescription (timezone : String) : String :=
  if timezone = "" then ""
  else if timezone = "Asia/Ho_Chi_Minh" then "Vietnam time"
  else String.ofList (timezone.toList.map fun c => if c = '_' then ' ' else c)

/-- `scheduleDescription`. -/
def scheduleDescription (cron timezone : String) : String :=
  if timezoneDescription timezone = "" then cronDescription cron
  else cronDescription cron ++ " · " ++ timezoneDescription timezone

/-! ## Expressions made of parts -/

/-- A part of an expression. -/
def IsPart (part : String) : Prop := part.toList ≠ [] ∧ ∀ c ∈ part.toList, isJsSpace c = false

/-- Five parts with spaces between them. -/
def cronOf (min hr dom mon dow : String) : String :=
  min ++ " " ++ hr ++ " " ++ dom ++ " " ++ mon ++ " " ++ dow

theorem jsTrim_of_ends {text : List Char} (hhead : ∀ c ∈ text.head?, isJsSpace c = false)
    (hlast : ∀ c ∈ text.getLast?, isJsSpace c = false) : jsTrim text = text := by
  have hdrop : text.dropWhile isJsSpace = text := by
    cases text with
    | nil => rfl
    | cons c text => exact List.dropWhile_cons_of_neg (by simp [hhead c rfl])
  unfold jsTrim
  rw [hdrop, List.rdropWhile_eq_self_iff]
  intro hne
  simp [hlast _ (List.getLast?_eq_some_getLast hne)]

theorem splitOnP_part {part : String} (h : IsPart part) (rest : List Char) :
    (part.toList ++ ' ' :: rest).splitOnP isJsSpace = part.toList :: rest.splitOnP isJsSpace :=
  List.splitOnP_append_cons_of_forall_mem h.2 ' ' (by decide) rest

/-- The parts of an expression are its parts. -/
theorem cronParts_cronOf {min hr dom mon dow : String} (hmin : IsPart min) (hhr : IsPart hr)
    (hdom : IsPart dom) (hmon : IsPart mon) (hdow : IsPart dow) :
    cronParts (cronOf min hr dom mon dow) = [min, hr, dom, mon, dow] := by
  have htext : (cronOf min hr dom mon dow).toList
      = min.toList ++ ' ' :: (hr.toList ++ ' ' :: (dom.toList ++ ' ' :: (mon.toList ++ ' ' :: dow.toList))) := by
    simp [cronOf]
  have htrim : jsTrim (cronOf min hr dom mon dow).toList = (cronOf min hr dom mon dow).toList := by
    refine jsTrim_of_ends ?_ ?_
    · intro c hc
      rw [htext, List.head?_append_of_ne_nil _ hmin.1] at hc
      exact hmin.2 c (List.mem_of_mem_head? hc)
    · intro c hc
      have hlast : (cronOf min hr dom mon dow).toList.getLast? = dow.toList.getLast? := by
        rw [show (cronOf min hr dom mon dow).toList
          = (min ++ " " ++ hr ++ " " ++ dom ++ " " ++ mon ++ " ").toList ++ dow.toList by simp [cronOf],
          List.getLast?_append_of_ne_nil _ hdow.1]
      rw [hlast] at hc
      exact hdow.2 c (List.mem_of_mem_getLast? hc)
  have hsplit : (cronOf min hr dom mon dow).toList.splitOnP isJsSpace
      = [min.toList, hr.toList, dom.toList, mon.toList, dow.toList] := by
    rw [htext, splitOnP_part hmin, splitOnP_part hhr, splitOnP_part hdom, splitOnP_part hmon,
      List.splitOnP_eq_singleton hdow.2]
  unfold cronParts
  dsimp only
  rw [htrim, if_neg (by rw [htext]; simp), hsplit]
  simp [hmin.1, hhr.1, hdom.1, hmon.1, hdow.1, String.ofList_toList]

end LendingClaw.Ui
