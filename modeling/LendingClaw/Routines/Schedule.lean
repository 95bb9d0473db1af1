/-
LendingClaw.Routines.Schedule — Temporal schedules and the calls on them
(`internal/services/temporal/schedule.go`).

The Temporal server is not part of the repository. It is a map from
schedule ids to schedules, and every method below works on the one id its
handle was made for, so each is a function on `Option Schedule`, the
schedule of that id. The four client calls do what the SDK documents:
`Update` runs a function on the existing schedule, `Create` makes a new
one, `Pause` and `Delete` do what they say, and each is refused when the
schedule is missing (for `Create`: present). Any call can also be refused
for another reason, its `Fault`; a refused call changes nothing.
-/
import LendingClaw.Routines.Store

namespace LendingClaw.Routines

open LendingClaw.Store

/-- `ScheduleWorkflowAction`, with the workflow input spelled out. -/
structure ScheduleAction where
  id : String
  workflow : String
  routineID : String
  triggerType : String
  taskQueue : String
  deriving DecidableEq, Repr

/-- A schedule as the server keeps it. The overlap policy and the catch-up
window are absent when the schedule has no policy. -/
structure Schedule where
  cronExpressions : List String
  timeZoneName : String
  action : ScheduleAction
  overlapSkip : Option Bool
  catchupMinutes : Option Nat
  paused : Bool
  note : String
  deriving DecidableEq, Repr

/-- What the client sees of one schedule id, and the error of a call. -/
abbrev Answer := Option Schedule × Option String

/-- The schedules of the server, by id. -/
abbrev Schedules := String → Option Schedule

/-- The texts of the two server answers the code looks into. -/
structure SdkErrors where
  notFound : String
  alreadyExists : String

/-- `ScheduleID`. -/
def scheduleID (wsID : WorkspaceID) (routineID : String) : String :=
  "routine@" ++ wsID.val ++ "@" ++ routineID

/-- `TaskQueue`. -/
def taskQueue : String := "lending-claw-routines"

/-- The action of the schedule of `r`. -/
def scheduleAction (r : Routine) : ScheduleAction :=
  { id := "routine-run@" ++ r.workspaceID.val ++ "@" ++ r.id ++ "@scheduled"
    workflow := "RoutineRunWorkflow"
    routineID := r.id
    triggerType := "schedule"
    taskQueue := taskQueue }

/-- A call on the schedule `sid` of the server. -/
def onSchedule (s : Schedules) (sid : String) (call : Option Schedule → Answer) :
    Schedules × Option String :=
  (Function.update s sid (call (s sid)).1, (call (s sid)).2)

/-! ## The client calls -/

section
variable (sdk : SdkErrors)

/-- `ScheduleHandle.Update`. -/
def handleUpdate (doUpdate : Schedule → Schedule) (fault : Fault) (cur : Option Schedule) :
    Answer :=
  match fault, cur with
  | some err, _ => (cur, some err)
  | none, none => (none, some sdk.notFound)
  | none, some sch => (some (doUpdate sch), none)

/-- `ScheduleClient.Create`. -/
def createSchedule (sch : Schedule) (fault : Fault) (cur : Option Schedule) : Answer :=
  match fault, cur with
  | some err, _ => (cur, some err)
  | none, some _ => (cur, some sdk.alreadyExists)
  | none, none => (some sch, none)

/-- `ScheduleHandle.Pause`. -/
def handlePause (note : String) (fault : Fault) (cur : Option Schedule) : Answer :=
  handleUpdate sdk (fun sch => { sch with paused := true, note := note }) fault cur

/-- `ScheduleHandle.Delete`. -/
def handleDelete (fault : Fault) (cur : Option Schedule) : Answer :=
  match fault, cur with
  | some err, _ => (cur, some err)
  | none, none => (none, some sdk.notFound)
  | none, some _ => (none, none)

/-! ## Schedule -/

/-- `Schedule.Pause`: a missing schedule is no error. -/
def pause (wsID : WorkspaceID) (routineID : String) (fault : Fault)
    (cur : Option Schedule) : Answer :=
  match handlePause sdk "routine disabled" fault cur with
  | (cur, none) => (cur, none)
  | (cur, some err) =>
    if Lib.containsSub err "not found" || Lib.containsSub err "NotFound" then (cur, none)
    else (cur, some ("pause schedule \"" ++ scheduleID wsID routineID ++ "\": " ++ err))

/-- `Schedule.Delete`. -/
def deleteSchedule (wsID : WorkspaceID) (routineID : String) (fault : Fault)
    (cur : Option Schedule) : Answer :=
  match handleDelete sdk fault cur with
  | (cur, none) => (cur, none)
  | (cur, some err) =>
    (cur, some ("delete schedule \"" ++ scheduleID wsID routineID ++ "\": " ++ err))

/-- The options `Upsert` creates a schedule with. -/
def scheduleOpts (r : Routine) (cron : String) : Schedule :=
  { cronExpressions := [cron]
    timeZoneName := r.scheduleTZ
    action := scheduleAction r
    overlapSkip := some true
    catchupMinutes := some 1
    paused := !r.enabled
    note := "" }

/-- The first `DoUpdate` of `Upsert`. -/
def firstUpdate (r : Routine) (cron : String) (sch : Schedule) : Schedule :=
  { sch with
    action := scheduleAction r
    cronExpressions := [cron]
    timeZoneName := r.scheduleTZ
    overlapSkip := some true
    catchupMinutes := some 1
    paused := if r.enabled then false else sch.paused
    note := if r.enabled then "" else sch.note }

/-- The `DoUpdate` of the retry: action and spec only. -/
def retryUpdate (r : Routine) (cron : String) (sch : Schedule) : Schedule :=
  { sch with
    action := scheduleAction r
    cronExpressions := [cron]
    timeZoneName := r.scheduleTZ }

/-- The faults of the calls one `Upsert` can make. -/
structure UpsertFaults where
  update : Fault := none
  create : Fault := none
  retry : Fault := none
  pause : Fault := none
  deriving DecidableEq

/-- `Schedule.Upsert`, on the schedule of the routine's id. -/
def upsert (r : Routine) (faults : UpsertFaults) (cur : Option Schedule) : Answer :=
  match r.scheduleCron, r.enabled with
  | some cron, true =>
    match handleUpdate sdk (firstUpdate r cron) faults.update cur with
    | (cur, none) => (cur, none)
    | (cur, some _) =>
      match createSchedule sdk (scheduleOpts r cron) faults.create cur with
      | (cur, none) => (cur, none)
      | (cur, some createErr) =>
        if Lib.containsSub createErr "already exists"
            || Lib.containsSub createErr "AlreadyExists" then
          handleUpdate sdk (retryUpdate r cron) faults.retry cur
        else
          (cur, some ("create schedule \"" ++ scheduleID r.workspaceID r.id ++ "\": "
            ++ createErr))
  | _, _ => pause sdk r.workspaceID r.id faults.pause cur

end

/-! ## Ids -/

theorem scheduleID_toList (w : WorkspaceID) (id : String) :
    (scheduleID w id).toList = "routine@".toList ++ (w.val.toList ++ '@' :: id.toList) := by
  simp [scheduleID, String.toList_append]

/-- A schedule id determines its routine: workspace ids contain no `@`. -/
theorem scheduleID_inj {w w' : WorkspaceID} {id id' : String}
    (h : scheduleID w id = scheduleID w' id') : w = w' ∧ id = id' := by
  have h' := congrArg String.toList h
  rw [scheduleID_toList, scheduleID_toList, List.append_right_inj] at h'
  obtain ⟨hw, hid⟩ := Lib.append_sep_inj w.noAt w'.noAt h'
  exact ⟨WorkspaceID.ext' (String.toList_inj.mp hw), String.toList_inj.mp hid⟩

/-- No call on one schedule touches another. -/
theorem onSchedule_other {s : Schedules} {sid k : String} {call : Option Schedule → Answer}
    (hk : k ≠ sid) : (onSchedule s sid call).1 k = s k :=
  Function.update_of_ne hk _ _

@[simp] theorem onSchedule_self (s : Schedules) (sid : String)
    (call : Option Schedule → Answer) : (onSchedule s sid call).1 sid = (call (s sid)).1 :=
  Function.update_self _ _ _

/-! ## What an upsert leaves -/

/-- The cron expression the routine is to run on, if it is to run. -/
def Routine.active (r : Routine) : Option String :=
  if r.enabled then r.scheduleCron else none

theorem Routine.active_eq_some {r : Routine} {cron : String} :
    r.active = some cron ↔ r.enabled = true ∧ r.scheduleCron = some cron := by
  simp [Routine.active]

section
variable (sdk : SdkErrors) {r : Routine} {cron : String}

theorem upsert_inactive (h : r.active = none) (faults : UpsertFaults)
    (cur : Option Schedule) :
    upsert sdk r faults cur = pause sdk r.workspaceID r.id faults.pause cur := by
  unfold upsert
  cases hcron : r.scheduleCron with
  | none => rfl
  | some cron =>
    cases hen : r.enabled with
    | false => rfl
    | true => cases h.symm.trans (Routine.active_eq_some.2 ⟨hen, hcron⟩)

/-- The ways the upsert of an active routine ends: the first update, the
creation, the retried update, or a failure that changes nothing. -/
theorem upsert_active (h : r.active = some cron) (faults : UpsertFaults)
    (cur : Option Schedule) :
    (∃ sch, cur = some sch ∧ faults.update = none
        ∧ upsert sdk r faults cur = (some (firstUpdate r cron sch), none))
      ∨ (cur = none ∧ faults.create = none
        ∧ upsert sdk r faults cur = (some (scheduleOpts r cron), none))
      ∨ (∃ sch, cur = some sch ∧ faults.update ≠ none
        ∧ upsert sdk r faults cur = (some (retryUpdate r cron sch), none))
      ∨ ((cur ≠ none → faults.update ≠ none) ∧ (cur = none → faults.create ≠ none)
        ∧ ∃ err, upsert sdk r faults cur = (cur, some err)) := by
  obtain ⟨hen, hcron⟩ := Routine.active_eq_some.1 h
  unfold upsert
  simp only [hen, hcron]
  cases cur with
  | some sch =>
    cases hu : faults.update with
    | none => exact Or.inl ⟨sch, rfl, rfl, rfl⟩
    | some updateErr =>
      obtain ⟨createErr, hc⟩ : ∃ err, createSchedule sdk (scheduleOpts r cron) faults.create
          (some sch) = (some sch, some err) := by
        cases faults.create with
        | none => exact ⟨_, rfl⟩
        | some err => exact ⟨err, rfl⟩
      simp only [handleUpdate, hc]
      split
      · cases faults.retry with
        | none => exact Or.inr (Or.inr (Or.inl ⟨sch, rfl, by simp, rfl⟩))
        | some err => exact Or.inr (Or.inr (Or.inr ⟨by simp, by simp, err, rfl⟩))
      · exact Or.inr (Or.inr (Or.inr ⟨by simp, by simp, _, rfl⟩))
  | none =>
    -- the first update cannot succeed, the schedule being absent
    obtain ⟨updateErr, hu⟩ : ∃ err, handleUpdate sdk (firstUpdate r cron) faults.update none
        = (none, some err) := by
      cases faults.update with
      | none => exact ⟨_, rfl⟩
      | some err => exact ⟨err, rfl⟩
    simp only [hu]
    cases hc : faults.create with
    | none => exact Or.inr (Or.inl ⟨trivial, rfl, rfl⟩)
    | some createErr =>
      refine Or.inr (Or.inr (Or.inr ⟨by simp, by simp, ?_⟩))
      simp only [createSchedule]
      split
      · cases faults.retry with
        | none => exact ⟨_, rfl⟩
        | some err => exact ⟨err, rfl⟩
      · exact ⟨_, rfl⟩

/-- A served deletion removes the schedule, a refused one leaves it. -/
theorem deleteSchedule_fst (w : WorkspaceID) (id : String) (fault : Fault)
    (cur : Option Schedule) :
    (deleteSchedule sdk w id fault cur).1 = if fault = none then none else cur := by
  unfold deleteSchedule handleDelete
  cases fault with
  | some err => rfl
  | none => cases cur <;> rfl

/-- A pause pauses, or leaves the schedule as it is. -/
theorem pause_cases (w : WorkspaceID) (id : String) (fault : Fault)
    (cur : Option Schedule) :
    (∃ sch, cur = some sch ∧ (pause sdk w id fault cur).1
        = some { sch with paused := true, note := "routine disabled" })
      ∨ (cur = none ∨ fault ≠ none) ∧ (pause sdk w id fault cur).1 = cur := by
  unfold pause handlePause
  cases fault with
  | some err =>
    refine Or.inr ⟨Or.inr (by simp), ?_⟩
    simp only [handleUpdate]
    split <;> rfl
  | none =>
    cases cur with
    | some sch => exact Or.inl ⟨sch, rfl, rfl⟩
    | none =>
      refine Or.inr ⟨Or.inl rfl, ?_⟩
      simp only [handleUpdate]
      split <;> rfl

end

end LendingClaw.Routines
