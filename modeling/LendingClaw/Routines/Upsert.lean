/-
LendingClaw.Routines.Upsert — the postcondition of `Schedule.Upsert`
(`internal/services/temporal/schedule.go`), on all that the server keeps
of a schedule.

`Routines.Schedule` has the calls as the recovery of schedules sees them:
one party, and a refused call changes nothing. Here a call can also fail
after the server has carried it out, and somebody else can create the
schedule after the first update has failed; `scheduleUpsert_view` says
that the rest is the same. `upsert_post_iff` is the postcondition.
-/
import LendingClaw.Routines.Schedule

namespace LendingClaw.Routines

open LendingClaw.Store

/-! ## What the server keeps -/

/-- `enums.ScheduleOverlapPolicy`. -/
inductive OverlapPolicy where
  | unspecified
  | skip
  | bufferOne
  | bufferAll
  | cancelOther
  | terminateOther
  | allowAll
  deriving DecidableEq

/-- `ScheduleSpec`; `rest` is its other fields (calendars, intervals, skipped
times, bounds, jitter), and the default of `κ` their zero values. -/
structure ScheduleSpec (κ : Type) where
  cronExpressions : List String
  timeZoneName : String
  rest : κ

/-- `SchedulePolicies`, the window in milliseconds. -/
structure SchedulePolicies where
  overlap : OverlapPolicy := .unspecified
  catchupWindow : Nat := 0
  pauseOnFailure : Bool := false

/-- `ScheduleState`. -/
structure ScheduleState where
  note : String := ""
  paused : Bool := false
  limitedActions : Bool := false
  remainingActions : Nat := 0

/-- `Description.Schedule`. -/
structure DescribedSchedule (κ : Type) where
  action : ScheduleAction
  spec : ScheduleSpec κ
  policy : Option SchedulePolicies
  state : ScheduleState

/-- `1 * time.Minute`. -/
def minute : Nat := 60000

/-- What the recovery of schedules sees of it. -/
def DescribedSchedule.view {κ : Type} (sch : DescribedSchedule κ) : Schedule :=
  { cronExpressions := sch.spec.cronExpressions
    timeZoneName := sch.spec.timeZoneName
    action := sch.action
    overlapSkip := sch.policy.map (fun policy => policy.overlap = .skip)
    catchupMinutes := sch.policy.map (fun policy => policy.catchupWindow / minute)
    paused := sch.state.paused
    note := sch.state.note }

/-! ## The client calls -/

/-- The error of a call, and whether the server has carried it out. -/
structure Trouble where
  err : String
  carriedOut : Bool

section
variable {κ : Type} (sdk : SdkErrors)

/-- `ScheduleHandle.Update`. -/
def callUpdate (doUpdate : DescribedSchedule κ → DescribedSchedule κ) (trouble : Option Trouble)
    (cur : Option (DescribedSchedule κ)) : Option (DescribedSchedule κ) × Option String :=
  match trouble, cur with
  | some t, _ => (if t.carriedOut then cur.map doUpdate else cur, some t.err)
  | none, none => (none, some sdk.notFound)
  | none, some sch => (some (doUpdate sch), none)

/-- `ScheduleClient.Create`. -/
def callCreate (sch : DescribedSchedule κ) (trouble : Option Trouble)
    (cur : Option (DescribedSchedule κ)) : Option (DescribedSchedule κ) × Option String :=
  match trouble, cur with
  | some t, _ => (if t.carriedOut then cur.or (some sch) else cur, some t.err)
  | none, some _ => (cur, some sdk.alreadyExists)
  | none, none => (some sch, none)

/-- `ScheduleHandle.Pause`. -/
def callPause (note : String) (trouble : Option Trouble) (cur : Option (DescribedSchedule κ)) :
    Option (DescribedSchedule κ) × Option String :=
  callUpdate sdk (fun sch => { sch with state := { sch.state with paused := true, note := note } })
    trouble cur

/-! ## Schedule -/

/-- The texts that `Pause` takes for a missing schedule. -/
def saysNotFound (err : String) : Bool :=
  Lib.containsSub err "not found" || Lib.containsSub err "NotFound"

/-- The texts that `Upsert` takes for an existing one. -/
def saysAlreadyExists (err : String) : Bool :=
  Lib.containsSub err "already exists" || Lib.containsSub err "AlreadyExists"

/-- `Schedule.Pause`. -/
def schedulePause (wsID : WorkspaceID) (routineID : String) (trouble : Option Trouble)
    (cur : Option (DescribedSchedule κ)) : Option (DescribedSchedule κ) × Option String :=
  match callPause sdk "routine disabled" trouble cur with
  | (cur, none) => (cur, none)
  | (cur, some err) =>
    if saysNotFound err then (cur, none)
    else (cur, some ("pause schedule \"" ++ scheduleID wsID routineID ++ "\": " ++ err))

variable [Inhabited κ]

/-- The spec of all three calls of `Upsert`. -/
def cronSpec (r : Routine) (cron : String) : ScheduleSpec κ :=
  { cronExpressions := [cron], timeZoneName := r.scheduleTZ, rest := default }

/-- `scheduleOpts`. -/
def createOptions (r : Routine) (cron : String) : DescribedSchedule κ :=
  { action := scheduleAction r
    spec := cronSpec r cron
    policy := some { overlap := .skip, catchupWindow := 1 * minute }
    state := { paused := !r.enabled } }

/-- `DoUpdate` of the first update. -/
def doUpdate (r : Routine) (cron : String) (sch : DescribedSchedule κ) : DescribedSchedule κ :=
  let policies := sch.policy.getD {}
  { action := scheduleAction r
    spec := cronSpec r cron
    policy := some { policies with overlap := .skip, catchupWindow := 1 * minute }
    state := if r.enabled then { note := "", paused := false } else sch.state }

/-- `DoUpdate` of the update after "already exists". -/
def doRetry (r : Routine) (cron : String) (sch : DescribedSchedule κ) : DescribedSchedule κ :=
  { sch with action := scheduleAction r, spec := cronSpec r cron }

/-- What one `Upsert` meets: the troubles of its calls, and the schedule
that somebody else creates after its first update. -/
structure UpsertMeets (κ : Type) where
  update : Option Trouble := none
  created : Option (DescribedSchedule κ) := none
  create : Option Trouble := none
  retry : Option Trouble := none
  pause : Option Trouble := none

/-- `Upsert` after its first update has failed. -/
def createOrRetry (r : Routine) (cron : String) (meets : UpsertMeets κ)
    (cur : Option (DescribedSchedule κ)) : Option (DescribedSchedule κ) × Option String :=
  match callCreate sdk (createOptions r cron) meets.create cur with
  | (cur, none) => (cur, none)
  | (cur, some createErr) =>
    if saysAlreadyExists createErr then callUpdate sdk (doRetry r cron) meets.retry cur
    else
      (cur, some ("create schedule \"" ++ scheduleID r.workspaceID r.id ++ "\": " ++ createErr))

/-- `Schedule.Upsert`. -/
def scheduleUpsert (r : Routine) (meets : UpsertMeets κ) (cur : Option (DescribedSchedule κ)) :
    Option (DescribedSchedule κ) × Option String :=
  match r.scheduleCron, r.enabled with
  | some cron, true =>
    match callUpdate sdk (doUpdate r cron) meets.update cur with
    | (cur, none) => (cur, none)
    | (cur, some _) => createOrRetry sdk r cron meets (cur.or meets.created)
  | _, _ => schedulePause sdk r.workspaceID r.id meets.pause cur

end

/-! ## Without interference -/

/-- Calls that are refused change nothing, and nobody else is there. -/
def UpsertFaults.meets {κ : Type} (faults : UpsertFaults) : UpsertMeets κ :=
  let refused (fault : Fault) : Option Trouble :=
    fault.map (fun err => { err := err, carriedOut := false })
  { update := refused faults.update
    create := refused faults.create
    retry := refused faults.retry
    pause := refused faults.pause }

section
variable {κ : Type} (sdk : SdkErrors)

/-- The answer of a call, as the recovery of schedules sees it. -/
def viewAnswer (answer : Option (DescribedSchedule κ) × Option String) : Answer :=
  (answer.1.map DescribedSchedule.view, answer.2)

theorem callUpdate_view {f : DescribedSchedule κ → DescribedSchedule κ} {g : Schedule → Schedule}
    (hview : ∀ sch, (f sch).view = g sch.view) (fault : Fault) (cur : Option (DescribedSchedule κ)) :
    viewAnswer (callUpdate sdk f (fault.map (fun err => ⟨err, false⟩)) cur)
      = handleUpdate sdk g fault (cur.map DescribedSchedule.view) := by
  cases fault with
  | some err => rfl
  | none =>
    cases cur with
    | none => rfl
    | some sch => simp [viewAnswer, callUpdate, handleUpdate, hview]

theorem callCreate_view {new : DescribedSchedule κ} {opts : Schedule} (hview : new.view = opts)
    (fault : Fault) (cur : Option (DescribedSchedule κ)) :
    viewAnswer (callCreate sdk new (fault.map (fun err => ⟨err, false⟩)) cur)
      = createSchedule sdk opts fault (cur.map DescribedSchedule.view) := by
  subst hview
  cases fault with
  | some err => rfl
  | none => cases cur <;> rfl

theorem schedulePause_view (w : WorkspaceID) (id : String) (fault : Fault)
    (cur : Option (DescribedSchedule κ)) :
    viewAnswer (schedulePause sdk w id (fault.map (fun err => ⟨err, false⟩)) cur)
      = pause sdk w id fault (cur.map DescribedSchedule.view) := by
  have hcall := callUpdate_view sdk
    (f := fun sch => { sch with state := { sch.state with paused := true, note := "routine disabled" } })
    (g := fun sch => { sch with paused := true, note := "routine disabled" })
    (fun sch => rfl) fault cur
  unfold pause schedulePause handlePause callPause
  rw [← hcall]
  obtain ⟨left, err⟩ := callUpdate sdk _ _ cur
  cases err with
  | none => rfl
  | some err =>
    cases hfound : (Lib.containsSub err "not found" || Lib.containsSub err "NotFound") <;>
      simp [viewAnswer, saysNotFound, hfound]

variable [Inhabited κ]

theorem doUpdate_view (r : Routine) (cron : String) (sch : DescribedSchedule κ) :
    (doUpdate r cron sch).view = firstUpdate r cron sch.view := by
  cases hen : r.enabled <;> simp [doUpdate, firstUpdate, DescribedSchedule.view, cronSpec, hen, minute]

theorem doRetry_view (r : Routine) (cron : String) (sch : DescribedSchedule κ) :
    (doRetry r cron sch).view = retryUpdate r cron sch.view :=
  rfl

theorem createOptions_view (r : Routine) (cron : String) :
    (createOptions r cron : DescribedSchedule κ).view = scheduleOpts r cron := by
  simp [createOptions, scheduleOpts, DescribedSchedule.view, cronSpec, minute]

theorem createOrRetry_view (r : Routine) (cron : String) (faults : UpsertFaults)
    (cur : Option (DescribedSchedule κ)) :
    viewAnswer (createOrRetry sdk r cron faults.meets cur)
      = match createSchedule sdk (scheduleOpts r cron) faults.create (cur.map DescribedSchedule.view) with
        | (cur, none) => (cur, none)
        | (cur, some createErr) =>
          if Lib.containsSub createErr "already exists"
              || Lib.containsSub createErr "AlreadyExists" then
            handleUpdate sdk (retryUpdate r cron) faults.retry cur
          else
            (cur, some ("create schedule \"" ++ scheduleID r.workspaceID r.id ++ "\": "
              ++ createErr)) := by
  rw [← callCreate_view sdk (createOptions_view r cron) faults.create cur]
  unfold createOrRetry
  simp only [UpsertFaults.meets]
  obtain ⟨left, err⟩ := callCreate sdk (createOptions r cron) _ cur
  cases err with
  | none => rfl
  | some err =>
    dsimp only
    rw [saysAlreadyExists]
    split
    · have hretry := callUpdate_view sdk (doRetry_view r cron) faults.retry left
      simpa [viewAnswer, *] using hretry
    · simp [viewAnswer, *]

/-- Where every refused call changes nothing and nobody else is there,
`scheduleUpsert` is `upsert`. -/
theorem scheduleUpsert_view (r : Routine) (faults : UpsertFaults)
    (cur : Option (DescribedSchedule κ)) :
    viewAnswer (scheduleUpsert sdk r faults.meets cur)
      = upsert sdk r faults (cur.map DescribedSchedule.view) := by
  unfold scheduleUpsert upsert
  cases r.scheduleCron with
  | none => exact schedulePause_view sdk _ _ faults.pause cur
  | some cron =>
    cases r.enabled with
    | false => exact schedulePause_view sdk _ _ faults.pause cur
    | true =>
      dsimp only
      rw [← callUpdate_view sdk (doUpdate_view r cron) faults.update cur]
      simp only [UpsertFaults.meets]
      obtain ⟨left, err⟩ := callUpdate sdk (doUpdate r cron) _ cur
      cases err with
      | none => rfl
      | some err =>
        dsimp only
        rw [Option.or_none]
        exact createOrRetry_view sdk r cron faults left

end

/-! ## The postcondition -/

section
variable {κ : Type} [Inhabited κ]

/-- Unpaused, with the policy of a routine. -/
def Kept (sch : DescribedSchedule κ) : Prop :=
  sch.state.paused = false
    ∧ ∃ policy, sch.policy = some policy ∧ policy.overlap = .skip
      ∧ policy.catchupWindow = 1 * minute

/-- The schedule of a routine that is to run, and of one that is not. -/
def Post (r : Routine) (cur : Option (DescribedSchedule κ)) : Prop :=
  match r.active with
  | some cron =>
    ∃ sch, cur = some sch ∧ sch.action = scheduleAction r ∧ sch.spec = cronSpec r cron ∧ Kept sch
  | none => ∀ sch, cur = some sch → sch.state.paused = true

/-- An upsert that returns nil leaves what it is for. -/
def UpsertPost (sdk : SdkErrors) (r : Routine) (meets : UpsertMeets κ)
    (cur : Option (DescribedSchedule κ)) : Prop :=
  (scheduleUpsert sdk r meets cur).2 = none → Post r (scheduleUpsert sdk r meets cur).1

/-- The server has not carried out the first update. -/
def Missed (trouble : Option Trouble) (cur : Option (DescribedSchedule κ)) : Prop :=
  cur = none ∨ ∃ t, trouble = some t ∧ t.carriedOut = false

/-- The error of a creation, where there is a schedule. -/
def createError (sdk : SdkErrors) (trouble : Option Trouble) : String :=
  (trouble.map Trouble.err).getD sdk.alreadyExists

/-- The retried update meets a schedule that is already as it should be. -/
def RetryFits (sdk : SdkErrors) (meets : UpsertMeets κ) (cur : Option (DescribedSchedule κ)) : Prop :=
  ∀ sch, cur.or meets.created = some sch → Missed meets.update cur →
    saysAlreadyExists (createError sdk meets.create) = true → meets.retry = none → Kept sch

/-- A pause that seems to have met no schedule has met none that runs. -/
def PauseFits (meets : UpsertMeets κ) (cur : Option (DescribedSchedule κ)) : Prop :=
  ∀ sch, cur = some sch → ∀ t, meets.pause = some t → t.carriedOut = false →
    saysNotFound t.err = true → sch.state.paused = true

theorem kept_doUpdate {r : Routine} (hen : r.enabled = true) (cron : String)
    (sch : DescribedSchedule κ) : Kept (doUpdate r cron sch) :=
  ⟨by simp [doUpdate, hen], _, rfl, rfl, rfl⟩

theorem kept_createOptions {r : Routine} (hen : r.enabled = true) (cron : String) :
    Kept (createOptions r cron : DescribedSchedule κ) :=
  ⟨by simp [createOptions, hen], _, rfl, rfl, rfl⟩

section
variable {sdk : SdkErrors} {r : Routine} {cron : String} {meets : UpsertMeets κ}
  {cur : Option (DescribedSchedule κ)}

theorem post_iff (h : r.active = some cron) {sch : DescribedSchedule κ}
    (haction : sch.action = scheduleAction r) (hspec : sch.spec = cronSpec r cron) :
    Post r (some sch) ↔ Kept sch := by
  simp [Post, h, haction, hspec]

theorem post_doRetry_iff (h : r.active = some cron) (sch : DescribedSchedule κ) :
    Post r (some (doRetry r cron sch)) ↔ Kept sch :=
  post_iff h rfl rfl

/-- After the first update has failed, the schedule that is there decides. -/
theorem createOrRetry_post_iff (h : r.active = some cron) :
    ((createOrRetry sdk r cron meets cur).2 = none → Post r (createOrRetry sdk r cron meets cur).1)
      ↔ ∀ sch, cur = some sch → saysAlreadyExists (createError sdk meets.create) = true →
          meets.retry = none → Kept sch := by
  have hnew : Post r (some (createOptions r cron : DescribedSchedule κ)) :=
    (post_iff h rfl rfl).2 (kept_createOptions (Routine.active_eq_some.1 h).1 cron)
  unfold createOrRetry createError
  cases cur with
  | some sch =>
    have hcreate : callCreate sdk (createOptions r cron) meets.create (some sch)
        = (some sch, some ((meets.create.map Trouble.err).getD sdk.alreadyExists)) := by
      cases meets.create with
      | none => rfl
      | some t => simp [callCreate]
    rw [hcreate]
    dsimp only
    split
    · cases meets.retry with
      | none => simp [callUpdate, post_doRetry_iff h, *]
      | some t => simp [callUpdate]
    · simp [*]
  | none =>
    cases meets.create with
    | none => simp [callCreate, hnew]
    | some t =>
      simp only [callCreate, Option.none_or]
      cases t.carriedOut
      · -- no schedule is there for the retried update
        cases saysAlreadyExists t.err <;> cases meets.retry <;> simp [callUpdate]
      · have hretried := (post_doRetry_iff h _).2
          (kept_createOptions (κ := κ) (Routine.active_eq_some.1 h).1 cron)
        cases saysAlreadyExists t.err <;> cases meets.retry <;> simp [callUpdate, hretried]

/-- Of a routine that is to run. -/
theorem post_active_iff (h : r.active = some cron) :
    UpsertPost sdk r meets cur ↔ RetryFits sdk meets cur := by
  obtain ⟨hen, hcron⟩ := Routine.active_eq_some.1 h
  have hupdated : ∀ sch : DescribedSchedule κ, Post r (some (doUpdate r cron sch)) := by
    intro sch
    exact (post_iff h rfl rfl).2 (kept_doUpdate hen cron sch)
  unfold UpsertPost RetryFits
  simp only [scheduleUpsert, hen, hcron]
  cases cur with
  | none =>
    have hfails : ∃ err, callUpdate sdk (doUpdate (κ := κ) r cron) meets.update none
        = (none, some err) := by
      cases meets.update with
      | none => exact ⟨_, rfl⟩
      | some t => exact ⟨t.err, by simp [callUpdate]⟩
    obtain ⟨err, hfails⟩ := hfails
    simp [hfails, createOrRetry_post_iff h, Missed]
  | some sch =>
    cases hupdate : meets.update with
    | none => simp [callUpdate, hupdated, Missed]
    | some t =>
      cases hdone : t.carriedOut with
      | false => simp [callUpdate, createOrRetry_post_iff h, Missed, hdone]
      | true => simp [callUpdate, createOrRetry_post_iff h, Missed, hdone, kept_doUpdate hen]

/-- Of a routine that is not to run. -/
theorem post_inactive_iff (h : r.active = none) :
    UpsertPost sdk r meets cur ↔ PauseFits meets cur := by
  have hpost : ∀ left : Option (DescribedSchedule κ),
      Post r left ↔ ∀ sch, left = some sch → sch.state.paused = true := by
    intro left
    simp [Post, h]
  have hupsert : scheduleUpsert sdk r meets cur
      = schedulePause sdk r.workspaceID r.id meets.pause cur := by
    unfold scheduleUpsert
    cases hcron : r.scheduleCron with
    | none => rfl
    | some cron =>
      cases hen : r.enabled with
      | false => rfl
      | true => cases h.symm.trans (Routine.active_eq_some.2 ⟨hen, hcron⟩)
  rw [UpsertPost, hupsert, hpost]
  unfold schedulePause callPause PauseFits
  cases cur with
  | none =>
    cases meets.pause with
    | none => cases hsays : saysNotFound sdk.notFound <;> simp [callUpdate, hsays]
    | some t => cases hsays : saysNotFound t.err <;> simp [callUpdate, hsays]
  | some sch =>
    cases meets.pause with
    | none => simp [callUpdate]
    | some t =>
      cases hdone : t.carriedOut <;> cases hsays : saysNotFound t.err <;>
        simp [callUpdate, hdone, hsays]

end

/-- The postcondition of an upsert holds exactly where a retried update
meets a schedule that is as it should be, and a pause whose error says
"not found" has met no running schedule. -/
theorem upsert_post_iff (sdk : SdkErrors) (r : Routine) (meets : UpsertMeets κ)
    (cur : Option (DescribedSchedule κ)) :
    UpsertPost sdk r meets cur
      ↔ if r.active.isSome then RetryFits sdk meets cur else PauseFits meets cur := by
  cases hactive : r.active with
  | none => exact post_inactive_iff hactive
  | some cron => exact post_active_iff hactive

end

/-! ### Half an update -/

/-- A schedule of the hourly routine. -/
def hourlySchedule (policy : Option SchedulePolicies) (paused : Bool) : DescribedSchedule Unit :=
  { action := scheduleAction hourlyRoutine
    spec := cronSpec hourlyRoutine "0 * * * *"
    policy := policy
    state := { paused := paused } }

def routinePolicy : SchedulePolicies := { overlap := .skip, catchupWindow := 1 * minute }

def temporalErrors : SdkErrors :=
  { notFound := "schedule not found", alreadyExists := "schedule already exists" }

/-- Three upserts that return nil: a routine is turned on and its first
update does not reach the server, somebody else creates the schedule in
between, and a routine is turned off while its namespace is not found. -/
theorem upsert_leaves_fields :
    ¬ UpsertPost temporalErrors hourlyRoutine
        { update := some { err := "Unavailable: connection refused", carriedOut := false } }
        (some (hourlySchedule (some routinePolicy) true))
      ∧ ¬ UpsertPost temporalErrors hourlyRoutine
        { created := some (hourlySchedule none false) } none
      ∧ ¬ UpsertPost temporalErrors { hourlyRoutine with enabled := false }
        { pause := some { err := "Namespace lending is not found.", carriedOut := false } }
        (some (hourlySchedule (some routinePolicy) false)) := by
  refine ⟨fun h => ?_, fun h => ?_, fun h => ?_⟩
  · have hfits := (post_active_iff (show hourlyRoutine.active = some "0 * * * *" from rfl)).1 h
    obtain ⟨hpaused, -⟩ := hfits _ rfl (.inr ⟨_, rfl, rfl⟩) (by decide) rfl
    cases hpaused
  · have hfits := (post_active_iff (show hourlyRoutine.active = some "0 * * * *" from rfl)).1 h
    obtain ⟨-, policy, hpolicy, -⟩ := hfits _ rfl (.inl rfl) (by decide) rfl
    cases hpolicy
  · have hfits := (post_inactive_iff rfl).1 h
    have hpaused := hfits _ rfl _ rfl rfl (by decide)
    cases hpaused

end LendingClaw.Routines
