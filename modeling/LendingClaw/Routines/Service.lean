/-
LendingClaw.Routines.Service — the routines service
(`internal/services/routines/service.go`).

Every operation takes the state, its arguments and the faults of the
external calls it may make, and returns the new state and the answer of
the source. The cron library, the random token bytes and SHA-256 are
parameters (`Config`); a nil `sched` is `scheduled := false`.
-/
import LendingClaw.Routines.Schedule
import Mathlib.Logic.Equiv.Basic

namespace LendingClaw.Routines

open LendingClaw.Store

/-- The cron library: `Parse`, and `Next` with `none` for the zero time.
Times are nanoseconds. -/
structure CronLib (σ : Type) where
  parse : String → Except String σ
  next : σ → Int → Option Int

structure Config (σ : Type) where
  cron : CronLib σ
  sdk : SdkErrors
  scheduled : Bool
  /-- The driver's text for a duplicate primary key. -/
  duplicateEntry : String
  /-- The hex string of the n-th `rand.Read`. -/
  rand : Nat → String
  /-- SHA-256 in hex. -/
  sha256 : String → String

structure State where
  routines : RoutineTable
  schedules : Schedules
  draws : Nat

def initialState : State := { routines := Lib.Table.empty, schedules := fun _ => none, draws := 0 }

/-- `time.Hour`. -/
def hour : Int := 3600000000000

/-- `normalizeCron`. -/
def normalizeCron (r : Routine) : Routine :=
  { r with
    scheduleCron := r.scheduleCron.filter (fun c => Lib.trimSpace c != "") }

/-- `Service.validate` at time `now`. -/
def validate {σ : Type} (cron : CronLib σ) (now : Int) (r : Routine) : Option String :=
  if Lib.trimSpace r.name = "" then some "name is required"
  else if Lib.trimSpace r.prompt = "" then some "prompt is required"
  else
    match r.scheduleCron.filter (· != "") with
    | none => none
    | some c =>
      match cron.parse c with
      | .error err => some ("invalid cron expression: " ++ err)
      | .ok sched =>
        match cron.next sched now with
        | none => some "cron expression never fires"
        | some t1 =>
          -- a zero second time is before `t1`, so its distance is below the hour
          match cron.next sched t1 with
          | none => some "cron interval must be at least 1 hour"
          | some t2 =>
            if t2 - t1 < hour then some "cron interval must be at least 1 hour" else none

/-- The faults of one `Create` or `Update`: the read, the first write, the
calls of the upsert, and the write of `temporal_schedule_id`. -/
structure EditFaults where
  read : Fault := none
  write : Fault := none
  upsert : UpsertFaults := {}
  mark : Fault := none

section
variable {σ : Type} (cfg : Config σ)

/-- The end of `Create` and `Update`: the upsert, whose failure is only
logged, and after a success the write of the schedule's id. -/
def register (st : State) (wsID : WorkspaceID) (r : Routine) (faults : EditFaults) :
    State × Routine :=
  if cfg.scheduled then
    match onSchedule st.schedules (scheduleID r.workspaceID r.id)
      (upsert cfg.sdk r faults.upsert) with
    | (schedules, some _) => ({ st with schedules := schedules }, r)
    | (schedules, none) =>
      let r := { r with temporalScheduleID := some (scheduleID wsID r.id) }
      match faults.mark with
      | some _ => ({ st with schedules := schedules }, r)
      | none =>
        ({ st with schedules := schedules, routines := st.routines.update wsID r }, r)
  else (st, r)

/-- `Service.Create`. -/
def create (st : State) (now : Int) (newUUID : String) (wsID : WorkspaceID) (r : Routine)
    (faults : EditFaults) : State × Except String Routine :=
  let r := normalizeCron r
  match validate cfg.cron now r with
  | some err => (st, .error err)
  | none =>
    let r := withDefaults newUUID { r with workspaceID := wsID }
    match faults.write with
    | some err => (st, .error ("create routine: create routine: " ++ err))
    | none =>
      match st.routines.create newUUID wsID r with
      | none => (st, .error ("create routine: create routine: " ++ cfg.duplicateEntry))
      | some (routines, r) =>
        let (st, r) := register cfg { st with routines := routines } wsID r faults
        (st, .ok r)

/-- `Service.Update`. -/
def update (st : State) (now : Int) (wsID : WorkspaceID) (r : Routine)
    (faults : EditFaults) : State × Except String Routine :=
  match faults.read with
  | some err => (st, .error ("get routine \"" ++ r.id ++ "\": " ++ err))
  | none =>
    match st.routines.get wsID r.id with
    | .error err => (st, .error err)
    | .ok existing =>
      let r := normalizeCron r
      match validate cfg.cron now r with
      | some err => (st, .error err)
      | none =>
        let r :=
          { r with
            workspaceID := wsID
            fireTokenHash := existing.fireTokenHash
            hasFireToken := existing.hasFireToken
            temporalScheduleID := existing.temporalScheduleID }
        match faults.write with
        | some err => (st, .error ("update routine: update routine: " ++ err))
        | none =>
          let (st, r) :=
            register cfg { st with routines := st.routines.update wsID r } wsID r faults
          (st, .ok r)

/-- `Service.Delete`. The schedule goes first, and a failure there is
only logged. -/
def delete (st : State) (wsID : WorkspaceID) (id : String) (remove write : Fault) :
    State × Option String :=
  let st :=
    if cfg.scheduled then
      { st with
        schedules := (onSchedule st.schedules (scheduleID wsID id)
          (deleteSchedule cfg.sdk wsID id remove)).1 }
    else st
  match write with
  | some err => (st, some ("delete routine: delete routine: " ++ err))
  | none => ({ st with routines := st.routines.delete wsID id }, none)

/-- `tokenHash`. -/
def tokenHash (s : String) : String := cfg.sha256 s

/-- `Service.GenerateFireToken`; `RotateFireToken` is the same function. -/
def generateFireToken (st : State) (wsID : WorkspaceID) (id : String)
    (read random write : Fault) : State × Except String String :=
  match read with
  | some err => (st, .error ("get routine \"" ++ id ++ "\": " ++ err))
  | none =>
    match st.routines.get wsID id with
    | .error err => (st, .error err)
    | .ok r =>
      match random with
      | some err => (st, .error ("generate token: " ++ err))
      | none =>
        let plain := cfg.rand st.draws
        let st := { st with draws := st.draws + 1 }
        let r := { r with fireTokenHash := some (tokenHash cfg plain), hasFireToken := true }
        match write with
        | some err => (st, .error ("store token hash: update routine: " ++ err))
        | none => ({ st with routines := st.routines.update wsID r }, .ok plain)

/-- `Service.RevokeFireToken`. -/
def revokeFireToken (st : State) (wsID : WorkspaceID) (id : String) (read write : Fault) :
    State × Option String :=
  match read with
  | some err => (st, some ("get routine \"" ++ id ++ "\": " ++ err))
  | none =>
    match st.routines.get wsID id with
    | .error err => (st, some err)
    | .ok r =>
      let r := { r with fireTokenHash := none, hasFireToken := false }
      match write with
      | some err => (st, some ("update routine: " ++ err))
      | none => ({ st with routines := st.routines.update wsID r }, none)

/-- `Service.VerifyFireToken`. -/
def verifyFireToken (st : State) (wsID : WorkspaceID) (id tokenPlain : String) :
    Option String :=
  match st.routines.getByFireToken (tokenHash cfg tokenPlain) with
  | none => some "invalid fire token"
  | some r =>
    if r.workspaceID ≠ wsID then some "cross-workspace token rejected"
    else if r.id ≠ id then some "cross-routine token rejected"
    else none

/-- The faults of one `SyncSchedules`: of the scan, and by routine of the
upsert and of the write that follows it. -/
structure SyncFaults where
  list : Fault := none
  upsert : String → UpsertFaults := fun _ => {}
  mark : String → Fault := fun _ => none

/-- The loop of `SyncSchedules` over the scanned routines; the list is
`errs`. -/
def syncLoop (faults : SyncFaults) : State → List Routine → State × List String
  | st, [] => (st, [])
  | st, r :: rs =>
    match onSchedule st.schedules (scheduleID r.workspaceID r.id)
      (upsert cfg.sdk r (faults.upsert r.id)) with
    | (schedules, some err) =>
      let (st, errs) := syncLoop faults { st with schedules := schedules } rs
      (st, ("routine " ++ r.id ++ ": " ++ err) :: errs)
    | (schedules, none) =>
      let r := { r with temporalScheduleID := some (scheduleID r.workspaceID r.id) }
      match faults.mark r.id with
      | some _ => syncLoop faults { st with schedules := schedules } rs
      | none =>
        syncLoop faults
          { st with schedules := schedules, routines := st.routines.update r.workspaceID r } rs

/-- `Service.SyncSchedules`. -/
def syncSchedules (st : State) (faults : SyncFaults) : State × Option String :=
  if !cfg.scheduled then (st, none)
  else
    match faults.list with
    | some err =>
      (st, some ("list unscheduled routines: list unscheduled routines: " ++ err))
    | none =>
      let (st, errs) := syncLoop cfg faults st st.routines.listUnscheduled
      if errs = [] then (st, none)
      else
        (st, some ("schedule sync completed with " ++ toString errs.length ++ " error(s): "
          ++ "; ".intercalate errs))

/-! ## One operation -/

/-- The body `RoutinesHandler.Create` decodes. -/
structure RoutineBody where
  name : String
  prompt : String
  sessionPrefix : String := ""
  enabled : Option Bool := none
  scheduleCron : Option String := none
  scheduleTZ : String := ""

/-- The routine it passes to the service. -/
def routineOfBody (wsID : WorkspaceID) (b : RoutineBody) : Routine :=
  { id := ""
    workspaceID := wsID
    name := b.name
    prompt := b.prompt
    sessionPrefix := b.sessionPrefix
    enabled := b.enabled.getD true
    scheduleCron := b.scheduleCron
    scheduleTZ := b.scheduleTZ
    temporalScheduleID := none
    fireTokenHash := none
    hasFireToken := false
    createdBy := none }

/-- One call of the service. -/
inductive Op where
  | create (now : Int) (newUUID : String) (wsID : WorkspaceID) (body : RoutineBody)
      (faults : EditFaults)
  | update (now : Int) (wsID : WorkspaceID) (r : Routine) (faults : EditFaults)
  | delete (wsID : WorkspaceID) (id : String) (remove write : Fault)
  | syncSchedules (faults : SyncFaults)
  | generateFireToken (wsID : WorkspaceID) (id : String) (read random write : Fault)
  | rotateFireToken (wsID : WorkspaceID) (id : String) (read random write : Fault)
  | revokeFireToken (wsID : WorkspaceID) (id : String) (read write : Fault)

def step (st : State) : Op → State
  | .create now newUUID wsID body faults =>
    (create cfg st now newUUID wsID (routineOfBody wsID body) faults).1
  | .update now wsID r faults => (update cfg st now wsID r faults).1
  | .delete wsID id remove write => (delete cfg st wsID id remove write).1
  | .syncSchedules faults => (syncSchedules cfg st faults).1
  | .generateFireToken wsID id read random write =>
    (generateFireToken cfg st wsID id read random write).1
  | .rotateFireToken wsID id read random write =>
    (generateFireToken cfg st wsID id read random write).1
  | .revokeFireToken wsID id read write => (revokeFireToken st wsID id read write).1

end

/-! ## What each operation can do -/

section
variable {σ : Type} (cfg : Config σ) (st : State) (w : WorkspaceID) (r : Routine)

/-- The routine once its schedule is registered. -/
def registered (w : WorkspaceID) (r : Routine) : Routine :=
  { r with temporalScheduleID := some (scheduleID w r.id) }

/-- The schedules after the upsert of `r`, and its error. -/
def upserted (faults : UpsertFaults) : Schedules × Option String :=
  onSchedule st.schedules (scheduleID r.workspaceID r.id) (upsert cfg.sdk r faults)

theorem register_cases (faults : EditFaults) :
    cfg.scheduled = false ∧ (register cfg st w r faults).1 = st
      ∨ cfg.scheduled = true
        ∧ ((register cfg st w r faults).1
              = { st with schedules := (upserted cfg st r faults.upsert).1 }
          ∨ (upserted cfg st r faults.upsert).2 = none
            ∧ (register cfg st w r faults).1
              = { st with
                  schedules := (upserted cfg st r faults.upsert).1
                  routines := st.routines.update w (registered w r) }) := by
  unfold register
  cases hs : cfg.scheduled with
  | false => exact Or.inl ⟨rfl, rfl⟩
  | true =>
    refine Or.inr ⟨rfl, ?_⟩
    rw [if_pos rfl]
    change _ ∨ (onSchedule st.schedules _ _).2 = none ∧ _
    rcases hu : onSchedule st.schedules (scheduleID r.workspaceID r.id)
      (upsert cfg.sdk r faults.upsert) with ⟨schedules, _ | err⟩
    · cases hm : faults.mark with
      | some err => exact Or.inl (by simp [upserted, hu])
      | none => exact Or.inr ⟨rfl, by simp [upserted, hu, registered]⟩
    · exact Or.inl (by simp [upserted, hu])

theorem create_cases (now : Int) (newUUID : String) (faults : EditFaults) :
    (create cfg st now newUUID w r faults).1 = st
      ∨ ∃ t r', st.routines.create newUUID w
            (withDefaults newUUID { normalizeCron r with workspaceID := w }) = some (t, r')
          ∧ (create cfg st now newUUID w r faults).1
            = (register cfg { st with routines := t } w r' faults).1 := by
  unfold create
  cases hv : validate cfg.cron now (normalizeCron r) with
  | some err => exact Or.inl (by simp [hv])
  | none =>
    cases hw : faults.write with
    | some err => exact Or.inl (by simp [hv])
    | none =>
      cases hc : st.routines.create newUUID w
          (withDefaults newUUID { normalizeCron r with workspaceID := w }) with
      | none => exact Or.inl (by simp [hv, hc])
      | some res => exact Or.inr ⟨res.1, res.2, rfl, by simp [hv, hc]⟩

/-- `Update` gets as far as its first write. -/
def UpdateWrites (now : Int) (faults : EditFaults) : Prop :=
  faults.read = none ∧ validate cfg.cron now (normalizeCron r) = none ∧ faults.write = none

/-- The routine `Update` writes over `row`: the hash is the scanned one. -/
def edited (row : Row) : Routine :=
  { normalizeCron r with
    workspaceID := w
    fireTokenHash := (scanRoutine row).fireTokenHash
    hasFireToken := (scanRoutine row).hasFireToken
    temporalScheduleID := row.temporalScheduleID }

theorem update_cases (now : Int) (faults : EditFaults) :
    (¬ UpdateWrites cfg r now faults ∨ st.routines.live w r.id = none)
        ∧ (update cfg st now w r faults).1 = st
      ∨ ∃ row, UpdateWrites cfg r now faults ∧ st.routines.live w r.id = some row
          ∧ (update cfg st now w r faults).1
            = (register cfg
                { st with routines := st.routines.update w (edited w r row) } w
                (edited w r row) faults).1 := by
  unfold update UpdateWrites
  cases hr : faults.read with
  | some err => exact Or.inl ⟨Or.inl (by simp), rfl⟩
  | none =>
    unfold RoutineTable.get
    cases hl : st.routines.live w r.id with
    | none => exact Or.inl ⟨Or.inr rfl, rfl⟩
    | some row =>
      cases hv : validate cfg.cron now (normalizeCron r) with
      | some err => exact Or.inl ⟨Or.inl (by simp), by simp [hv]⟩
      | none =>
        cases hw : faults.write with
        | some err => exact Or.inl ⟨Or.inl (by simp), by simp [hv]⟩
        | none => exact Or.inr ⟨row, ⟨rfl, rfl, rfl⟩, rfl, by simp [hv, edited, scanRoutine]⟩

theorem delete_cases (id : String) (remove write : Fault) :
    (delete cfg st w id remove write).1.draws = st.draws
      ∧ (delete cfg st w id remove write).1.schedules
          = (if cfg.scheduled then
              (onSchedule st.schedules (scheduleID w id) (deleteSchedule cfg.sdk w id remove)).1
            else st.schedules)
      ∧ ((∃ err, (delete cfg st w id remove write).2 = some err)
            ∧ write ≠ none ∧ (delete cfg st w id remove write).1.routines = st.routines
          ∨ (delete cfg st w id remove write).2 = none
            ∧ write = none
            ∧ (delete cfg st w id remove write).1.routines = st.routines.delete w id) := by
  unfold delete
  cases write with
  | some err =>
    refine ⟨by split <;> rfl, by split <;> rfl, Or.inl ⟨⟨_, rfl⟩, by simp, by split <;> rfl⟩⟩
  | none =>
    refine ⟨by split <;> rfl, by split <;> rfl, Or.inr ⟨rfl, rfl, ?_⟩⟩
    simp only
    split <;> rfl

theorem generateFireToken_cases (id : String) (read random write : Fault) :
    (∃ err, (generateFireToken cfg st w id read random write).2 = .error err
        ∧ (generateFireToken cfg st w id read random write).1.routines = st.routines
        ∧ (generateFireToken cfg st w id read random write).1.schedules = st.schedules
        ∧ st.draws ≤ (generateFireToken cfg st w id read random write).1.draws)
      ∨ ∃ row, st.routines.live w id = some row
          ∧ generateFireToken cfg st w id read random write
            = ({ st with
                  draws := st.draws + 1
                  routines := st.routines.update w
                    { scanRoutine row with
                      fireTokenHash := some (tokenHash cfg (cfg.rand st.draws))
                      hasFireToken := true } },
                .ok (cfg.rand st.draws)) := by
  unfold generateFireToken RoutineTable.get
  cases read with
  | some err => exact Or.inl ⟨_, rfl, rfl, rfl, le_refl _⟩
  | none =>
    cases hl : st.routines.live w id with
    | none => exact Or.inl ⟨_, rfl, rfl, rfl, le_refl _⟩
    | some row =>
      cases random with
      | some err => exact Or.inl ⟨_, rfl, rfl, rfl, le_refl _⟩
      | none =>
        cases write with
        | some err => exact Or.inl ⟨_, rfl, rfl, rfl, Nat.le_succ _⟩
        | none => exact Or.inr ⟨row, rfl, rfl⟩

theorem revokeFireToken_cases (id : String) (read write : Fault) :
    (∃ err, revokeFireToken st w id read write = (st, some err))
      ∨ ∃ row, st.routines.live w id = some row
          ∧ revokeFireToken st w id read write
            = ({ st with
                  routines := st.routines.update w
                    { scanRoutine row with fireTokenHash := none, hasFireToken := false } },
                none) := by
  unfold revokeFireToken RoutineTable.get
  cases read with
  | some err => exact Or.inl ⟨_, rfl⟩
  | none =>
    cases hl : st.routines.live w id with
    | none => exact Or.inl ⟨_, rfl⟩
    | some row =>
      cases write with
      | some err => exact Or.inl ⟨_, rfl⟩
      | none => exact Or.inr ⟨row, rfl, rfl⟩

/-- One turn of the sync loop: the state it leaves, and whether it adds
an error. -/
theorem syncLoop_cons (faults : SyncFaults) (rs : List Routine) :
    ∃ st₁ : State,
      (syncLoop cfg faults st (r :: rs)).1 = (syncLoop cfg faults st₁ rs).1
        ∧ st₁.draws = st.draws
        ∧ st₁.schedules = (upserted cfg st r (faults.upsert r.id)).1
        ∧ ((upserted cfg st r (faults.upsert r.id)).2 = none ∧ faults.mark r.id = none
              ∧ st₁.routines = st.routines.update r.workspaceID (registered r.workspaceID r)
            ∨ ¬ ((upserted cfg st r (faults.upsert r.id)).2 = none ∧ faults.mark r.id = none)
              ∧ st₁.routines = st.routines)
        ∧ ((syncLoop cfg faults st (r :: rs)).2 = [] →
            (upserted cfg st r (faults.upsert r.id)).2 = none
              ∧ (syncLoop cfg faults st₁ rs).2 = []) := by
  unfold upserted
  rcases hu : onSchedule st.schedules (scheduleID r.workspaceID r.id)
    (upsert cfg.sdk r (faults.upsert r.id)) with ⟨schedules, _ | err⟩
  · cases hm : faults.mark r.id with
    | some err =>
      refine ⟨{ st with schedules := schedules }, ?_, rfl, rfl, Or.inr ⟨by simp, rfl⟩, ?_⟩ <;>
        simp [syncLoop, hu, hm]
    | none =>
      refine ⟨{ st with
          schedules := schedules
          routines := st.routines.update r.workspaceID (registered r.workspaceID r) },
        ?_, rfl, rfl, Or.inl ⟨rfl, rfl, rfl⟩, ?_⟩ <;>
        simp [syncLoop, hu, hm, registered]
  · refine ⟨{ st with schedules := schedules }, ?_, rfl, rfl, Or.inr ⟨by simp, rfl⟩, ?_⟩ <;>
      simp [syncLoop, hu]

theorem syncSchedules_cases (faults : SyncFaults) :
    (syncSchedules cfg st faults).1 = st
        ∧ (cfg.scheduled = false ∨ (syncSchedules cfg st faults).2 ≠ none ∧ faults.list ≠ none)
      ∨ cfg.scheduled = true ∧ faults.list = none
        ∧ (syncSchedules cfg st faults).1
          = (syncLoop cfg faults st st.routines.listUnscheduled).1
        ∧ ((syncSchedules cfg st faults).2 = none →
            (syncLoop cfg faults st st.routines.listUnscheduled).2 = []) := by
  unfold syncSchedules
  cases hs : cfg.scheduled with
  | false => exact Or.inl ⟨rfl, Or.inl rfl⟩
  | true =>
    cases hl : faults.list with
    | some err => exact Or.inl ⟨rfl, Or.inr ⟨by simp, by simp⟩⟩
    | none =>
      refine Or.inr ⟨rfl, rfl, ?_⟩
      simp only [Bool.not_true, Bool.false_eq_true, if_false]
      split
      · rename_i he
        exact ⟨rfl, fun _ => he⟩
      · exact ⟨rfl, fun h => by cases h⟩

end

/-! ## A configuration to run on -/

/-- The token of 32 zero bytes and its SHA-256. -/
def zeroToken : String := String.ofList (List.replicate 64 '0')

def zeroDigest : String :=
  "60e05bd1b195af2f94112fa7197a5c88289058840ce7c6df9693756bc6250f55"

/-- A configuration to run on: every expression parses and fires daily,
the n-th token is a row of `64 + n` zeros, and the hash exchanges the
first token with its digest. -/
def exampleConfig : Config Unit :=
  { cron := { parse := fun _ => .ok (), next := fun _ t => some (t + 24 * hour) }
    sdk := { notFound := "schedule not found", alreadyExists := "schedule already exists" }
    scheduled := true
    duplicateEntry := "Error 1062 (23000): Duplicate entry"
    rand := fun n => String.ofList (List.replicate (64 + n) '0')
    sha256 := Equiv.swap zeroToken zeroDigest }

theorem exampleConfig_rand_injective : Function.Injective exampleConfig.rand := by
  intro m n h
  have hlen := congrArg (fun s => s.toList.length) h
  simpa [exampleConfig] using hlen

def reportID : String := "7b1e6a52-9d1c-4c35-8f43-0d3f5e2a9b61"

def reportBody : RoutineBody := { name := "Daily report", prompt := "Summarize the day." }

end LendingClaw.Routines
