/-
LendingClaw.Routines.Store — the routine store over MySQL
(`internal/store/routine_store.go`, `internal/store/mysql/routines.go`).

`Row` is what the table holds and `Routine` what the store hands out;
`scanRoutine` is the way from one to the other. It reads the column
`fire_token_hash` into a local and keeps of it only whether it is NULL,
so no `Routine` that was read from the table carries the hash, while
`update` writes the field back with every other column.

Time stamps are left out; the order of creation is the order of the
table. A call the database refuses changes nothing; the refusals are
inputs of the operations that make the call (`Fault`).
-/
import LendingClaw.Store.Workspace
import LendingClaw.Lib.Table

namespace LendingClaw.Routines

open LendingClaw.Store

/-- `store.Routine`. -/
structure Routine where
  id : String
  workspaceID : WorkspaceID
  name : String
  prompt : String
  sessionPrefix : String
  enabled : Bool
  scheduleCron : Option String
  scheduleTZ : String
  temporalScheduleID : Option String
  fireTokenHash : Option String
  hasFireToken : Bool
  createdBy : Option String
  deriving DecidableEq

/-- A row of `routines`; `deleted` is `deleted_at IS NOT NULL`. -/
structure Row where
  id : String
  workspaceID : WorkspaceID
  name : String
  prompt : String
  sessionPrefix : String
  enabled : Bool
  scheduleCron : Option String
  scheduleTZ : String
  temporalScheduleID : Option String
  fireTokenHash : Option String
  createdBy : Option String
  deleted : Bool
  deriving DecidableEq

/-- The table; the primary key is the id alone. -/
abbrev RoutineTable := Lib.Table Row String Row.id

/-- `scanRoutine`. -/
def scanRoutine (row : Row) : Routine :=
  { id := row.id
    workspaceID := row.workspaceID
    name := row.name
    prompt := row.prompt
    sessionPrefix := row.sessionPrefix
    enabled := row.enabled
    scheduleCron := row.scheduleCron
    scheduleTZ := row.scheduleTZ
    temporalScheduleID := row.temporalScheduleID
    fireTokenHash := none
    hasFireToken := row.fireTokenHash.isSome
    createdBy := row.createdBy }

/-- The defaults `Service.Create` and `MySQLRoutineStore.Create` fill in. -/
def withDefaults (newUUID : String) (r : Routine) : Routine :=
  { r with
    id := if r.id = "" then newUUID else r.id
    scheduleTZ := if r.scheduleTZ = "" then "Asia/Ho_Chi_Minh" else r.scheduleTZ
    sessionPrefix := if r.sessionPrefix = "" then "routine" else r.sessionPrefix }

/-- The row `MySQLRoutineStore.Create` inserts. -/
def insertedRow (workspaceID : WorkspaceID) (r : Routine) : Row :=
  { id := r.id
    workspaceID := workspaceID
    name := r.name
    prompt := r.prompt
    sessionPrefix := r.sessionPrefix
    enabled := r.enabled
    scheduleCron := r.scheduleCron
    scheduleTZ := r.scheduleTZ
    temporalScheduleID := r.temporalScheduleID
    fireTokenHash := r.fireTokenHash
    createdBy := r.createdBy
    deleted := false }

namespace RoutineTable

/-- `MySQLRoutineStore.Create`; `none` is the duplicate-key error. The
routine comes back with its defaults, which the source writes through
the pointer. -/
def create (t : RoutineTable) (newUUID : String) (workspaceID : WorkspaceID) (r : Routine) :
    Option (RoutineTable × Routine) :=
  let r := withDefaults newUUID r
  (t.insert (insertedRow workspaceID r)).map (fun t => (t, r))

/-- The SET clause of `MySQLRoutineStore.Update`. -/
def updatedRow (r : Routine) (row : Row) : Row :=
  { row with
    name := r.name
    prompt := r.prompt
    sessionPrefix := r.sessionPrefix
    enabled := r.enabled
    scheduleCron := r.scheduleCron
    scheduleTZ := r.scheduleTZ
    temporalScheduleID := r.temporalScheduleID
    fireTokenHash := r.fireTokenHash }

/-- `MySQLRoutineStore.Update`. -/
def update (t : RoutineTable) (workspaceID : WorkspaceID) (r : Routine) : RoutineTable :=
  Lib.Table.update t r.id
    (fun row => if row.workspaceID = workspaceID then updatedRow r row else row)
    (fun row => by split <;> rfl)

/-- The SET clause of `MySQLRoutineStore.Delete`. -/
def deletedRow (row : Row) : Row :=
  { row with deleted := true, fireTokenHash := none, enabled := false }

/-- `MySQLRoutineStore.Delete`: the row stays, disabled and without token. -/
def delete (t : RoutineTable) (workspaceID : WorkspaceID) (id : String) : RoutineTable :=
  Lib.Table.update t id
    (fun row =>
      if row.workspaceID = workspaceID ∧ row.deleted = false then deletedRow row else row)
    (fun row => by split <;> rfl)

/-- The row `Get` selects. -/
def live (t : RoutineTable) (workspaceID : WorkspaceID) (id : String) : Option Row :=
  (t.find id).filter (fun row => row.workspaceID == workspaceID && !row.deleted)

/-- `MySQLRoutineStore.Get`. -/
def get (t : RoutineTable) (workspaceID : WorkspaceID) (id : String) : Except String Routine :=
  match t.live workspaceID id with
  | some row => .ok (scanRoutine row)
  | none => .error ("routine \"" ++ id ++ "\" not found")

/-- The WHERE clause of `ListUnscheduled`. -/
def unscheduled (row : Row) : Bool :=
  row.enabled && row.scheduleCron.isSome && row.temporalScheduleID.isNone && !row.deleted

/-- `MySQLRoutineStore.ListUnscheduled`. -/
def listUnscheduled (t : RoutineTable) : List Routine :=
  (t.select unscheduled).map scanRoutine

/-- `MySQLRoutineStore.GetByFireToken`. -/
def getByFireToken (t : RoutineTable) (tokenHash : String) : Option Routine :=
  (t.rows.find? (fun row => row.fireTokenHash == some tokenHash && !row.deleted)).map
    scanRoutine

/-! ## What each statement leaves -/

variable {t : RoutineTable} {w : WorkspaceID} {id : String} {row : Row}

theorem live_eq_some_iff :
    t.live w id = some row ↔ t.find id = some row ∧ row.workspaceID = w ∧ row.deleted = false := by
  simp [live, Option.filter_eq_some_iff]

theorem live_mem (h : t.live w id = some row) :
    row ∈ t.rows ∧ row.id = id ∧ row.workspaceID = w ∧ row.deleted = false := by
  obtain ⟨hf, hw, hd⟩ := live_eq_some_iff.mp h
  obtain ⟨hm, hid⟩ := Lib.Table.find_eq_some_iff.mp hf
  exact ⟨hm, hid, hw, hd⟩

theorem live_of_mem (hm : row ∈ t.rows) (hd : row.deleted = false) :
    t.live row.workspaceID row.id = some row :=
  live_eq_some_iff.mpr ⟨Lib.Table.find_eq_some_iff.mpr ⟨hm, rfl⟩, rfl, hd⟩

/-- The row of an id after an UPDATE through the store. -/
theorem find_update (r : Routine) (id' : String) :
    (t.update w r).find id' = if id' = r.id
      then (t.find r.id).map (fun row => if row.workspaceID = w then updatedRow r row else row)
      else t.find id' :=
  Lib.Table.find_update

/-- The row of an id after a soft delete. -/
theorem find_delete (id' : String) :
    (t.delete w id).find id' = if id' = id
      then (t.find id).map (fun row =>
        if row.workspaceID = w ∧ row.deleted = false then deletedRow row else row)
      else t.find id' :=
  Lib.Table.find_update

/-- The rows after an INSERT that succeeds. -/
theorem find_create {t' : RoutineTable} {newUUID : String} {r r' : Routine}
    (h : t.create newUUID w r = some (t', r')) :
    t.find r'.id = none ∧ t'.find r'.id = some (insertedRow w r')
      ∧ (∀ id', id' ≠ r'.id → t'.find id' = t.find id')
      ∧ r'.temporalScheduleID = r.temporalScheduleID ∧ r'.workspaceID = r.workspaceID := by
  unfold create at h
  rw [Option.map_eq_some_iff] at h
  obtain ⟨t₁, ht₁, heq⟩ := h
  cases heq
  have hfind := Lib.Table.find_insert ht₁
  refine ⟨?_, (hfind _).trans (if_pos rfl), fun id' hid => (hfind id').trans (if_neg hid),
    rfl, rfl⟩
  by_contra hc
  cases (Lib.Table.insert_eq_none_iff.mpr hc).symm.trans ht₁

/-- The live row of a routine after an UPDATE through the store. -/
theorem live_update (r : Routine) (w' : WorkspaceID) (id' : String) :
    (t.update w r).live w' id'
      = if w' = w ∧ id' = r.id then (t.live w' id').map (updatedRow r) else t.live w' id' := by
  unfold live update
  rw [Lib.Table.find_update]
  by_cases hid : id' = r.id
  · subst hid
    cases hf : t.find r.id with
    | none => simp
    | some row =>
      by_cases hw : row.workspaceID = w
      · by_cases hww : w' = w
        · subst hww
          cases hd : row.deleted <;> simp [hw, hd, updatedRow, Option.filter]
        · have hne : ¬ w = w' := fun h => hww h.symm
          simp [hw, hww, hne, updatedRow, Option.filter]
      · by_cases hww : w' = w
        · subst hww
          simp [hw, Option.filter]
        · simp [hw, hww]
  · simp [hid]

/-- The live row of a routine after a soft delete. -/
theorem live_delete (w' : WorkspaceID) (id' : String) :
    (t.delete w id).live w' id' = if w' = w ∧ id' = id then none else t.live w' id' := by
  unfold live delete
  rw [Lib.Table.find_update]
  by_cases hid : id' = id
  · subst hid
    cases hf : t.find id' with
    | none => simp
    | some row =>
      by_cases hww : w' = w
      · subst hww
        cases hd : row.deleted <;> by_cases hw : row.workspaceID = w' <;>
          simp [hw, hd, deletedRow, Option.filter]
      · have hne : ¬ w = w' := fun h => hww h.symm
        cases hd : row.deleted <;> by_cases hw : row.workspaceID = w <;>
          simp [hw, hww, hne, hd, deletedRow, Option.filter]
  · simp [hid]

/-- The live row of a routine after an INSERT: the new row under its own
workspace and id, every other as before. -/
theorem live_create {t' : RoutineTable} {newUUID : String} {r r' : Routine}
    (h : t.create newUUID w r = some (t', r')) (w' : WorkspaceID) (id' : String) :
    r' = withDefaults newUUID r ∧ t.find r'.id = none
      ∧ t'.live w' id' = if w' = w ∧ id' = r'.id then some (insertedRow w r')
          else t.live w' id' := by
  unfold create at h
  rw [Option.map_eq_some_iff] at h
  obtain ⟨t₁, ht₁, heq⟩ := h
  cases heq
  have hnone : t.find (insertedRow w (withDefaults newUUID r)).id = none := by
    by_contra hc
    rw [Lib.Table.insert_eq_none_iff.mpr hc] at ht₁
    cases ht₁
  refine ⟨rfl, hnone, ?_⟩
  unfold live
  rw [Lib.Table.find_insert ht₁]
  by_cases hid : id' = (withDefaults newUUID r).id
  · have hid' : id' = (insertedRow w (withDefaults newUUID r)).id := hid
    rw [if_pos hid']
    by_cases hww : w' = w
    · subst hww
      simp [hid, insertedRow, Option.filter]
    · have hne : ¬ w = w' := fun h => hww h.symm
      rw [hid', hnone]
      simp [hww, hne, insertedRow, Option.filter]
  · have hid' : ¬ id' = (insertedRow w (withDefaults newUUID r)).id := hid
    rw [if_neg hid']
    simp [hid]

theorem mem_listUnscheduled {r : Routine} :
    r ∈ t.listUnscheduled ↔ ∃ row ∈ t.rows, unscheduled row = true ∧ scanRoutine row = r := by
  simp [listUnscheduled, Lib.Table.select, and_assoc]

/-- The scan lists no routine twice. -/
theorem listUnscheduled_nodup (t : RoutineTable) : (t.listUnscheduled.map Routine.id).Nodup := by
  rw [listUnscheduled, List.map_map]
  exact t.unique.sublist (List.filter_sublist.map _)

end RoutineTable

/-- A routine that fires by the hour. -/
def hourlyRoutine : Routine :=
  { id := "r", workspaceID := defaultWorkspaceID, name := "digest", prompt := "Summarize"
    sessionPrefix := "routine", enabled := true, scheduleCron := some "0 * * * *", scheduleTZ := "UTC"
    temporalScheduleID := none, fireTokenHash := none, hasFireToken := false, createdBy := none }

end LendingClaw.Routines
