/-
LendingClaw.Routines.ScheduleTheorems — routine rows against Temporal
schedules, after recovery.

`Agreement` is what recovery is for: each row that is to run has a running
schedule with its cron expression and time zone, and no other row has
one. `SyncSchedules` selects rows by `temporal_schedule_id IS NULL`: it
recovers registrations that never happened, not edits and deletions that
were half done. `Covered` bounds the faults to the ones it recovers from.

The invariant is `Settled`, row by row: the row agrees with its schedule,
or it is to run, was never marked and has no schedule, which is exactly
what the next scan finds.
-/
import LendingClaw.Routines.Service
import LendingClaw.Lib.Runs

namespace LendingClaw.Routines

open LendingClaw.Store

/-! ## Agreement -/

/-- The cron expression the row is to run on, if it is to run. -/
def Row.active (row : Row) : Option String :=
  if row.deleted then none else if row.enabled then row.scheduleCron else none

/-- A running schedule with this expression and time zone. -/
def Runs (cron tz : String) (cur : Option Schedule) : Prop :=
  ∃ sch, cur = some sch ∧ sch.cronExpressions = [cron] ∧ sch.timeZoneName = tz
    ∧ sch.paused = false

/-- No running schedule. -/
def Quiet (cur : Option Schedule) : Prop :=
  ∀ sch, cur = some sch → sch.paused = true

/-- The row agrees with the schedule of its id. -/
def Row.Agrees (row : Row) (cur : Option Schedule) : Prop :=
  match row.active with
  | some cron => Runs cron row.scheduleTZ cur
  | none => Quiet cur

def Agreement (st : State) : Prop :=
  ∀ row ∈ st.routines.rows, row.Agrees (st.schedules (scheduleID row.workspaceID row.id))

instance (cron tz : String) : (cur : Option Schedule) → Decidable (Runs cron tz cur)
  | none => isFalse fun ⟨_, h, _⟩ => by cases h
  | some sch =>
    decidable_of_iff
      (sch.cronExpressions = [cron] ∧ sch.timeZoneName = tz ∧ sch.paused = false)
      ⟨fun h => ⟨sch, rfl, h⟩, fun ⟨_, hs, h⟩ => by cases hs; exact h⟩

instance : (cur : Option Schedule) → Decidable (Quiet cur)
  | none => isTrue fun _ h => by cases h
  | some sch =>
    decidable_of_iff (sch.paused = true) ⟨fun h _ hs => by cases hs; exact h, fun h => h sch rfl⟩

instance (row : Row) (cur : Option Schedule) : Decidable (row.Agrees cur) := by
  unfold Row.Agrees
  cases row.active <;> infer_instance

instance (st : State) : Decidable (Agreement st) :=
  inferInstanceAs (Decidable (∀ row ∈ st.routines.rows, _))

/-! ## The invariant -/

/-- The row agrees, or it waits for its first registration. -/
def Row.Settled (row : Row) (cur : Option Schedule) : Prop :=
  row.Agrees cur ∨ row.active ≠ none ∧ row.temporalScheduleID = none ∧ cur = none

structure Healthy (st : State) : Prop where
  settled : ∀ id row, st.routines.find id = some row →
    row.Settled (st.schedules (scheduleID row.workspaceID id))
  fresh : ∀ w id, st.routines.find id = none → st.schedules (scheduleID w id) = none

theorem healthy_initialState : Healthy initialState :=
  ⟨fun id row h => by simp [initialState] at h, fun _ _ _ => rfl⟩

section
variable {st st' : State} {w : WorkspaceID} {id : String}

/-- The frame: only the row of `id` and the schedule of `(w, id)` change. -/
theorem Healthy.frame (h : Healthy st)
    (hs : ∀ k, k ≠ scheduleID w id → st'.schedules k = st.schedules k)
    (hf : ∀ id', id' ≠ id → st'.routines.find id' = st.routines.find id')
    (hmine : ∀ row, st'.routines.find id = some row →
      row.Settled (st'.schedules (scheduleID row.workspaceID id)))
    (hfresh : st'.routines.find id = none → ∀ w', st'.schedules (scheduleID w' id) = none) :
    Healthy st' := by
  have hkey : ∀ w' id', id' ≠ id → scheduleID w' id' ≠ scheduleID w id :=
    fun w' id' hne hc => hne (scheduleID_inj hc).2
  refine ⟨fun id' row hrow => ?_, fun w' id' hnone => ?_⟩
  · by_cases hid : id' = id
    · subst hid
      exact hmine row hrow
    · rw [hf id' hid] at hrow
      rw [hs _ (hkey _ _ hid)]
      exact h.settled id' row hrow
  · by_cases hid : id' = id
    · subst hid
      exact hfresh hnone w'
    · rw [hs _ (hkey _ _ hid)]
      rw [hf id' hid] at hnone
      exact h.fresh w' id' hnone

end

/-! ## Upserts -/

section
variable {sdk : SdkErrors} {r : Routine} {cron : String} {faults : UpsertFaults}
  {cur : Option Schedule}

theorem enabled_of_active (h : r.active = some cron) : r.enabled = true :=
  (Routine.active_eq_some.1 h).1

theorem runs_firstUpdate (h : r.active = some cron) (sch : Schedule) :
    Runs cron r.scheduleTZ (some (firstUpdate r cron sch)) :=
  ⟨_, rfl, rfl, rfl, by simp [firstUpdate, enabled_of_active h]⟩

theorem runs_scheduleOpts (h : r.active = some cron) :
    Runs cron r.scheduleTZ (some (scheduleOpts r cron)) :=
  ⟨_, rfl, rfl, rfl, by simp [scheduleOpts, enabled_of_active h]⟩

/-- A served upsert of a routine that is to run leaves it running. -/
theorem upsert_served (h : r.active = some cron) (hu : faults.update = none)
    (hc : faults.create = none) : Runs cron r.scheduleTZ (upsert sdk r faults cur).1 := by
  rcases upsert_active sdk h faults cur with
    ⟨sch, -, -, heq⟩ | ⟨-, -, heq⟩ | ⟨-, -, hne, -⟩ | ⟨hne, hne', -⟩
  · rw [heq]
    exact runs_firstUpdate h sch
  · rw [heq]
    exact runs_scheduleOpts h
  · exact absurd hu hne
  · cases cur with
    | none => exact absurd hc (hne' rfl)
    | some sch => exact absurd hu (hne (by simp))

/-- Over a missing schedule, or one that already runs as it should, an
upsert leaves it running, unless it fails and the schedule stays missing. -/
theorem upsert_settles (sdk : SdkErrors) (faults : UpsertFaults) (h : r.active = some cron)
    (hcur : cur = none ∨ Runs cron r.scheduleTZ cur) :
    Runs cron r.scheduleTZ (upsert sdk r faults cur).1
      ∨ (upsert sdk r faults cur).1 = none ∧ (upsert sdk r faults cur).2 ≠ none := by
  rcases upsert_active sdk h faults cur with
    ⟨sch, -, -, heq⟩ | ⟨-, -, heq⟩ | ⟨sch, hsch, -, heq⟩ | ⟨-, -, err, heq⟩ <;> rw [heq]
  · exact Or.inl (runs_firstUpdate h sch)
  · exact Or.inl (runs_scheduleOpts h)
  · -- the retry does not unpause, but the schedule was running
    rcases hcur with hcur | ⟨sch', hsch', -, -, hp⟩
    · cases hsch.symm.trans hcur
    · cases hsch.symm.trans hsch'
      exact Or.inl ⟨_, rfl, rfl, rfl, hp⟩
  · rcases hcur with hcur | hcur
    · exact Or.inr ⟨hcur, by simp⟩
    · exact Or.inl hcur

/-- A served upsert of a routine that is not to run stops it, and any
upsert leaves a stopped one stopped. -/
theorem upsert_quiet (h : r.active = none) (hcur : faults.pause = none ∨ Quiet cur) :
    Quiet (upsert sdk r faults cur).1 := by
  rw [upsert_inactive sdk h]
  rcases pause_cases sdk r.workspaceID r.id faults.pause cur with
    ⟨sch, -, heq⟩ | ⟨hno, heq⟩ <;> rw [heq]
  · intro sch' hsch'
    cases hsch'
    rfl
  · rcases hcur with hp | hcur
    · rcases hno with rfl | hne
      · intro sch hsch
        cases hsch
      · exact absurd hp hne
    · exact hcur

end

/-! ## Operations -/

/-- The faults of an edit leave its Temporal calls alone. -/
def UpsertFaults.Served (faults : UpsertFaults) : Prop :=
  faults.update = none ∧ faults.create = none ∧ faults.pause = none

theorem updatedRow_active (r : Routine) {row : Row} (hd : row.deleted = false) :
    (RoutineTable.updatedRow r row).active = r.active := by
  simp [Row.active, RoutineTable.updatedRow, hd, Routine.active]

theorem scanRoutine_active {row : Row} (hd : row.deleted = false) :
    (scanRoutine row).active = row.active := by
  unfold Row.active
  rw [if_neg (by simp [hd])]
  rfl

section
variable {σ : Type} {cfg : Config σ} {st st₁ : State} {w : WorkspaceID} {r : Routine}
  {row : Row}

/-- The row of a routine after the upsert of that routine: the upsert was
served, or the schedule was missing or in agreement and the row is not
marked unless the upsert succeeded. -/
theorem settled_upserted {faults : UpsertFaults} (hactive : row.active = r.active)
    (htz : row.scheduleTZ = r.scheduleTZ)
    (hok : faults.Served
      ∨ (row.temporalScheduleID = none ∨ (upserted cfg st r faults).2 = none)
        ∧ (st.schedules (scheduleID r.workspaceID r.id) = none
          ∨ row.Agrees (st.schedules (scheduleID r.workspaceID r.id)))) :
    row.Settled ((upserted cfg st r faults).1 (scheduleID r.workspaceID r.id)) := by
  unfold upserted at hok ⊢
  rw [onSchedule_self]
  simp only [Row.Agrees, hactive, htz] at hok
  cases ha : r.active with
  | none =>
    simp only [ha] at hok
    refine Or.inl ?_
    simp only [Row.Agrees, hactive, ha]
    refine upsert_quiet ha ?_
    rcases hok with hserved | ⟨-, hcur | hcur⟩
    · exact Or.inl hserved.2.2
    · rw [hcur]
      exact Or.inr fun sch hsch => by cases hsch
    · exact Or.inr hcur
  | some cron =>
    simp only [ha] at hok
    have hagrees : ∀ cur, Runs cron r.scheduleTZ cur → row.Agrees cur := by
      intro cur hcur
      simp only [Row.Agrees, hactive, ha, htz]
      exact hcur
    rcases hok with hserved | ⟨hmark, hcur⟩
    · exact Or.inl (hagrees _ (upsert_served ha hserved.1 hserved.2.1))
    · rcases upsert_settles cfg.sdk faults ha hcur with hruns | ⟨hnone, herr⟩
      · exact Or.inl (hagrees _ hruns)
      · exact Or.inr ⟨by rw [hactive, ha]; simp, hmark.resolve_right herr, hnone⟩

/-- The registration at the end of an edit: `st` is the state before the
edit, `st₁` the one with the row written. -/
theorem register_healthy (h : Healthy st) (hsched : cfg.scheduled = true)
    (faults : EditFaults) (hs : st₁.schedules = st.schedules)
    (hf : ∀ id', id' ≠ r.id → st₁.routines.find id' = st.routines.find id')
    (hrow : st₁.routines.find r.id = some row) (hw : row.workspaceID = w)
    (hrw : r.workspaceID = w) (hd : row.deleted = false) (hactive : row.active = r.active)
    (htz : row.scheduleTZ = r.scheduleTZ) (htsid : row.temporalScheduleID = r.temporalScheduleID)
    (hok : r.temporalScheduleID = none ∧ st.schedules (scheduleID w r.id) = none
      ∨ faults.upsert.Served) :
    Healthy (register cfg st₁ w r faults).1 := by
  subst hrw
  have hother : ∀ k, k ≠ scheduleID r.workspaceID r.id →
      (upserted cfg st₁ r faults.upsert).1 k = st.schedules k :=
    fun k hk => (onSchedule_other hk).trans (by rw [hs])
  rw [← hs, ← htsid] at hok
  rcases register_cases cfg st₁ r.workspaceID r faults with
    ⟨hoff, -⟩ | ⟨-, heq | ⟨hno, heq⟩⟩
  · cases hoff.symm.trans hsched
  · rw [heq]
    refine h.frame (w := r.workspaceID) hother hf (fun row' hrow' => ?_) fun hnone => ?_
    · cases hrow.symm.trans hrow'
      rw [hw]
      refine settled_upserted hactive htz ?_
      rcases hok with ⟨hid, hcur⟩ | hserved
      · exact Or.inr ⟨Or.inl hid, Or.inl hcur⟩
      · exact Or.inl hserved
    · cases hrow.symm.trans hnone
  · rw [heq]
    have hfind : (st₁.routines.update r.workspaceID (registered r.workspaceID r)).find r.id
        = some (RoutineTable.updatedRow (registered r.workspaceID r) row) := by
      rw [RoutineTable.find_update]
      simp [registered, hrow, hw]
    refine h.frame (w := r.workspaceID) hother (fun id' hid => ?_) (fun row' hrow' => ?_)
      fun hnone => ?_
    · exact (RoutineTable.find_update (registered r.workspaceID r) id').trans
        ((if_neg hid).trans (hf id' hid))
    · cases hfind.symm.trans hrow'
      have hws : (RoutineTable.updatedRow (registered r.workspaceID r) row).workspaceID
          = r.workspaceID := hw
      rw [hws]
      refine settled_upserted (r := r) ((updatedRow_active _ hd).trans rfl) rfl ?_
      rcases hok with ⟨-, hcur⟩ | hserved
      · exact Or.inr ⟨Or.inr hno, Or.inl hcur⟩
      · exact Or.inl hserved
    · cases hfind.symm.trans hnone

theorem create_healthy (h : Healthy st) (hsched : cfg.scheduled = true) (now : Int)
    (newUUID : String) (w : WorkspaceID) (body : RoutineBody) (faults : EditFaults) :
    Healthy (create cfg st now newUUID w (routineOfBody w body) faults).1 := by
  rcases create_cases cfg st w (routineOfBody w body) now newUUID faults with
    heq | ⟨t, r', ht, heq⟩
  · rwa [heq]
  · obtain ⟨hnone, hnew, hother, hid, hrw⟩ := RoutineTable.find_create ht
    rw [heq]
    refine register_healthy h hsched faults rfl hother hnew rfl hrw rfl ?_ rfl rfl
      (Or.inl ⟨hid, h.fresh w r'.id hnone⟩)
    rfl

theorem update_healthy (h : Healthy st) (hsched : cfg.scheduled = true) (now : Int)
    (w : WorkspaceID) (r : Routine) (faults : EditFaults)
    (hok : UpdateWrites cfg r now faults → ∀ row, st.routines.live w r.id = some row →
      row.temporalScheduleID = none ∧ st.schedules (scheduleID w r.id) = none
        ∨ faults.upsert.Served) :
    Healthy (update cfg st now w r faults).1 := by
  rcases update_cases cfg st w r now faults with ⟨-, heq⟩ | ⟨row, hwrites, hlive, heq⟩
  · rwa [heq]
  · obtain ⟨hfind, hw, hd⟩ := RoutineTable.live_eq_some_iff.mp hlive
    have hid : (edited w r row).id = r.id := rfl
    have hrow : (st.routines.update w (edited w r row)).find (edited w r row).id
        = some (RoutineTable.updatedRow (edited w r row) row) := by
      rw [RoutineTable.find_update, hid, if_pos rfl, hfind, Option.map_some, if_pos hw]
    rw [heq]
    refine register_healthy h hsched faults rfl (fun id' hid => ?_) hrow hw rfl hd
      (updatedRow_active _ hd) rfl rfl (hok hwrites row hlive)
    exact (RoutineTable.find_update _ _).trans (if_neg hid)

/-- Deleting a routine whose schedule runs: both sides or neither. -/
def DeleteCovered (st : State) (w : WorkspaceID) (id : String) (remove write : Fault) : Prop :=
  ¬ Quiet (st.schedules (scheduleID w id)) → (remove = none ↔ write = none)

/-- The deleted row's own settlement: `cur` is its schedule before. -/
theorem settled_deleted {cur : Option Schedule} {remove write : Fault}
    (hrow : row.Settled cur) (hok : ¬ Quiet cur → (remove = none ↔ write = none)) :
    (if write = none ∧ row.deleted = false then RoutineTable.deletedRow row else row).Settled
      (if remove = none then none else cur) := by
  have hnone : Quiet none := fun sch hsch => by cases hsch
  have hquiet : row.active = none → Quiet cur := by
    intro ha
    rcases hrow with hagrees | ⟨hne, -⟩
    · rw [Row.Agrees, ha] at hagrees
      exact hagrees
    · exact absurd ha hne
  by_cases hd : row.deleted = false
  · by_cases hwrite : write = none
    · -- the row is deleted, so its schedule must not run
      rw [if_pos ⟨hwrite, hd⟩]
      refine Or.inl ?_
      have ha : (RoutineTable.deletedRow row).active = none := rfl
      simp only [Row.Agrees, ha]
      split
      · exact hnone
      · rename_i hremove
        by_contra hc
        exact hremove ((hok hc).mpr hwrite)
    · rw [if_neg fun hc => hwrite hc.1]
      split
      · rename_i hremove
        -- the schedule is gone and the row is not, so it was not running
        have hq : Quiet cur := by
          by_contra hc
          exact hwrite ((hok hc).mp hremove)
        rcases hrow with hagrees | ⟨hne, hid, -⟩
        · refine Or.inl ?_
          unfold Row.Agrees at hagrees ⊢
          cases ha : row.active with
          | none => exact hnone
          | some cron =>
            rw [ha] at hagrees
            obtain ⟨sch, rfl, -, -, hp⟩ := hagrees
            cases hp.symm.trans (hq sch rfl)
        · exact Or.inr ⟨hne, hid, rfl⟩
      · exact hrow
  · rw [if_neg fun hc => hd hc.2]
    have ha : row.active = none := by
      simp only [Bool.not_eq_false] at hd
      simp [Row.active, hd]
    refine Or.inl ?_
    simp only [Row.Agrees, ha]
    split
    · exact hnone
    · exact hquiet ha

theorem delete_healthy (h : Healthy st) (hsched : cfg.scheduled = true) (w : WorkspaceID)
    (id : String) (remove write : Fault) (hok : DeleteCovered st w id remove write) :
    Healthy (delete cfg st w id remove write).1 := by
  obtain ⟨-, hsch, hcases⟩ := delete_cases cfg st w id remove write
  rw [if_pos hsched] at hsch
  have hmine : (delete cfg st w id remove write).1.schedules (scheduleID w id)
      = if remove = none then none else st.schedules (scheduleID w id) := by
    rw [hsch, onSchedule_self, deleteSchedule_fst]
  have hother : ∀ k, k ≠ scheduleID w id →
      (delete cfg st w id remove write).1.schedules k = st.schedules k :=
    fun k hk => by rw [hsch, onSchedule_other hk]
  have hfind : ∀ id', (delete cfg st w id remove write).1.routines.find id' = if id' = id
      then (st.routines.find id).map (fun row =>
        if write = none ∧ row.workspaceID = w ∧ row.deleted = false then
          RoutineTable.deletedRow row else row)
      else st.routines.find id' := by
    intro id'
    rcases hcases with ⟨-, hne, heq⟩ | ⟨-, hwrite, heq⟩ <;> rw [heq]
    · split
      · rename_i hid
        cases hf : st.routines.find id <;> simp [hid, hf, hne]
      · rfl
    · rw [RoutineTable.find_delete]
      simp [hwrite]
  refine h.frame (w := w) hother (fun id' hid => by rw [hfind, if_neg hid])
    (fun row' hrow' => ?_) fun hnone w' => ?_
  · rw [hfind, if_pos rfl, Option.map_eq_some_iff] at hrow'
    obtain ⟨row, hrow, rfl⟩ := hrow'
    have hset := h.settled id row hrow
    by_cases hw : row.workspaceID = w
    · have hws : (if write = none ∧ row.workspaceID = w ∧ row.deleted = false then
          RoutineTable.deletedRow row else row).workspaceID = w := by
        split <;> exact hw
      rw [hws, hmine]
      simp only [hw, true_and]
      rw [hw] at hset
      exact settled_deleted hset hok
    · rw [if_neg fun hc => hw hc.2.1, hother _ fun hc => hw (scheduleID_inj hc).1]
      exact hset
  · rw [hfind, if_pos rfl, Option.map_eq_none_iff] at hnone
    by_cases hw : w' = w
    · rw [hw, hmine, h.fresh w id hnone]
      split <;> rfl
    · rw [hother _ fun hc => hw (scheduleID_inj hc).1]
      exact h.fresh w' id hnone

/-- Rows written back with another token settle as before. -/
theorem writeBack_healthy (h : Healthy st) {id : String} (hlive : st.routines.live w id = some row)
    (hid : r.id = id) (hactive : r.active = (scanRoutine row).active)
    (htz : r.scheduleTZ = row.scheduleTZ)
    (htsid : r.temporalScheduleID = row.temporalScheduleID) (draws : Nat) :
    Healthy { st with routines := st.routines.update w r, draws := draws } := by
  subst hid
  obtain ⟨hfind, hw, hd⟩ := RoutineTable.live_eq_some_iff.mp hlive
  have hmine : (st.routines.update w r).find r.id = some (RoutineTable.updatedRow r row) := by
    rw [RoutineTable.find_update, if_pos rfl, hfind, Option.map_some, if_pos hw]
  refine h.frame (w := w) (fun _ _ => rfl)
    (fun id' hne => (RoutineTable.find_update r id').trans (if_neg hne)) (fun row' hrow' => ?_)
    fun hnone => ?_
  · cases hmine.symm.trans hrow'
    have hset := h.settled r.id row hfind
    have hact : (RoutineTable.updatedRow r row).active = row.active := by
      rw [updatedRow_active r hd, hactive, scanRoutine_active hd]
    have hz : (RoutineTable.updatedRow r row).scheduleTZ = row.scheduleTZ := htz
    have hi : (RoutineTable.updatedRow r row).temporalScheduleID = row.temporalScheduleID :=
      htsid
    simp only [Row.Settled, Row.Agrees, hact, hz, hi] at hset ⊢
    exact hset
  · cases hmine.symm.trans hnone

/-! ## Recovery -/

/-- An upsert of an active routine leaves a schedule where there was one,
and where it succeeds. -/
theorem upsert_exists {sdk : SdkErrors} {cron : String} {faults : UpsertFaults}
    {cur : Option Schedule} (ha : r.active = some cron)
    (h : cur ≠ none ∨ (upsert sdk r faults cur).2 = none) :
    (upsert sdk r faults cur).1 ≠ none := by
  rcases upsert_active sdk ha faults cur with
    ⟨sch, -, -, heq⟩ | ⟨-, -, heq⟩ | ⟨sch, -, -, heq⟩ | ⟨-, -, err, heq⟩
  · simp [heq]
  · simp [heq]
  · simp [heq]
  · rw [heq] at h ⊢
    exact h.resolve_right (by simp)

/-- The rows the scan finds: live, to run, and unmarked. -/
theorem unscheduled_iff :
    RoutineTable.unscheduled row = true ↔
      row.active ≠ none ∧ row.temporalScheduleID = none ∧ row.deleted = false := by
  unfold RoutineTable.unscheduled Row.active
  cases row.deleted <;> cases row.enabled <;> cases row.scheduleCron <;>
    cases row.temporalScheduleID <;> simp

/-- One turn of the sync loop keeps the invariant. -/
theorem syncTurn_healthy (h : Healthy st) {faults : UpsertFaults}
    (hfind : st.routines.find row.id = some row) (hun : RoutineTable.unscheduled row = true)
    (hsched : st₁.schedules = (upserted cfg st (scanRoutine row) faults).1)
    (hroutines : (upserted cfg st (scanRoutine row) faults).2 = none
        ∧ st₁.routines = st.routines.update row.workspaceID
            (registered row.workspaceID (scanRoutine row))
      ∨ st₁.routines = st.routines) : Healthy st₁ := by
  obtain ⟨hact, htsid, hd⟩ := unscheduled_iff.mp hun
  have hset := h.settled row.id row hfind
  have hcur : st.schedules (scheduleID row.workspaceID row.id) = none
      ∨ row.Agrees (st.schedules (scheduleID row.workspaceID row.id)) :=
    hset.elim Or.inr fun hw => Or.inl hw.2.2
  have hother : ∀ k, k ≠ scheduleID row.workspaceID row.id →
      st₁.schedules k = st.schedules k :=
    fun k hk => by rw [hsched]; exact onSchedule_other hk
  rcases hroutines with ⟨hno, hroutines⟩ | hroutines
  · have hupd := fun id' => RoutineTable.find_update (t := st.routines) (w := row.workspaceID)
      (registered row.workspaceID (scanRoutine row)) id'
    have hmine : st₁.routines.find row.id
        = some (RoutineTable.updatedRow (registered row.workspaceID (scanRoutine row)) row) := by
      rw [hroutines]
      refine (hupd row.id).trans ((if_pos rfl).trans ?_)
      change (st.routines.find row.id).map _ = _
      rw [hfind, Option.map_some, if_pos rfl]
    refine h.frame (w := row.workspaceID) hother (fun id' hid => ?_) (fun row' hrow' => ?_)
      fun hnone => ?_
    · rw [hroutines]
      exact (hupd id').trans (if_neg hid)
    · cases hmine.symm.trans hrow'
      rw [hsched]
      refine settled_upserted (r := scanRoutine row)
        ((updatedRow_active _ hd).trans rfl) rfl (Or.inr ⟨Or.inr hno, ?_⟩)
      refine hcur.imp_right fun hagrees => ?_
      have hsame : (RoutineTable.updatedRow (registered row.workspaceID (scanRoutine row))
          row).active = row.active :=
        (updatedRow_active _ hd).trans (scanRoutine_active hd)
      simp only [Row.Agrees, hsame]
      exact hagrees
    · cases hmine.symm.trans hnone
  · refine h.frame (w := row.workspaceID) hother (fun id' _ => by rw [hroutines])
      (fun row' hrow' => ?_) fun hnone => ?_
    · rw [hroutines] at hrow'
      cases hfind.symm.trans hrow'
      rw [hsched]
      exact settled_upserted (r := scanRoutine row) (scanRoutine_active hd).symm rfl
        (Or.inr ⟨Or.inl htsid, hcur⟩)
    · rw [hroutines] at hnone
      cases hfind.symm.trans hnone

/-- The sync loop: it keeps the invariant, marks every row it writes,
removes no schedule, and without errors leaves every scanned routine
with one. -/
theorem syncLoop_healthy (cfg : Config σ) (faults : SyncFaults) :
    ∀ (rs : List Routine) (st : State), Healthy st → (rs.map Routine.id).Nodup →
      (∀ r ∈ rs, ∃ row, st.routines.find row.id = some row
        ∧ RoutineTable.unscheduled row = true ∧ scanRoutine row = r) →
      Healthy (syncLoop cfg faults st rs).1
        ∧ (∀ row ∈ (syncLoop cfg faults st rs).1.routines.rows,
            row.temporalScheduleID = none → row ∈ st.routines.rows)
        ∧ (∀ k, st.schedules k ≠ none → (syncLoop cfg faults st rs).1.schedules k ≠ none)
        ∧ ((syncLoop cfg faults st rs).2 = [] → ∀ r ∈ rs,
            (syncLoop cfg faults st rs).1.schedules (scheduleID r.workspaceID r.id) ≠ none)
  | [], st, h, _, _ => ⟨h, fun _ hrow _ => hrow, fun _ hk => hk, fun _ _ hr => by cases hr⟩
  | r :: rs, st, h, hids, hscan => by
    obtain ⟨st₁, heq, -, hsched, hroutines, herrs⟩ := syncLoop_cons cfg st r faults rs
    rw [List.map_cons, List.nodup_cons] at hids
    obtain ⟨row, hfind, hun, rfl⟩ := hscan r List.mem_cons_self
    have hturn : Healthy st₁ := syncTurn_healthy h hfind hun hsched
      (hroutines.imp (fun hw => ⟨hw.1, hw.2.2⟩) And.right)
    obtain ⟨cron, hcron⟩ := Option.ne_none_iff_exists'.mp (unscheduled_iff.mp hun).1
    rw [← scanRoutine_active (unscheduled_iff.mp hun).2.2] at hcron
    have hkeeps : ∀ k, st.schedules k ≠ none → st₁.schedules k ≠ none := by
      intro k hk
      rw [hsched]
      by_cases hkey : k = scheduleID row.workspaceID row.id
      · subst hkey
        unfold upserted
        exact (onSchedule_self _ _ _).symm ▸ upsert_exists hcron (Or.inl hk)
      · exact (onSchedule_other hkey).symm ▸ hk
    have hrest : ∀ r ∈ rs, ∃ row, st₁.routines.find row.id = some row
        ∧ RoutineTable.unscheduled row = true ∧ scanRoutine row = r := by
      intro r hr
      obtain ⟨row', hfind', hun', rfl⟩ := hscan r (List.mem_cons_of_mem _ hr)
      refine ⟨row', ?_, hun', rfl⟩
      have hne : row'.id ≠ row.id := by
        intro hc
        exact hids.1 (List.mem_map.mpr ⟨_, hr, hc⟩)
      rcases hroutines with ⟨-, -, hupd⟩ | ⟨-, hupd⟩ <;> rw [hupd]
      · exact ((RoutineTable.find_update _ _).trans (if_neg hne)).trans hfind'
      · exact hfind'
    obtain ⟨ihh, ihrows, ihkeeps, iherrs⟩ := syncLoop_healthy cfg faults rs st₁ hturn hids.2 hrest
    rw [heq]
    refine ⟨ihh, fun row' hrow' hnone => ?_, fun k hk => ihkeeps k (hkeeps k hk),
      fun he r hr => ?_⟩
    · have hmem := ihrows row' hrow' hnone
      rcases hroutines with ⟨-, -, hupd⟩ | ⟨-, hupd⟩ <;> rw [hupd] at hmem
      · rcases Lib.Table.mem_update.mp hmem with ⟨hin, -⟩ | ⟨row₀, hrow₀, -, rfl⟩
        · exact hin
        · split at hnone
          · cases hnone
          · rename_i hws
            simpa [hws] using hrow₀
      · exact hmem
    · obtain ⟨hno, he'⟩ := herrs he
      rcases List.mem_cons.mp hr with rfl | hr
      · refine ihkeeps _ ?_
        rw [hsched]
        unfold upserted at hno ⊢
        rw [onSchedule_self]
        exact upsert_exists hcron (Or.inr hno)
      · exact iherrs he' r hr

/-- What one operation may suffer: an `Update` that is written keeps its
Temporal calls, unless its routine was never registered and has no
schedule; a `Delete` of a routine with a running schedule succeeds or
fails on both sides. All other calls may fail. -/
def Covered (cfg : Config σ) (st : State) : Op → Prop
  | .update now w r faults =>
    UpdateWrites cfg r now faults → ∀ row, st.routines.live w r.id = some row →
      row.temporalScheduleID = none ∧ st.schedules (scheduleID w r.id) = none
        ∨ faults.upsert.Served
  | .delete w id remove write => DeleteCovered st w id remove write
  | .create .. | .syncSchedules .. | .generateFireToken .. | .rotateFireToken ..
  | .revokeFireToken .. => True

theorem sync_healthy (h : Healthy st) (faults : SyncFaults) :
    Healthy (syncSchedules cfg st faults).1
      ∧ (cfg.scheduled = true → (syncSchedules cfg st faults).2 = none →
          Agreement (syncSchedules cfg st faults).1) := by
  rcases syncSchedules_cases cfg st faults with ⟨heq, hoff⟩ | ⟨-, -, heq, herrs⟩
  · rw [heq]
    refine ⟨h, fun hs hnil => ?_⟩
    rcases hoff with hoff | ⟨hne, -⟩
    · cases hoff.symm.trans hs
    · exact absurd hnil hne
  · obtain ⟨hh, hrows, -, hdone⟩ := syncLoop_healthy cfg faults st.routines.listUnscheduled st h
      st.routines.listUnscheduled_nodup (fun r hr => by
        obtain ⟨row, hrow, hun, hr⟩ := RoutineTable.mem_listUnscheduled.mp hr
        exact ⟨row, Lib.Table.find_eq_some_iff.mpr ⟨hrow, rfl⟩, hun, hr⟩)
    rw [heq]
    refine ⟨hh, fun _ hnil row hrow => ?_⟩
    have hset := hh.settled row.id row (Lib.Table.find_eq_some_iff.mpr ⟨hrow, rfl⟩)
    refine hset.resolve_right ?_
    -- a row still waiting was in the scan, and a scan without errors leaves a schedule
    rintro ⟨hact, htsid, hnone⟩
    have hd : row.deleted = false := by
      by_contra hc
      simp only [Bool.not_eq_false] at hc
      simp [Row.active, hc] at hact
    have hscan : scanRoutine row ∈ st.routines.listUnscheduled :=
      RoutineTable.mem_listUnscheduled.mpr
        ⟨row, hrows row hrow htsid, unscheduled_iff.mpr ⟨hact, htsid, hd⟩, rfl⟩
    exact hdone (herrs hnil) _ hscan hnone

theorem generate_healthy (h : Healthy st) (w : WorkspaceID) (id : String)
    (read random write : Fault) :
    Healthy (generateFireToken cfg st w id read random write).1 := by
  rcases generateFireToken_cases cfg st w id read random write with
    ⟨err, -, hroutines, hsch, -⟩ | ⟨row, hlive, heq⟩
  · exact ⟨fun id' row hrow => by
        rw [hroutines] at hrow
        rw [hsch]
        exact h.settled id' row hrow,
      fun w' id' hnone => by
        rw [hroutines] at hnone
        rw [hsch]
        exact h.fresh w' id' hnone⟩
  · rw [heq]
    exact writeBack_healthy (r := { scanRoutine row with
        fireTokenHash := some (tokenHash cfg (cfg.rand st.draws))
        hasFireToken := true }) h hlive (RoutineTable.live_mem hlive).2.1 rfl rfl rfl _

/-- The step lemma. -/
theorem Healthy.next (h : Healthy st) (hsched : cfg.scheduled = true) (op : Op)
    (hc : Covered cfg st op) : Healthy (step cfg st op) := by
  cases op with
  | create now newUUID w body faults => exact create_healthy h hsched now newUUID w body faults
  | update now w r faults => exact update_healthy h hsched now w r faults hc
  | delete w id remove write => exact delete_healthy h hsched w id remove write hc
  | syncSchedules faults => exact (sync_healthy h faults).1
  | generateFireToken w id read random write => exact generate_healthy h w id read random write
  | rotateFireToken w id read random write => exact generate_healthy h w id read random write
  | revokeFireToken w id read write =>
    unfold step
    rcases revokeFireToken_cases st w id read write with ⟨err, heq⟩ | ⟨row, hlive, heq⟩
    · simp only [heq]
      exact h
    · simp only [heq]
      exact writeBack_healthy h hlive (RoutineTable.live_mem hlive).2.1 rfl rfl rfl _

/-- Agreement after a recovery that reports no error. -/
def AgreesAfterSync (cfg : Config σ) (ops : List Op) (faults : SyncFaults) : Prop :=
  (syncSchedules cfg (Lib.run (step cfg) initialState ops) faults).2 = none →
    Agreement (syncSchedules cfg (Lib.run (step cfg) initialState ops) faults).1

/-- With Temporal configured, after every run whose steps are `Covered`, a
`SyncSchedules` that returns nil leaves rows and schedules in agreement. -/
theorem agrees_after_sync (cfg : Config σ) (hsched : cfg.scheduled = true) (ops : List Op)
    (hcov : Lib.Along (Covered cfg) (step cfg) initialState ops) (faults : SyncFaults) :
    AgreesAfterSync cfg ops faults := by
  have hh : Healthy (Lib.run (step cfg) initialState ops) :=
    Lib.inv_run (fun _ op h hc => h.next hsched op hc) ops initialState healthy_initialState hcov
  exact (sync_healthy hh faults).2 hsched

end

/-! ### Half done edits -/

def dailyBody : RoutineBody := { reportBody with scheduleCron := some "0 9 * * *" }

/-- The edit that moves the daily report to ten o'clock. -/
def laterReport : Routine :=
  { routineOfBody defaultWorkspaceID dailyBody with
    id := reportID
    scheduleCron := some "0 10 * * *" }

def unavailable : Fault := some "Unavailable: connection refused"

/-- Three runs that recovery does not repair: an edit whose upsert fails,
a deletion whose schedule stays, and one whose row stays. -/
theorem half_done_edits_stay :
    ¬ AgreesAfterSync exampleConfig
        [.create 0 reportID defaultWorkspaceID dailyBody {},
          .update 0 defaultWorkspaceID laterReport
            { upsert := { update := unavailable, create := unavailable } }] {}
      ∧ ¬ AgreesAfterSync exampleConfig
        [.create 0 reportID defaultWorkspaceID dailyBody {},
          .delete defaultWorkspaceID reportID unavailable none] {}
      ∧ ¬ AgreesAfterSync exampleConfig
        [.create 0 reportID defaultWorkspaceID dailyBody {},
          .delete defaultWorkspaceID reportID none unavailable] {} := by
  unfold AgreesAfterSync
  refine ⟨?_, ?_, ?_⟩ <;> decide

/-- A registration that failed is recovered. -/
theorem agrees_after_sync_created :
    AgreesAfterSync exampleConfig
      [.create 0 reportID defaultWorkspaceID dailyBody
        { upsert := { update := unavailable, create := unavailable } }] {} :=
  agrees_after_sync exampleConfig rfl
    [.create 0 reportID defaultWorkspaceID dailyBody
      { upsert := { update := unavailable, create := unavailable } }] ⟨trivial, trivial⟩ {}

end LendingClaw.Routines
