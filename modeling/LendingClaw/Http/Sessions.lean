/-
LendingClaw.Http.Sessions — `PUT /sessions/{key}`
(`internal/transport/http/handler/sessions.go`).

The handler is a sequence of calls of the session store; the faults of
the two look-ups, of the INSERT and of the `Save` are inputs. The loop
over `ExtraMeta` runs in the order of the entries, which stands for the
order Go takes them in.
-/
import LendingClaw.Http.Workspaces
import LendingClaw.Store.RoundTrip

namespace LendingClaw.Http

open LendingClaw.Store LendingClaw.Providers LendingClaw.Tools

/-- The decoded body; none is an absent or null `messages`. -/
structure SessionUpdate where
  messages : Option (List Message)
  extraMeta : AList (fun _ : String => String)

/-- `requestHasPermission`: nil permissions allow everything. -/
def requestHasPermission (permissions : Option (List String)) (resource : String) : Bool :=
  match permissions with
  | none => true
  | some perms => perms.any (fun perm => perm == resource)

/-- `isTitleOnlyUpdate`. -/
def isTitleOnlyUpdate (req : SessionUpdate) : Bool :=
  req.messages.isNone && req.extraMeta.entries.all (fun p => p.1 == "title")

structure UpdateFaults where
  lookup : Fault := none
  query : Fault := none
  insert : Fault := none
  save : Fault := none
  reread : Fault := none

/-- The loop over `ExtraMeta`. -/
def setMetaValues (s : MySQLSessionStore) (w : WorkspaceID) (key : String)
    (entries : List (Sigma fun _ : String => String)) : MySQLSessionStore :=
  entries.foldl (fun s p => s.setSessionMetaValue w key p.1 p.2) s

/-- `SessionsHandler.Update`; the session is what a 200 carries. -/
def SessionsHandler.update (s : MySQLSessionStore) (permissions : Option (List String))
    (w : WorkspaceID) (key : String) (body : Option SessionUpdate) (f : UpdateFaults) :
    MySQLSessionStore × Reply × Option SessionData :=
  if key = "" then (s, { status := 400, error := "session key is required" }, none)
  else
    match body with
    | none => (s, invalidBody, none)
    | some req =>
      if !isTitleOnlyUpdate req && !requestHasPermission permissions "tab:sessions:create" then
        (s, { status := 403
              error := "You are not authorized to access this resource: tab:sessions:create" },
          none)
      else
        match s.get w key f.lookup with
        | (s, none) => (s, { status := 404, error := "session not found" }, none)
        | (s, some _) =>
          let s :=
            match req.messages with
            | some msgs => s.setMessages w key msgs f.query f.insert
            | none => s
          let s := setMetaValues s w key req.extraMeta.entries
          match s.save w key f.save with
          | (s, some err) =>
            (s, { status := 500, error := "failed to save session: " ++ err }, none)
          | (s, none) =>
            let (s, updated) := s.get w key f.reread
            (s, { status := 200 }, updated)

/-! ## Runs -/

/-- A call of the store, or a request of the handler. -/
inductive SessionStep where
  | op (op : MySQLSessionStore.Op)
  | update (permissions : Option (List String)) (w : WorkspaceID) (key : String)
      (body : Option SessionUpdate) (f : UpdateFaults)

def sessionStep (s : MySQLSessionStore) : SessionStep → MySQLSessionStore
  | .op op => s.step op
  | .update permissions w key body f => (SessionsHandler.update s permissions w key body f).1

def SessionStep.InsertServed : SessionStep → Prop
  | .op call => call.InsertServed
  | .update _ _ _ _ f => f.insert = none

theorem setMetaValues_eq_run (s : MySQLSessionStore) (w : WorkspaceID) (key : String)
    (entries : List (Sigma fun _ : String => String)) :
    setMetaValues s w key entries
      = Lib.run MySQLSessionStore.step s
          (entries.map fun p => .setSessionMetaValue w key p.1 p.2) := by
  simp only [setMetaValues, Lib.run, List.foldl_map]
  rfl

/-- The store calls of a request that finds its session. -/
def updateOps (w : WorkspaceID) (key : String) (req : SessionUpdate) (f : UpdateFaults) :
    List MySQLSessionStore.Op :=
  (req.messages.map fun msgs => .setMessages w key msgs f.query f.insert).toList
    ++ (req.extraMeta.entries.map fun p => .setSessionMetaValue w key p.1 p.2)
    ++ [.save w key f.save]

theorem updateOps_served (w : WorkspaceID) (key : String) (req : SessionUpdate)
    {f : UpdateFaults} (hf : f.insert = none) :
    ∀ op ∈ updateOps w key req f, op.InsertServed := by
  intro op hop
  simp only [updateOps, List.mem_append, Option.mem_toList,
    Option.map_eq_some_iff, List.mem_map, List.mem_singleton] at hop
  obtain (⟨msgs, -, rfl⟩ | ⟨p, -, rfl⟩) | rfl := hop
  · exact hf
  · trivial
  · trivial

theorem run_updateOps (s : MySQLSessionStore) (w : WorkspaceID) (key : String)
    (req : SessionUpdate) (f : UpdateFaults) :
    Lib.run MySQLSessionStore.step s (updateOps w key req f)
      = ((setMetaValues
          (match req.messages with
            | some msgs => s.setMessages w key msgs f.query f.insert
            | none => s)
          w key req.extraMeta.entries).save w key f.save).1 := by
  rw [updateOps, Lib.run_append, Lib.run_append, ← setMetaValues_eq_run]
  cases req.messages with
  | none => rfl
  | some msgs => rfl

/-- A request is a sequence of store calls, of which only `SetMessages`
can insert a row. -/
theorem update_eq_run (s : MySQLSessionStore) (permissions : Option (List String))
    (w : WorkspaceID) (key : String) (body : Option SessionUpdate) (f : UpdateFaults)
    (hf : f.insert = none) :
    ∃ ops : List MySQLSessionStore.Op, (∀ op ∈ ops, op.InsertServed)
      ∧ (SessionsHandler.update s permissions w key body f).1
        = Lib.run MySQLSessionStore.step s ops := by
  have hnothing : ∃ ops : List MySQLSessionStore.Op, (∀ op ∈ ops, op.InsertServed)
      ∧ s = Lib.run MySQLSessionStore.step s ops := ⟨[], by simp, rfl⟩
  unfold SessionsHandler.update
  split
  · exact hnothing
  · cases body with
    | none => exact hnothing
    | some req =>
      simp only
      split
      · exact hnothing
      · cases hget : s.get w key f.lookup with
        | mk s₁ found =>
          have hs₁ : s₁ = MySQLSessionStore.step s (.get w key f.lookup) := by
            rw [MySQLSessionStore.step, hget]
          cases found with
          | none =>
            refine ⟨[.get w key f.lookup], ?_, hs₁⟩
            simp [MySQLSessionStore.Op.InsertServed]
          | some data =>
            simp only
            have hserved := updateOps_served w key req hf
            have hall : ∀ op ∈ .get w key f.lookup :: updateOps w key req f,
                op.InsertServed := by
              intro op hop
              cases hop with
              | head => trivial
              | tail _ hop => exact hserved op hop
            have hrun : ∀ s₂ err,
                (setMetaValues
                  (match req.messages with
                    | some msgs => s₁.setMessages w key msgs f.query f.insert
                    | none => s₁)
                  w key req.extraMeta.entries).save w key f.save = (s₂, err) →
                s₂ = Lib.run MySQLSessionStore.step s
                  (.get w key f.lookup :: updateOps w key req f) := by
              intro s₂ err hsave
              rw [Lib.run_cons, ← hs₁, run_updateOps, hsave]
            split
            · rename_i s₂ err hsave
              exact ⟨_, hall, hrun s₂ _ hsave⟩
            · rename_i s₂ hsave
              refine ⟨(.get w key f.lookup :: updateOps w key req f) ++ [.get w key f.reread],
                ?_, ?_⟩
              · intro op hop
                rcases List.mem_append.mp hop with hop | hop
                · exact hall op hop
                · rw [List.mem_singleton.mp hop]
                  trivial
              · rw [Lib.run_append, ← hrun s₂ _ hsave]
                rfl

theorem rowsExist_sessionStep {s : MySQLSessionStore} (h : s.RowsExist) (x : SessionStep)
    (hx : x.InsertServed) : (sessionStep s x).RowsExist := by
  cases x with
  | op op => exact h.step op hx
  | update permissions w key body f =>
    obtain ⟨ops, hserved, hrun⟩ := update_eq_run s permissions w key body f hx
    rw [sessionStep, hrun]
    exact Lib.inv_run_of_forall MySQLSessionStore.RowsExist
      (fun _ op h hop => h.step op hop) ops s h hserved

/-- After every run of store calls and requests, a session that is saved
is the same when it is loaded in a new process; only the free keys under
the names of fixed fields are gone. -/
theorem session_round_trip (db : SessionTable) (steps : List SessionStep)
    (hserved : ∀ x ∈ steps, x.InsertServed) (w : WorkspaceID) (key : String)
    (hdata : ∀ data, (Lib.run sessionStep (newMySQLSessionStore db) steps).cached w key
      = some data → Storable data) :
    (Lib.run sessionStep (newMySQLSessionStore db) steps).RoundTrips w key
        (fun k => k ∉ MySQLSessionStore.fieldNames)
      ∧ ∀ k ∈ MySQLSessionStore.fieldNames,
        ((Lib.run sessionStep (newMySQLSessionStore db) steps).coldStart w key).getSessionMetaValue
          w key k = "" := by
  have hrows : (Lib.run sessionStep (newMySQLSessionStore db) steps).RowsExist :=
    Lib.inv_run_of_forall MySQLSessionStore.RowsExist
      (fun _ x h hx => rowsExist_sessionStep h x hx) steps _
      (MySQLSessionStore.rowsExist_new db) hserved
  refine ⟨hrows.roundTrips hdata, ?_⟩
  intro k hk
  exact MySQLSessionStore.getSessionMetaValue_coldStart_field _ w key hk

/-! ### A free key under a reserved name -/

/-- A client names its channel in `extra_meta`. -/
def channelUpdate : SessionUpdate :=
  { messages := none
    extraMeta := AList.singleton "channel" "web" }

def channelSteps : List SessionStep :=
  [.op (.getOrCreate defaultWorkspaceID "s1" "alice" "user" none none),
    .update none defaultWorkspaceID "s1" (some channelUpdate) {}]

/-- The key "channel" is set, and the next process reads it as empty. -/
theorem reserved_key_not_restored :
    ¬ (Lib.run sessionStep (newMySQLSessionStore Lib.Table.empty) channelSteps).RoundTrips
      defaultWorkspaceID "s1" (fun _ => True) := by
  intro h
  obtain ⟨data, hdata⟩ : ∃ data,
      (Lib.run sessionStep (newMySQLSessionStore Lib.Table.empty) channelSteps).cached
        defaultWorkspaceID "s1" = some data := ⟨_, rfl⟩
  have hkey := (h data hdata).2 "channel" trivial
  revert hkey
  decide

/-- The law for the same run: everything else is restored. -/
theorem session_round_trip_channel :
    (Lib.run sessionStep (newMySQLSessionStore Lib.Table.empty) channelSteps).RoundTrips
        defaultWorkspaceID "s1" (fun k => k ∉ MySQLSessionStore.fieldNames)
      ∧ ∀ k ∈ MySQLSessionStore.fieldNames,
        ((Lib.run sessionStep (newMySQLSessionStore Lib.Table.empty) channelSteps).coldStart
          defaultWorkspaceID "s1").getSessionMetaValue defaultWorkspaceID "s1" k = "" := by
  apply session_round_trip
  · intro x hx
    simp only [channelSteps, List.mem_cons, List.not_mem_nil, or_false] at hx
    obtain rfl | rfl := hx
    · rfl
    · rfl
  · intro data hdata
    cases hdata
    exact { title := by decide, inputTokens := by decide, outputTokens := by decide }

end LendingClaw.Http
