/-
LendingClaw.Mcp.Manager — the MCP function table and the manager that
mirrors it into the tool registry (`internal/mcp/manager.go`,
`internal/store/mysql/mcp_servers.go`).

Servers are known by (workspace, name); the manager remembers for each
loaded one its connection and the tool names it registered. A connection
is a number, a fresh one for each `newConn`. The statements on
`mcp_functions` are total functions on the table: only runs whose store
calls succeed are modelled, so the one store error left is the one
`SetFunctionEnabled` makes of an UPDATE that changed no row (the
driver's `RowsAffected` counts changed rows).
-/
import LendingClaw.Tools.Registry
import LendingClaw.Lib.Runs
import LendingClaw.Lib.Table
import Mathlib.Data.List.Sort

namespace LendingClaw.Mcp

open LendingClaw.Tools LendingClaw.Store

/-! ## The function table -/

/-- `store.MCPFunction`, less the schema and the timestamp. -/
structure MCPFunction where
  workspaceID : WorkspaceID
  serverName : String
  name : String
  description : String
  enabled : Bool
  deriving DecidableEq

/-- The primary key of `mcp_functions`. -/
def MCPFunction.key (f : MCPFunction) : WorkspaceID × String × String :=
  (f.workspaceID, f.serverName, f.name)

/-- `mcp_functions`. -/
abbrev FunctionTable := Lib.Table MCPFunction (WorkspaceID × String × String) MCPFunction.key

/-- `ListFunctions`. -/
def FunctionTable.listFunctions (t : FunctionTable) (workspaceID : WorkspaceID)
    (serverName : String) : List MCPFunction :=
  (t.select (fun f => f.workspaceID == workspaceID && f.serverName == serverName)).insertionSort
    (fun f g => f.name ≤ g.name)

/-- The upsert of `SyncFunctions`: a new row is enabled, a present one
keeps its flag. -/
def FunctionTable.upsertFunction (workspaceID : WorkspaceID) (serverName : String)
    (t : FunctionTable) (f : String × String) : FunctionTable :=
  t.upsert
    { workspaceID := workspaceID, serverName := serverName, name := f.1, description := f.2
      enabled := true }
    (fun r => { r with description := f.2 }) (fun _ => rfl)

/-- `SyncFunctions`, on the names and descriptions of the discovery: the
server's rows that it does not list go, the others are upserted. -/
def FunctionTable.syncFunctions (t : FunctionTable) (workspaceID : WorkspaceID)
    (serverName : String) (funcs : List (String × String)) : FunctionTable :=
  funcs.foldl (upsertFunction workspaceID serverName)
    (t.delete (fun f => f.workspaceID == workspaceID && f.serverName == serverName
      && !(funcs.map Prod.fst).contains f.name))

/-- The store's `SetFunctionEnabled`: an error when no row changes. -/
def FunctionTable.setFunctionEnabled (t : FunctionTable) (workspaceID : WorkspaceID)
    (serverName funcName : String) (enabled : Bool) : Except String FunctionTable :=
  if t.rows.any (fun r => r.key == (workspaceID, serverName, funcName) && r.enabled != enabled)
  then
    .ok (t.update (workspaceID, serverName, funcName)
      (fun r => { r with enabled := enabled }) (fun _ => rfl))
  else .error ("mcp function " ++ serverName ++ "/" ++ funcName ++ " not found")

/-- The table has function `n` of the server enabled. -/
def FunctionTable.Enables (t : FunctionTable) (w : WorkspaceID) (srv n : String) : Prop :=
  ∃ f ∈ t.rows, f.key = (w, srv, n) ∧ f.enabled = true

/-! ### What the statements do to the rows -/

namespace FunctionTable

variable {t t' : FunctionTable} {w : WorkspaceID} {srv n fn : String} {f : MCPFunction}
  {enabled : Bool}

theorem mem_listFunctions :
    f ∈ t.listFunctions w srv ↔ f ∈ t.rows ∧ f.workspaceID = w ∧ f.serverName = srv := by
  unfold listFunctions Lib.Table.select
  rw [(List.perm_insertionSort _ _).mem_iff, List.mem_filter]
  simp

/-- The functions of one server have different names. -/
theorem listFunctions_names (t : FunctionTable) (w : WorkspaceID) (srv : String) :
    ((t.listFunctions w srv).map MCPFunction.name).Nodup := by
  have hkeys : ((t.listFunctions w srv).map MCPFunction.key).Nodup := by
    refine (((List.perm_insertionSort _ _).map _).nodup_iff).mpr ?_
    exact t.unique.sublist (List.filter_sublist.map _)
  have hmap : (t.listFunctions w srv).map MCPFunction.key
      = ((t.listFunctions w srv).map MCPFunction.name).map (fun n => (w, srv, n)) := by
    rw [List.map_map]
    refine List.map_congr_left fun f hf => ?_
    obtain ⟨-, hw, hs⟩ := mem_listFunctions.mp hf
    simp [MCPFunction.key, hw, hs]
  rw [hmap] at hkeys
  exact List.Nodup.of_map _ hkeys

theorem mem_upserts_other :
    ∀ (gs : List (String × String)) (t : FunctionTable), (∀ g ∈ gs, f.key ≠ (w, srv, g.1)) →
      (f ∈ (gs.foldl (upsertFunction w srv) t).rows ↔ f ∈ t.rows)
  | [], _, _ => Iff.rfl
  | g :: gs, t, h => by
      rw [List.foldl_cons, mem_upserts_other gs _ fun g' hg => h g' (List.mem_cons_of_mem _ hg)]
      exact Lib.Table.mem_upsert_other (h g List.mem_cons_self)

theorem enables_upserts :
    ∀ (gs : List (String × String)) (t : FunctionTable), t.Enables w srv n →
      Enables (gs.foldl (upsertFunction w srv) t) w srv n
  | [], _, h => h
  | g :: gs, t, ⟨f, hf, hk, he⟩ => by
      refine enables_upserts gs _ ?_
      rcases Lib.Table.mem_upsert_of_mem hf with hmem | hmem
      · exact ⟨f, hmem, hk, he⟩
      · exact ⟨_, hmem, hk, he⟩

/-- A sync touches the rows of its server only. -/
theorem mem_syncFunctions_other {funcs : List (String × String)}
    (hf : ¬ (f.workspaceID = w ∧ f.serverName = srv)) :
    f ∈ (t.syncFunctions w srv funcs).rows ↔ f ∈ t.rows := by
  unfold syncFunctions
  rw [mem_upserts_other _ _ fun g _ hk => ?_, Lib.Table.mem_delete]
  · refine and_iff_left ?_
    by_contra hc
    simp only [Bool.not_eq_false, Bool.and_eq_true, beq_iff_eq] at hc
    exact hf hc.1
  · simp only [MCPFunction.key, Prod.mk.injEq] at hk
    exact hf ⟨hk.1, hk.2.1⟩

/-- Of the functions that were enabled, a sync keeps those it lists. -/
theorem enables_syncFunctions {funcs : List (String × String)} (h : t.Enables w srv n) :
    (t.syncFunctions w srv funcs).Enables w srv n ↔ n ∈ funcs.map Prod.fst := by
  unfold syncFunctions
  constructor
  · rintro ⟨f, hf, hk, -⟩
    by_contra hn
    rw [mem_upserts_other _ _ fun g hg hc => hn ?_, Lib.Table.mem_delete] at hf
    · simp only [MCPFunction.key, Prod.mk.injEq] at hk
      simp [hk, hn] at hf
    · rw [hk, Prod.mk.injEq, Prod.mk.injEq] at hc
      exact List.mem_map.mpr ⟨g, hg, hc.2.2.symm⟩
  · intro hn
    obtain ⟨f, hf, hk, he⟩ := h
    refine enables_upserts _ _ ⟨f, Lib.Table.mem_delete.mpr ⟨hf, ?_⟩, hk, he⟩
    simp only [MCPFunction.key, Prod.mk.injEq] at hk
    rw [hk.2.2, List.contains_iff_mem.mpr hn]
    simp

/-- `SetFunctionEnabled` succeeds on a row whose flag it flips. -/
theorem setFunctionEnabled_ok (h : t.setFunctionEnabled w srv fn enabled = .ok t') :
    t' = t.update (w, srv, fn) (fun r => { r with enabled := enabled }) (fun _ => rfl)
      ∧ ∃ r ∈ t.rows, r.key = (w, srv, fn) ∧ r.enabled ≠ enabled := by
  unfold setFunctionEnabled at h
  split at h
  · rename_i hany
    cases h
    obtain ⟨r, hr, hk⟩ := List.any_eq_true.mp hany
    rw [Bool.and_eq_true, beq_iff_eq, bne_iff_ne] at hk
    exact ⟨rfl, r, hr, hk⟩
  · cases h

/-- Disabling an enabled function succeeds. -/
theorem setFunctionEnabled_disable (h : t.Enables w srv n) :
    ∃ t', t.setFunctionEnabled w srv n false = .ok t' := by
  obtain ⟨f, hf, hk, he⟩ := h
  unfold setFunctionEnabled
  rw [if_pos (List.any_eq_true.mpr ⟨f, hf, by simp [hk, he]⟩)]
  exact ⟨_, rfl⟩

/-- After the update, a function is enabled as it was, the toggled one as
it was set. -/
theorem enables_setFunctionEnabled (h : t.setFunctionEnabled w srv fn enabled = .ok t') :
    t'.Enables w srv n ↔ if n = fn then enabled = true else t.Enables w srv n := by
  obtain ⟨rfl, r, hr, hk, -⟩ := setFunctionEnabled_ok h
  by_cases hn : n = fn
  · subst hn
    rw [if_pos rfl]
    constructor
    · rintro ⟨f, hf, hfk, he⟩
      rcases Lib.Table.mem_update.mp hf with ⟨-, hne⟩ | ⟨r₀, -, -, rfl⟩
      · exact absurd hfk hne
      · exact he
    · intro he
      exact ⟨_, Lib.Table.mem_update.mpr (Or.inr ⟨r, hr, hk, rfl⟩), hk, he⟩
  · rw [if_neg hn]
    refine exists_congr fun f => ?_
    have hrow : f.key = (w, srv, n) → (f ∈ (t.update (w, srv, fn)
        (fun r => { r with enabled := enabled }) (fun _ => rfl)).rows ↔ f ∈ t.rows) :=
      fun hfk => Lib.Table.mem_update_other (by rw [hfk]; simpa using hn)
    exact ⟨fun ⟨hf, hfk, he⟩ => ⟨(hrow hfk).mp hf, hfk, he⟩,
      fun ⟨hf, hfk, he⟩ => ⟨(hrow hfk).mpr hf, hfk, he⟩⟩

end FunctionTable

/-! ## The manager -/

/-- `serverState`. -/
structure ServerState where
  workspaceID : WorkspaceID
  serverName : String
  conn : Nat
  toolNames : List String
  deriving DecidableEq

/-- `Manager`, with the rows of its store and the next connection. -/
structure Manager where
  store : FunctionTable
  toolsR : Registry
  servers : AList (fun _ : String => ServerState)
  nextConn : Nat

/-- `stateKey`. -/
def stateKey (workspaceID : WorkspaceID) (serverName : String) : String :=
  Lib.nulKey workspaceID.val serverName

/-- `NewManager`. -/
def newManager (store : FunctionTable) (reg : Registry) : Manager :=
  { store := store, toolsR := reg, servers := ∅, nextConn := 0 }

/-- `Manager.tryRegister`: refused when a platform tool owns the name. -/
def tryRegister (reg : Registry) (workspaceID : WorkspaceID) (serverName : String)
    (conn : Nat) (f : MCPFunction) : Registry × Bool :=
  if reg.freeForRemote workspaceID.val f.name then
    (reg.registerForWorkspace workspaceID.val
      (.remote (newRemoteToolFromCache serverName conn f.name f.description)), true)
  else (reg, false)

/-- The loop of `Manager.Remove`. -/
def unregisterAll (reg : Registry) (workspaceID : WorkspaceID) (names : List String) :
    Registry :=
  names.foldl (fun r n => (r.unregisterForWorkspace workspaceID.val n).1) reg

/-- `Manager.Remove`. -/
def Manager.remove (m : Manager) (workspaceID : WorkspaceID) (serverName : String) :
    Manager :=
  match m.servers.lookup (stateKey workspaceID serverName) with
  | none => m
  | some st =>
    { m with
      servers := m.servers.erase (stateKey workspaceID serverName)
      toolsR := unregisterAll m.toolsR workspaceID st.toolNames }

/-- The loop of `LoadFromCache`; the list is `state.toolNames`. -/
def registerEnabled (workspaceID : WorkspaceID) (serverName : String) (conn : Nat) :
    Registry → List MCPFunction → Registry × List String
  | reg, [] => (reg, [])
  | reg, f :: fs =>
    if !f.enabled then registerEnabled workspaceID serverName conn reg fs
    else
      match tryRegister reg workspaceID serverName conn f with
      | (reg, false) => registerEnabled workspaceID serverName conn reg fs
      | (reg, true) =>
        let (reg, names) := registerEnabled workspaceID serverName conn reg fs
        (reg, f.name :: names)

/-- `Manager.LoadFromCache`. -/
def Manager.loadFromCache (m : Manager) (workspaceID : WorkspaceID) (serverName : String) :
    Manager :=
  let m := m.remove workspaceID serverName
  let funcs := m.store.listFunctions workspaceID serverName
  let (reg, names) := registerEnabled workspaceID serverName m.nextConn m.toolsR funcs
  { m with
    toolsR := reg
    nextConn := m.nextConn + 1
    servers := m.servers.insert (stateKey workspaceID serverName)
      { workspaceID := workspaceID, serverName := serverName, conn := m.nextConn
        toolNames := names } }

/-- `NewRemoteTool` on one entry of a tools/list answer. -/
def discoveredFunction (serverName : String) (t : String × String) : String × String :=
  (t.1, if t.2 = "" then "MCP tool from server " ++ serverName else t.2)

/-- `Manager.Sync`. `listTools` is the server's answer. -/
def Manager.sync (m : Manager) (workspaceID : WorkspaceID) (serverName : String)
    (listTools : Except String (List (String × String))) : Manager × Option String :=
  let m := { m with nextConn := m.nextConn + 1 }
  match listTools with
  | .error err => (m, some ("list tools on " ++ serverName ++ ": " ++ err))
  | .ok mcpTools =>
    let discovered := mcpTools.map (discoveredFunction serverName)
    let store := m.store.syncFunctions workspaceID serverName discovered
    ({ m with store := store }.loadFromCache workspaceID serverName, none)

/-- `appendUnique`. -/
def appendUnique (s : List String) (v : String) : List String :=
  if s.contains v then s else s ++ [v]

/-- `removeStr`: the first occurrence. -/
def removeStr (s : List String) (v : String) : List String := s.erase v

/-- `Manager.SetFunctionEnabled`. -/
def Manager.setFunctionEnabled (m : Manager) (workspaceID : WorkspaceID)
    (serverName funcName : String) (enabled : Bool) : Manager × Option String :=
  match m.store.setFunctionEnabled workspaceID serverName funcName enabled with
  | .error err => (m, some err)
  | .ok store =>
    let m := { m with store := store }
    match m.servers.lookup (stateKey workspaceID serverName) with
    | none => (m, none)
    | some st =>
      if enabled then
        match (m.store.listFunctions workspaceID serverName).find? (·.name == funcName) with
        | none => (m, some ("function " ++ serverName ++ "/" ++ funcName ++ " not found"))
        | some target =>
          match tryRegister m.toolsR workspaceID serverName st.conn target with
          | (_, false) => (m, none)
          | (reg, true) =>
            ({ m with
               toolsR := reg
               servers := m.servers.insert (stateKey workspaceID serverName)
                { st with toolNames := appendUnique st.toolNames funcName } }, none)
      else
        ({ m with
           toolsR := (m.toolsR.unregisterForWorkspace workspaceID.val funcName).1
           servers := m.servers.insert (stateKey workspaceID serverName)
            { st with toolNames := removeStr st.toolNames funcName } }, none)

/-- One operation of the manager. -/
inductive Op where
  | loadFromCache (workspaceID : WorkspaceID) (serverName : String)
  | sync (workspaceID : WorkspaceID) (serverName : String)
      (listTools : Except String (List (String × String)))
  | setFunctionEnabled (workspaceID : WorkspaceID) (serverName funcName : String)
      (enabled : Bool)
  | remove (workspaceID : WorkspaceID) (serverName : String)

def Manager.step (m : Manager) : Op → Manager
  | .loadFromCache w srv => m.loadFromCache w srv
  | .sync w srv listTools => (m.sync w srv listTools).1
  | .setFunctionEnabled w srv f enabled => (m.setFunctionEnabled w srv f enabled).1
  | .remove w srv => m.remove w srv

end LendingClaw.Mcp
