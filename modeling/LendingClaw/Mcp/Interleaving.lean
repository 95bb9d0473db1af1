/-
LendingClaw.Mcp.Interleaving — the operations of the MCP manager as they
run side by side (`internal/mcp/manager.go`).

A call is a sequence of steps, each one a section under the manager's
lock, a section under the registry's lock, a statement of the store or
an exchange with the server; between two steps any other call can take
its own. The `serverState` objects are shared: a call that looked one up
keeps it after another has taken it out of the map. `Stage` says where a
call is and what it holds in its local variables.

The read of `st.toolNames` by the loop of `Remove` is a step of its own,
which copies the names. The connection `Sync` opens for its own question
is left out, no tool holds it.
-/
import LendingClaw.Mcp.ManagerTheorems

namespace LendingClaw.Mcp

open LendingClaw.Tools LendingClaw.Store

/-! ## Calls -/

/-- Where a call is: the step it takes next. -/
inductive Stage where
  /-- `Sync`, with what the server will answer. -/
  | listTools (answer : Except String (List (String × String)))
  | syncFunctions (mcpTools : List (String × String))
  /-- The locked section of `Remove`, in a reload or alone. -/
  | detach (reload : Bool)
  | collect (st : Nat) (reload : Bool)
  | unregister (conn : Nat) (names : List String) (reload : Bool)
  | listFunctions
  | tryRegister (conn : Nat) (funcs : List MCPFunction) (toolNames : List String)
  | register (conn : Nat) (f : MCPFunction) (funcs : List MCPFunction) (toolNames : List String)
  /-- `SetFunctionEnabled` up to the store. -/
  | setEnabled (funcName : String) (enabled : Bool)
  | lookUp (funcName : String) (enabled : Bool)
  | reread (st : Nat) (funcName : String)
  | tryEnable (st : Nat) (f : MCPFunction)
  | enable (st : Nat) (f : MCPFunction)
  | append (st : Nat) (funcName : String)
  | disable (st : Nat) (funcName : String)
  | removeName (st : Nat) (funcName : String)
  | returned (err : Option String)

/-- A call on a server. `changed` records that it has taken a tool out of
the registry or put one in. -/
structure Call where
  workspaceID : WorkspaceID
  serverName : String
  stage : Stage
  changed : Bool := false

/-- A call as it starts. -/
def Op.call : Op → Call
  | .loadFromCache w srv => { workspaceID := w, serverName := srv, stage := .detach true }
  | .sync w srv listTools => { workspaceID := w, serverName := srv, stage := .listTools listTools }
  | .setFunctionEnabled w srv fn enabled =>
    { workspaceID := w, serverName := srv, stage := .setEnabled fn enabled }
  | .remove w srv => { workspaceID := w, serverName := srv, stage := .detach false }

/-- `Conn`. -/
structure Conn where
  workspaceID : WorkspaceID
  serverName : String
  closed : Bool := false
  deriving DecidableEq

/-- The manager with its store and registry, the connections and the
`serverState` objects made so far, each known by its place, and the
calls. -/
structure Shared where
  store : FunctionTable
  toolsR : Registry
  conns : List Conn
  states : List ServerState
  servers : AList (fun _ : String => Nat)
  calls : List Call

def Shared.start (store : FunctionTable) (reg : Registry) : Shared :=
  { store := store, toolsR := reg, conns := [], states := [], servers := ∅, calls := [] }

/-! ## Steps -/

namespace Shared

variable (s : Shared) (i : Nat) (c : Call)

/-- The i-th call comes to a stage. -/
def goTo (stage : Stage) : Shared :=
  { s with calls := s.calls.set i { c with stage := stage } }

/-- It has changed the registry, or not. -/
def goToChanged (changed : Bool) (stage : Stage) : Shared :=
  { s with calls := s.calls.set i { c with stage := stage, changed := c.changed || changed } }

/-- After `Remove`. -/
def afterRemove (reload : Bool) : Stage := if reload then .listFunctions else .returned none

/-- `ListTools`, in `Sync`. -/
def listTools : Except String (List (String × String)) → Shared
  | .error err => s.goTo i c (.returned (some ("list tools on " ++ c.serverName ++ ": " ++ err)))
  | .ok mcpTools => s.goTo i c (.syncFunctions mcpTools)

/-- `SyncFunctions`, in `Sync`. -/
def syncFunctions (mcpTools : List (String × String)) : Fault → Shared
  | some err =>
    s.goTo i c (.returned
      (some ("persist discovered functions for " ++ c.serverName ++ ": " ++ err)))
  | none =>
    let discovered := mcpTools.map (discoveredFunction c.serverName)
    { s with store := s.store.syncFunctions c.workspaceID c.serverName discovered }.goTo i c
      (.detach true)

/-- The locked section of `Remove`. -/
def detach (reload : Bool) : Shared :=
  match s.servers.lookup (stateKey c.workspaceID c.serverName) with
  | none => s.goTo i c (afterRemove reload)
  | some st =>
    { s with servers := s.servers.erase (stateKey c.workspaceID c.serverName) }.goTo i c
      (.collect st reload)

/-- The loop of `Remove` reads its names. -/
def collect (st : Nat) (reload : Bool) : Shared :=
  match s.states[st]? with
  | none => s
  | some state => s.goTo i c (.unregister state.conn state.toolNames reload)

/-- One round of the loop, and `Close` after the last. -/
def unregister (conn : Nat) (reload : Bool) : List String → Shared
  | name :: names =>
    let (reg, removed) := s.toolsR.unregisterForWorkspace c.workspaceID.val name
    { s with toolsR := reg }.goToChanged i c removed (.unregister conn names reload)
  | [] =>
    { s with conns := s.conns.modify conn fun k => { k with closed := true } }.goTo i c
      (afterRemove reload)

/-- `ListFunctions` and `newConn`, in `LoadFromCache`. -/
def listFunctions : Fault → Shared
  | some err =>
    s.goTo i c (.returned (some ("list cached functions for " ++ c.serverName ++ ": " ++ err)))
  | none =>
    let funcs := (s.store.listFunctions c.workspaceID c.serverName).filter fun f => f.enabled
    let conn : Conn := { workspaceID := c.workspaceID, serverName := c.serverName }
    { s with conns := s.conns ++ [conn] }.goTo i c (.tryRegister s.conns.length funcs [])

/-- The check of `tryRegister` for the next function; after the last the
new state goes into the map. -/
def tryRegister (conn : Nat) (toolNames : List String) : List MCPFunction → Shared
  | f :: funcs =>
    if s.toolsR.freeForRemote c.workspaceID.val f.name then
      s.goTo i c (.register conn f funcs toolNames)
    else s.goTo i c (.tryRegister conn funcs toolNames)
  | [] =>
    let state : ServerState :=
      { workspaceID := c.workspaceID, serverName := c.serverName, conn := conn
        toolNames := toolNames }
    { s with
      states := s.states ++ [state]
      servers := s.servers.insert (stateKey c.workspaceID c.serverName) s.states.length }.goTo i c
        (.returned none)

/-- `RegisterForWorkspace`, in `LoadFromCache`. -/
def register (conn : Nat) (f : MCPFunction) (funcs : List MCPFunction) (toolNames : List String) :
    Shared :=
  { s with
    toolsR := s.toolsR.registerForWorkspace c.workspaceID.val (toolOf c.serverName conn f) }.goToChanged
      i c true (.tryRegister conn funcs (toolNames ++ [f.name]))

/-- The statement of `SetFunctionEnabled`. -/
def setEnabled (funcName : String) (enabled : Bool) (fault : Fault) : Shared :=
  match fault with
  | some err => s.goTo i c (.returned (some err))
  | none =>
    match s.store.setFunctionEnabled c.workspaceID c.serverName funcName enabled with
    | .error err => s.goTo i c (.returned (some err))
    | .ok store => { s with store := store }.goTo i c (.lookUp funcName enabled)

/-- Its look-up. -/
def lookUp (funcName : String) (enabled : Bool) : Shared :=
  match s.servers.lookup (stateKey c.workspaceID c.serverName) with
  | none => s.goTo i c (.returned none)
  | some st => s.goTo i c (if enabled then .reread st funcName else .disable st funcName)

/-- Its `ListFunctions`. -/
def reread (st : Nat) (funcName : String) : Fault → Shared
  | some err =>
    s.goTo i c (.returned (some ("reload functions for " ++ c.serverName ++ ": " ++ err)))
  | none =>
    match (s.store.listFunctions c.workspaceID c.serverName).find? (·.name == funcName) with
    | none =>
      s.goTo i c (.returned (some ("function " ++ c.serverName ++ "/" ++ funcName ++ " not found")))
    | some target => s.goTo i c (.tryEnable st target)

/-- The check of its `tryRegister`. -/
def tryEnable (st : Nat) (f : MCPFunction) : Shared :=
  if s.toolsR.freeForRemote c.workspaceID.val f.name then s.goTo i c (.enable st f)
  else s.goTo i c (.returned none)

/-- Its `RegisterForWorkspace`, with the connection of the state it found. -/
def enable (st : Nat) (f : MCPFunction) : Shared :=
  match s.states[st]? with
  | none => s
  | some state =>
    { s with
      toolsR := s.toolsR.registerForWorkspace c.workspaceID.val
        (toolOf c.serverName state.conn f) }.goToChanged i c true (.append st f.name)

def append (st : Nat) (funcName : String) : Shared :=
  { s with
    states := s.states.modify st fun state =>
      { state with toolNames := appendUnique state.toolNames funcName } }.goTo i c (.returned none)

/-- Its `UnregisterForWorkspace`. -/
def disable (st : Nat) (funcName : String) : Shared :=
  let (reg, removed) := s.toolsR.unregisterForWorkspace c.workspaceID.val funcName
  { s with toolsR := reg }.goToChanged i c removed (.removeName st funcName)

def removeName (st : Nat) (funcName : String) : Shared :=
  { s with
    states := s.states.modify st fun state =>
      { state with toolNames := removeStr state.toolNames funcName } }.goTo i c (.returned none)

/-- The next step of a call. -/
def advance (fault : Fault) : Shared :=
  match c.stage with
  | .listTools answer => s.listTools i c answer
  | .syncFunctions mcpTools => s.syncFunctions i c mcpTools fault
  | .detach reload => s.detach i c reload
  | .collect st reload => s.collect i c st reload
  | .unregister conn names reload => s.unregister i c conn reload names
  | .listFunctions => s.listFunctions i c fault
  | .tryRegister conn funcs toolNames => s.tryRegister i c conn toolNames funcs
  | .register conn f funcs toolNames => s.register i c conn f funcs toolNames
  | .setEnabled fn enabled => s.setEnabled i c fn enabled fault
  | .lookUp fn enabled => s.lookUp i c fn enabled
  | .reread st fn => s.reread i c st fn fault
  | .tryEnable st f => s.tryEnable i c st f
  | .enable st f => s.enable i c st f
  | .append st fn => s.append i c st fn
  | .disable st fn => s.disable i c st fn
  | .removeName st fn => s.removeName i c st fn
  | .returned _ => s

end Shared

/-- A call starts, or the i-th one takes its next step, with the outcome
of the store. -/
inductive CallEvent where
  | start (op : Op)
  | advance (i : Nat) (fault : Fault)

def Shared.step (s : Shared) : CallEvent → Shared
  | .start op => { s with calls := s.calls ++ [op.call] }
  | .advance i fault =>
    match s.calls[i]? with
    | none => s
    | some c => s.advance i c fault

/-! ## The property -/

/-- A tool of the server is registered under the name, with the
connection. -/
def Registers (r : Registry) (w : WorkspaceID) (srv n : String) (conn : Nat) : Prop :=
  ∃ rt ws, r.entries.lookup (regKey w.val n) = some ⟨.remote rt, ws⟩
    ∧ rt.serverName = srv ∧ rt.conn = conn

/-- The state the map has for the server. -/
def Shared.serverState (s : Shared) (w : WorkspaceID) (srv : String) : Option ServerState :=
  (s.servers.lookup (stateKey w srv)).bind fun st => s.states[st]?

/-- Every tool is one of a loaded server and its connection is open, and
the states list the tools registered for them. -/
structure Shared.Settled (s : Shared) : Prop where
  loaded : ∀ w srv n conn, Registers s.toolsR w srv n conn →
    s.serverState w srv ≠ none ∧ ∃ k, s.conns[conn]? = some k ∧ k.closed = false
  listed : ∀ w srv st, s.serverState w srv = some st →
    ∀ n, n ∈ st.toolNames ↔ ∃ conn, Registers s.toolsR w srv n conn

/-- Once all calls have returned the tools are settled; and a call that
returned an error has left the registry as it was. -/
structure Shared.Sound (s : Shared) : Prop where
  settled : (∀ c ∈ s.calls, ∃ err, c.stage = .returned err) → s.Settled
  failed : ∀ c ∈ s.calls, ∀ err, c.stage = .returned (some err) → c.changed = false

/-- What a call has in its hands between its look-up and its return:
nothing, the whole server or one function. -/
def Stage.hold : Stage → Option (Option String)
  | .collect _ _ | .unregister _ _ _ | .listFunctions | .tryRegister _ _ _ | .register _ _ _ _ =>
    some none
  | .reread _ fn | .append _ fn | .disable _ fn | .removeName _ fn => some (some fn)
  | .tryEnable _ f | .enable _ f => some (some f.name)
  | _ => none

/-- No tool of another server has the name. -/
def Shared.FreeOf (s : Shared) (c : Call) (n : String) : Prop :=
  ∀ srv conn, Registers s.toolsR c.workspaceID srv n conn → srv = c.serverName

/-- Every other call on the server that is between its look-up and its
return holds something that meets `p`. -/
def Shared.OthersHold (s : Shared) (i : Nat) (c : Call) (p : Option String → Prop) : Prop :=
  ∀ j c', j ≠ i → s.calls[j]? = some c' → c'.workspaceID = c.workspaceID →
    c'.serverName = c.serverName → ∀ x, c'.stage.hold = some x → p x

/-- `Remove` takes a server out of the map, and a reload begins, when no
other call holds any of it; a toggle looks up a loaded server when no
other call holds the function; a tool is registered, or unregistered by a
toggle, where no other server has its name; and `ListFunctions` fails only
in a reload that has unregistered nothing. -/
def Shared.Careful (s : Shared) : CallEvent → Prop
  | .start _ => True
  | .advance i fault => ∀ c, s.calls[i]? = some c →
    match c.stage with
    | .detach reload =>
      reload = true ∨ s.servers.lookup (stateKey c.workspaceID c.serverName) ≠ none →
        s.OthersHold i c fun _ => False
    | .lookUp fn _ =>
      s.servers.lookup (stateKey c.workspaceID c.serverName) ≠ none →
        s.OthersHold i c fun x => x ≠ some fn
    | .register _ f _ _ => s.FreeOf c f.name
    | .enable _ f => s.FreeOf c f.name
    | .disable _ fn => s.FreeOf c fn
    | .listFunctions => fault ≠ none → c.changed = false
    | _ => True

end LendingClaw.Mcp
