/-
LendingClaw.Mcp.ServerInv — the invariant of one MCP server under
interleaved manager operations.

It says who answers for each registered tool of the server, the state in
the map or a call that has the server in its hands, and what the calls at
work on it rely on. Three rules keep it for the server of the call that
takes a step: `ServerInv.quiet` where the call only moves on,
`ServerInv.sole` where it has the whole server, `ServerInv.toggle` where
it has one function. `ServerInv.frame` is the rule for the others.
-/
import LendingClaw.Lib.Parties
import LendingClaw.Mcp.Interleaving

namespace LendingClaw.Mcp

open LendingClaw.Tools LendingClaw.Store

/-! ## Registered tools -/

section
variable {r : Registry} {w w' : WorkspaceID} {srv srv' n : String} {conn conn' : Nat}

theorem registers_registerForWorkspace (f : MCPFunction) :
    Registers (r.registerForWorkspace w.val (toolOf srv conn f)) w' srv' n conn'
      ↔ if w' = w ∧ n = f.name then srv' = srv ∧ conn' = conn else Registers r w' srv' n conn' := by
  unfold Registers
  rw [Registry.lookup_registerForWorkspace, toolOf_name]
  by_cases hkey : w' = w ∧ n = f.name
  · obtain ⟨rfl, rfl⟩ := hkey
    rw [if_pos rfl, if_pos ⟨rfl, rfl⟩]
    constructor
    · rintro ⟨rt, ws, he, rfl, rfl⟩
      cases he
      exact ⟨rfl, rfl⟩
    · rintro ⟨rfl, rfl⟩
      exact ⟨_, _, rfl, rfl, rfl⟩
  · rw [if_neg hkey, if_neg]
    intro he
    exact hkey (regKey_inj he)

theorem registers_unregisterForWorkspace (name : String) :
    Registers (r.unregisterForWorkspace w.val name).1 w' srv' n conn'
      ↔ ¬ (w' = w ∧ n = name) ∧ Registers r w' srv' n conn' := by
  unfold Registers
  rw [Registry.lookup_unregisterForWorkspace]
  by_cases hkey : w' = w ∧ n = name
  · obtain ⟨rfl, rfl⟩ := hkey
    simp
  · rw [if_neg, and_iff_right hkey]
    intro he
    exact hkey (regKey_inj he)

/-- A name has one tool. -/
theorem Registers.unique (h : Registers r w srv n conn) (h' : Registers r w srv' n conn') :
    srv' = srv ∧ conn' = conn := by
  obtain ⟨rt, ws, hl, rfl, rfl⟩ := h
  obtain ⟨rt', ws', hl', rfl, rfl⟩ := h'
  cases hl.symm.trans hl'
  exact ⟨rfl, rfl⟩

end

/-! ## The invariant -/

def Call.On (c : Call) (w : WorkspaceID) (srv : String) : Prop :=
  c.workspaceID = w ∧ c.serverName = srv

section
variable (s : Shared) (w : WorkspaceID) (srv : String)

/-- An open connection of the server. -/
def Shared.Open (conn : Nat) : Prop :=
  s.conns[conn]? = some { workspaceID := w, serverName := srv, closed := false }

def Shared.loadedAs : Option Nat := s.servers.lookup (stateKey w srv)

/-- A call on the server is at the stage. -/
def Shared.At (stage : Stage) : Prop := ∃ c ∈ s.calls, c.On w srv ∧ c.stage = stage

/-- The tools a call that has the whole server answers for. -/
def Stage.tools : Stage → Option (Nat × List String)
  | .collect st _ => (s.states[st]?).map fun state => (state.conn, state.toolNames)
  | .unregister conn names _ => some (conn, names)
  | .tryRegister conn _ toolNames => some (conn, toolNames)
  | .register conn _ _ toolNames => some (conn, toolNames)
  | _ => none

/-- The functions it will register. -/
def Stage.todo : Stage → List String
  | .tryRegister _ funcs _ => funcs.map MCPFunction.name
  | .register _ f funcs _ => (f :: funcs).map MCPFunction.name
  | _ => []

/-- What a stage relies on. -/
def Stage.Rests : Stage → Prop
  | .collect st _ => ∃ state, s.states[st]? = some state ∧ state.workspaceID = w ∧ state.serverName = srv
  | .reread st _ | .disable st _ => s.loadedAs w srv = some st
  | .tryEnable st _ | .enable st _ => s.loadedAs w srv = some st
  | .append st fn => s.loadedAs w srv = some st
      ∧ ∃ state, s.states[st]? = some state ∧ Registers s.toolsR w srv fn state.conn
  | .removeName st fn => s.loadedAs w srv = some st ∧ ∀ conn, ¬ Registers s.toolsR w srv fn conn
  | _ => True

structure Stage.Ok (stage : Stage) : Prop where
  rests : stage.Rests s w srv
  conn : ∀ conn names, stage.tools s = some (conn, names) → s.Open w srv conn
  distinct : ∀ conn names, stage.tools s = some (conn, names) → (names ++ stage.todo).Nodup
  registered : ∀ conn names, stage.tools s = some (conn, names) →
    ∀ n ∈ names, Registers s.toolsR w srv n conn

/-- The state of a loaded server: it lists tools that are registered, but
for one that a call is about to take from the list. -/
structure Shared.LoadedOk (st : Nat) (state : ServerState) : Prop where
  here : s.states[st]? = some state
  workspace : state.workspaceID = w
  server : state.serverName = srv
  distinct : state.toolNames.Nodup
  conn : s.Open w srv state.conn
  registered : ∀ n ∈ state.toolNames,
    Registers s.toolsR w srv n state.conn ∨ s.At w srv (.removeName st n)

/-- Someone answers for a registered tool: the state in the map, with the
calls about to list the name there, or a call that has the server. -/
def Shared.Answers (n : String) (conn : Nat) : Prop :=
  (∃ st state, s.loadedAs w srv = some st ∧ s.states[st]? = some state ∧ state.conn = conn
      ∧ (n ∈ state.toolNames ∨ s.At w srv (.append st n)))
    ∨ ∃ c ∈ s.calls, c.On w srv ∧ ∃ names, c.stage.tools s = some (conn, names) ∧ n ∈ names

/-- Two calls on a server can hold these at a time. -/
def Apart (x y : Option String) : Prop := x ≠ none ∧ y ≠ none ∧ x ≠ y

structure ServerInv : Prop where
  apart : ∀ (i j : Nat) (c c' : Call), i ≠ j → s.calls[i]? = some c → s.calls[j]? = some c' → c.On w srv →
    c'.On w srv → ∀ x y, c.stage.hold = some x → c'.stage.hold = some y → Apart x y
  alone : ∀ st, s.loadedAs w srv = some st → ∀ c ∈ s.calls, c.On w srv → c.stage.hold ≠ some none
  ok : ∀ c ∈ s.calls, c.On w srv → c.stage.Ok s w srv
  loaded : ∀ st, s.loadedAs w srv = some st → ∃ state, s.LoadedOk w srv st state
  answered : ∀ n conn, Registers s.toolsR w srv n conn → s.Answers w srv n conn

/-- Nothing but the calls has changed for the server. -/
structure Same (s s' : Shared) (w : WorkspaceID) (srv : String) : Prop where
  servers : s'.loadedAs w srv = s.loadedAs w srv
  states : ∀ (st : Nat) (state : ServerState), state.workspaceID = w → state.serverName = srv →
    s.states[st]? = some state → s'.states[st]? = some state
  conns : ∀ conn, s.Open w srv conn → s'.Open w srv conn
  registers : ∀ n conn, Registers s'.toolsR w srv n conn ↔ Registers s.toolsR w srv n conn

end

section
variable {s s' : Shared} {w : WorkspaceID} {srv : String} {stage : Stage}

/-- Who answers for tools has the whole server. -/
theorem hold_of_tools {tools : Nat × List String} (h : stage.tools s = some tools) :
    stage.hold = some none := by
  cases stage with
  | collect st reload => rfl
  | unregister conn names reload => rfl
  | tryRegister conn funcs names => rfl
  | register conn f funcs names => rfl
  | _ => cases h

/-- A stage that answers for these tools. -/
theorem Stage.ok_of_tools {conn : Nat} {names : List String} (hrests : stage.Rests s w srv)
    (htools : stage.tools s = some (conn, names)) (hconn : s.Open w srv conn)
    (hdistinct : (names ++ stage.todo).Nodup)
    (hreg : ∀ n ∈ names, Registers s.toolsR w srv n conn) : stage.Ok s w srv := by
  have heq : ∀ conn' names', stage.tools s = some (conn', names') → conn' = conn ∧ names' = names := by
    intro conn' names' ht
    cases htools.symm.trans ht
    exact ⟨rfl, rfl⟩
  refine ⟨hrests, fun conn' names' ht => ?_, fun conn' names' ht => ?_, fun conn' names' ht => ?_⟩
  · obtain ⟨rfl, rfl⟩ := heq conn' names' ht
    exact hconn
  · obtain ⟨rfl, rfl⟩ := heq conn' names' ht
    exact hdistinct
  · obtain ⟨rfl, rfl⟩ := heq conn' names' ht
    exact hreg

/-- A stage that answers for none. -/
theorem Stage.ok_of_none (hrests : stage.Rests s w srv) (htools : stage.tools s = none) :
    stage.Ok s w srv := by
  have hno : ∀ tools, stage.tools s ≠ some tools := by
    intro tools ht
    cases htools.symm.trans ht
  exact ⟨hrests, fun conn names ht => absurd ht (hno _), fun conn names ht => absurd ht (hno _),
    fun conn names ht => absurd ht (hno _)⟩

/-- A stage that holds nothing needs nothing. -/
theorem Stage.ok_of_idle (h : stage.hold = none) : stage.Ok s w srv := by
  refine Stage.ok_of_none ?_ ?_
  · cases stage with
    | collect st reload => cases h
    | reread st fn => cases h
    | tryEnable st f => cases h
    | enable st f => cases h
    | append st fn => cases h
    | disable st fn => cases h
    | removeName st fn => cases h
    | _ => trivial
  · cases ht : stage.tools s with
    | none => rfl
    | some tools => cases h.symm.trans (hold_of_tools ht)

theorem Same.tools (h : Same s s' w srv) (hok : stage.Ok s w srv) : stage.tools s' = stage.tools s := by
  cases stage with
  | collect st reload =>
    obtain ⟨state, hst, hw, hsrv⟩ := hok.rests
    simp only [Stage.tools, hst, h.states st state hw hsrv hst]
  | _ => rfl

theorem Same.rests (h : Same s s' w srv)
    (hloaded : ∀ st, s.loadedAs w srv = some st → ∃ state, s.LoadedOk w srv st state)
    (hrests : stage.Rests s w srv) : stage.Rests s' w srv := by
  cases stage with
  | collect st reload =>
    obtain ⟨state, hst, hw, hsrv⟩ := hrests
    exact ⟨state, h.states st state hw hsrv hst, hw, hsrv⟩
  | reread st fn => exact h.servers.trans hrests
  | disable st fn => exact h.servers.trans hrests
  | tryEnable st f => exact h.servers.trans hrests
  | enable st f => exact h.servers.trans hrests
  | append st fn =>
    obtain ⟨hload, state, hst, hreg⟩ := hrests
    obtain ⟨state', hok⟩ := hloaded st hload
    obtain rfl : state' = state := Option.some.inj (hok.here.symm.trans hst)
    exact ⟨h.servers.trans hload, state', h.states st state' hok.workspace hok.server hst,
      (h.registers fn _).mpr hreg⟩
  | removeName st fn =>
    obtain ⟨hload, hnot⟩ := hrests
    exact ⟨h.servers.trans hload, fun conn hreg => hnot conn ((h.registers fn conn).mp hreg)⟩
  | _ => trivial

theorem Same.ok (h : Same s s' w srv)
    (hloaded : ∀ st, s.loadedAs w srv = some st → ∃ state, s.LoadedOk w srv st state)
    (hok : stage.Ok s w srv) : stage.Ok s' w srv := by
  refine ⟨h.rests hloaded hok.rests, fun conn names ht => ?_, fun conn names ht => ?_,
    fun conn names ht n hn => ?_⟩
  · exact h.conns conn (hok.conn conn names (h.tools hok ▸ ht))
  · exact hok.distinct conn names (h.tools hok ▸ ht)
  · exact (h.registers n conn).mpr (hok.registered conn names (h.tools hok ▸ ht) n hn)

/-! ## Steps that change nothing but the calls -/

/-- The stage leaves a state's list to be changed. -/
def Stage.Pending : Stage → Prop
  | .append _ _ | .removeName _ _ => True
  | _ => False

/-- Of the calls on the server, the i-th one may be a new one in `s'`, and
may be given up in `s`. -/
theorem ServerInv.transfer (h : ServerInv s w srv) (hsame : Same s s' w srv) (i : Nat)
    (hforth : ∀ j c, s.calls[j]? = some c → c.On w srv → s'.calls[j]? = some c
      ∨ j = i ∧ ¬ c.stage.Pending ∧ ∀ conn names, c.stage.tools s = some (conn, names) →
          names = [] ∨ ∃ c' ∈ s'.calls, c'.On w srv ∧ c'.stage.tools s' = some (conn, names))
    (hback : ∀ j c, s'.calls[j]? = some c → c.On w srv → s.calls[j]? = some c
      ∨ j = i ∧ c.stage.Ok s' w srv
        ∧ (∀ st, s.loadedAs w srv = some st → c.stage.hold ≠ some none)
        ∧ ∀ k c', k ≠ i → s.calls[k]? = some c' → c'.On w srv →
            ∀ x y, c.stage.hold = some x → c'.stage.hold = some y → Apart x y) :
    ServerInv s' w srv := by
  have hat : ∀ stage : Stage, stage.Pending → s.At w srv stage → s'.At w srv stage := by
    rintro stage hpending ⟨c, hmem, hon, rfl⟩
    obtain ⟨j, hj⟩ := List.getElem?_of_mem hmem
    rcases hforth j c hj hon with hc | ⟨-, hnot, -⟩
    · exact ⟨c, List.mem_of_getElem? hc, hon, rfl⟩
    · exact absurd hpending hnot
  constructor
  · intro j k c c' hjk hj hk hon hon' x y hx hy
    rcases hback j c hj hon with hold | ⟨rfl, -, -, happart⟩
    · rcases hback k c' hk hon' with hold' | ⟨rfl, -, -, happart⟩
      · exact h.apart j k c c' hjk hold hold' hon hon' x y hx hy
      · obtain ⟨hy', hx', hne⟩ := happart j c hjk hold hon y x hy hx
        exact ⟨hx', hy', hne.symm⟩
    · rcases hback k c' hk hon' with hold' | ⟨rfl, -, -, -⟩
      · exact happart k c' (Ne.symm hjk) hold' hon' x y hx hy
      · exact absurd rfl hjk
  · intro st hst c hmem hon
    rw [hsame.servers] at hst
    obtain ⟨j, hj⟩ := List.getElem?_of_mem hmem
    rcases hback j c hj hon with hold | ⟨-, -, halone, -⟩
    · exact h.alone st hst c (List.mem_of_getElem? hold) hon
    · exact halone st hst
  · intro c hmem hon
    obtain ⟨j, hj⟩ := List.getElem?_of_mem hmem
    rcases hback j c hj hon with hold | ⟨-, hok, -, -⟩
    · exact hsame.ok h.loaded (h.ok c (List.mem_of_getElem? hold) hon)
    · exact hok
  · intro st hst
    rw [hsame.servers] at hst
    obtain ⟨state, hok⟩ := h.loaded st hst
    refine ⟨state, hsame.states st state hok.workspace hok.server hok.here, hok.workspace, hok.server,
      hok.distinct, hsame.conns _ hok.conn, fun n hn => ?_⟩
    rcases hok.registered n hn with hreg | hpending
    · exact Or.inl ((hsame.registers n _).mpr hreg)
    · exact Or.inr (hat _ trivial hpending)
  · intro n conn hreg
    rcases h.answered n conn ((hsame.registers n conn).mp hreg) with
      ⟨st, state, hst, hstate, hconn, hn⟩ | ⟨c, hmem, hon, names, htools, hn⟩
    · obtain ⟨state', hok⟩ := h.loaded st hst
      obtain rfl : state' = state := Option.some.inj (hok.here.symm.trans hstate)
      refine Or.inl ⟨st, state', hsame.servers.trans hst,
        hsame.states st state' hok.workspace hok.server hstate, hconn, ?_⟩
      exact hn.imp_right (hat _ trivial)
    · obtain ⟨j, hj⟩ := List.getElem?_of_mem hmem
      rcases hforth j c hj hon with hc | ⟨-, -, hkeep⟩
      · refine Or.inr ⟨c, List.mem_of_getElem? hc, hon, names, ?_, hn⟩
        rw [hsame.tools (h.ok c hmem hon)]
        exact htools
      · rcases hkeep conn names htools with rfl | ⟨c', hmem', hon', htools'⟩
        · cases hn
        · exact Or.inr ⟨c', hmem', hon', names, htools', hn⟩

/-- A step of a call on another server. -/
theorem ServerInv.frame (h : ServerInv s w srv) (hsame : Same s s' w srv)
    (hcalls : ∀ (j : Nat) (c : Call), c.On w srv → (s'.calls[j]? = some c ↔ s.calls[j]? = some c)) :
    ServerInv s' w srv :=
  h.transfer hsame 0 (fun j c hc hon => Or.inl ((hcalls j c hon).mpr hc))
    (fun j c hc hon => Or.inl ((hcalls j c hon).mp hc))

/-- A call on another server goes on. -/
theorem calls_other {i : Nat} {c c' : Call} (hc : s.calls[i]? = some c) (hon : ¬ c.On w srv)
    (hon' : ¬ c'.On w srv) (hcalls : s'.calls = s.calls.set i c') :
    ∀ (j : Nat) (c'' : Call), c''.On w srv → (s'.calls[j]? = some c'' ↔ s.calls[j]? = some c'') := by
  intro j c'' hon''
  rw [hcalls, Lib.getElem?_set_of_some hc]
  split
  · rename_i hj
    subst hj
    rw [hc]
    constructor
    · intro he
      cases he
      exact absurd hon'' hon'
    · intro he
      cases he
      exact absurd hon'' hon
  · exact Iff.rfl

/-- The i-th call goes on and holds what it held, or nothing. -/
theorem ServerInv.quiet (h : ServerInv s w srv) (hsame : Same s s' w srv) {i : Nat} {c c' : Call}
    (hc : s.calls[i]? = some c) (hcalls : s'.calls = s.calls.set i c')
    (hon' : c'.On w srv) (hok : c'.stage.Ok s' w srv) (hpending : ¬ c.stage.Pending)
    (htools : ∀ conn names, c.stage.tools s = some (conn, names) →
      names = [] ∨ c'.stage.tools s' = some (conn, names))
    (halone : ∀ st, s.loadedAs w srv = some st → c'.stage.hold ≠ some none)
    (hapart : ∀ k c'', k ≠ i → s.calls[k]? = some c'' → c''.On w srv →
      ∀ x y, c'.stage.hold = some x → c''.stage.hold = some y → Apart x y) :
    ServerInv s' w srv := by
  have hget := fun j => (congrArg (·[j]?) hcalls).trans (Lib.getElem?_set_of_some hc c' j)
  refine h.transfer hsame i (fun j d hd hond => ?_) (fun j d hd hond => ?_)
  · by_cases hj : j = i
    · subst hj
      cases hc.symm.trans hd
      refine Or.inr ⟨rfl, hpending, fun conn names ht => ?_⟩
      refine (htools conn names ht).imp_right fun ht' => ?_
      exact ⟨c', List.mem_of_getElem? ((hget j).trans (if_pos rfl)), hon', ht'⟩
    · exact Or.inl ((hget j).trans ((if_neg hj).trans hd))
  · by_cases hj : j = i
    · subst hj
      cases hd.symm.trans ((hget j).trans (if_pos rfl))
      exact Or.inr ⟨rfl, hok, halone, hapart⟩
    · exact Or.inl (((hget j).trans (if_neg hj)).symm.trans hd)

/-! ## Steps of a call that has the whole server -/

/-- No other call holds anything of the server. -/
theorem ServerInv.sole {i : Nat} {c c' : Call} (hc : s.calls[i]? = some c)
    (hcalls : s'.calls = s.calls.set i c') (hon' : c'.On w srv)
    (hothers : ∀ j c'', j ≠ i → s.calls[j]? = some c'' → c''.On w srv → c''.stage.hold = none)
    (hok : c'.stage.Ok s' w srv)
    (halone : ∀ st, s'.loadedAs w srv = some st → c'.stage.hold ≠ some none)
    (hloaded : ∀ st, s'.loadedAs w srv = some st → ∃ state, s'.LoadedOk w srv st state)
    (hanswered : ∀ n conn, Registers s'.toolsR w srv n conn →
      (∃ st state, s'.loadedAs w srv = some st ∧ s'.states[st]? = some state ∧ state.conn = conn
        ∧ n ∈ state.toolNames)
      ∨ ∃ names, c'.stage.tools s' = some (conn, names) ∧ n ∈ names) :
    ServerInv s' w srv := by
  have hidle : ∀ d ∈ s'.calls, d.On w srv → d = c' ∨ d.stage.hold = none := by
    intro d hmem hond
    rw [hcalls] at hmem
    rcases Lib.cases_of_mem_set hc hmem with he | ⟨j, hj, hd⟩
    · exact Or.inl he
    · exact Or.inr (hothers j d hj hd hond)
  constructor
  · intro j k d d' hjk hj hk hond hond' x y hx hy
    rw [hcalls, Lib.getElem?_set_of_some hc] at hj hk
    split at hj
    · rename_i hji
      rw [if_neg fun hki => hjk (hji.trans hki.symm)] at hk
      cases (hothers k d' (fun hki => hjk (hji.trans hki.symm)) hk hond').symm.trans hy
    · rename_i hji
      cases (hothers j d hji hj hond).symm.trans hx
  · intro st hst d hmem hond
    rcases hidle d hmem hond with rfl | hnone
    · exact halone st hst
    · rw [hnone]
      exact Option.some_ne_none none |>.symm
  · intro d hmem hond
    rcases hidle d hmem hond with rfl | hnone
    · exact hok
    · exact Stage.ok_of_idle hnone
  · exact hloaded
  · intro n conn hreg
    rcases hanswered n conn hreg with ⟨st, state, hst, hstate, hconn, hn⟩ | ⟨names, htools, hn⟩
    · exact Or.inl ⟨st, state, hst, hstate, hconn, Or.inl hn⟩
    · exact Or.inr ⟨c', hcalls ▸ Lib.mem_set_of_some hc c', hon', names, htools, hn⟩

/-! ## Steps of a call that has one function -/

/-- The calls hold what is apart, and one goes on that holds what it held,
or nothing. -/
theorem apart_set {calls : List Call} (hapart : ∀ (j k : Nat) (d d' : Call), j ≠ k →
      calls[j]? = some d → calls[k]? = some d' → d.On w srv → d'.On w srv →
        ∀ x y, d.stage.hold = some x → d'.stage.hold = some y → Apart x y)
    {i : Nat} {c c' : Call} (hc : calls[i]? = some c) (hon : c.On w srv)
    (hhold' : c'.stage.hold = none ∨ c'.stage.hold = c.stage.hold) :
    ∀ (j k : Nat) (d d' : Call), j ≠ k → (calls.set i c')[j]? = some d →
      (calls.set i c')[k]? = some d' → d.On w srv → d'.On w srv →
        ∀ x y, d.stage.hold = some x → d'.stage.hold = some y → Apart x y := by
  refine Lib.pairs_set hc (R := fun d d' => d.On w srv → d'.On w srv →
    ∀ x y, d.stage.hold = some x → d'.stage.hold = some y → Apart x y) ?_ hapart ?_
  · intro d d' hR hond' hond y x hy hx
    obtain ⟨hx', hy', hne⟩ := hR hond hond' x y hx hy
    exact ⟨hy', hx', hne.symm⟩
  · intro d hR _ hond x y hx hy
    rcases hhold' with hnone | hsame
    · cases hnone.symm.trans hx
    · exact hR hon hond x y (hsame.symm.trans hx) hy

/-- A call at another stage stays where it is. -/
theorem Shared.At.set (hat : s.At w srv stage) {i : Nat} {c c' : Call} (hc : s.calls[i]? = some c)
    (hcalls : s'.calls = s.calls.set i c') (hne : c.stage ≠ stage) : s'.At w srv stage := by
  obtain ⟨d, hmem, hond, rfl⟩ := hat
  refine ⟨d, ?_, hond, rfl⟩
  rw [hcalls]
  exact Lib.mem_set_of_ne hc hmem (fun he => hne (he ▸ rfl)) c'

/-- What a call on another function relies on. -/
theorem Stage.Rests.toggle (hrests : stage.Rests s w srv) {st : Nat} {fn : String}
    {state state' : ServerState} (hst : s.loadedAs w srv = some st) (hst' : s'.loadedAs w srv = some st)
    (hstate : s.states[st]? = some state) (hstate' : s'.states[st]? = some state')
    (hconn : state'.conn = state.conn)
    (hregs : ∀ n, n ≠ fn → ∀ conn,
      (Registers s'.toolsR w srv n conn ↔ Registers s.toolsR w srv n conn))
    (hwhole : stage.hold ≠ some none) (hfn : stage.hold ≠ some (some fn)) : stage.Rests s' w srv := by
  cases stage with
  | collect st reload => exact absurd rfl hwhole
  | reread st' n => rwa [Stage.Rests, hst', ← hst]
  | disable st' n => rwa [Stage.Rests, hst', ← hst]
  | tryEnable st' f => rwa [Stage.Rests, hst', ← hst]
  | enable st' f => rwa [Stage.Rests, hst', ← hst]
  | append st' n =>
    obtain ⟨hload, state₁, hst₁, hreg⟩ := hrests
    have hn : n ≠ fn := fun he => hfn (by rw [Stage.hold, he])
    cases hst.symm.trans hload
    cases hstate.symm.trans hst₁
    exact ⟨hst', state', hstate', by rw [hconn]; exact (hregs n hn _).mpr hreg⟩
  | removeName st' n =>
    obtain ⟨hload, hnot⟩ := hrests
    have hn : n ≠ fn := fun he => hfn (by rw [Stage.hold, he])
    cases hst.symm.trans hload
    exact ⟨hst', fun conn hreg => hnot conn ((hregs n hn conn).mp hreg)⟩
  | _ => trivial

theorem ServerInv.toggle (h : ServerInv s w srv) {i st : Nat} {c c' : Call} {fn : String}
    {state state' : ServerState} (hc : s.calls[i]? = some c) (hon : c.On w srv)
    (hcalls : s'.calls = s.calls.set i c') (hon' : c'.On w srv)
    (hhold : c.stage.hold = some (some fn))
    (hhold' : c'.stage.hold = none ∨ c'.stage.hold = some (some fn))
    (hst : s.loadedAs w srv = some st) (hst' : s'.loadedAs w srv = some st)
    (hstate : s.states[st]? = some state) (hstate' : s'.states[st]? = some state')
    (hsame : state' = { state with toolNames := state'.toolNames })
    (hdistinct : state'.toolNames.Nodup)
    (hconns : ∀ conn, s.Open w srv conn → s'.Open w srv conn)
    (hregs : ∀ n, n ≠ fn → ∀ conn,
      (Registers s'.toolsR w srv n conn ↔ Registers s.toolsR w srv n conn))
    (hnames : ∀ n, n ≠ fn → (n ∈ state'.toolNames ↔ n ∈ state.toolNames))
    (hok : c'.stage.Ok s' w srv)
    (hlisted : fn ∈ state'.toolNames →
      Registers s'.toolsR w srv fn state.conn ∨ c'.stage = .removeName st fn)
    (hanswered : ∀ conn, Registers s'.toolsR w srv fn conn →
      conn = state.conn ∧ (fn ∈ state'.toolNames ∨ c'.stage = .append st fn)) :
    ServerInv s' w srv := by
  have hi : c' ∈ s'.calls := hcalls ▸ Lib.mem_set_of_some hc c'
  obtain ⟨state₀, hloaded⟩ := h.loaded st hst
  obtain rfl : state₀ = state := Option.some.inj (hloaded.here.symm.trans hstate)
  have hconn : state'.conn = state₀.conn := by rw [hsame]
  have hstay : ∀ stage n, n ≠ fn → stage.hold = some (some n) → s.At w srv stage → s'.At w srv stage := by
    intro stage n hn hstage hat
    refine hat.set hc hcalls fun he => ?_
    rw [← he, hhold] at hstage
    cases hstage
    exact hn rfl
  -- the others hold other functions
  have hothers : ∀ d, (∃ j, j ≠ i ∧ s.calls[j]? = some d) → d.On w srv → ∀ x, d.stage.hold = some x →
      Apart x (some fn) := by
    rintro d ⟨j, hj, hd⟩ hond x hx
    exact h.apart j i d c hj hd hc hond hon x _ hx hhold
  have hwhole : ∀ d ∈ s'.calls, d.On w srv → d.stage.hold ≠ some none := by
    intro d hmem hond he
    rw [hcalls] at hmem
    rcases Lib.cases_of_mem_set hc hmem with rfl | hold
    · rcases hhold' with hnone | hsome
      · cases hnone.symm.trans he
      · cases hsome.symm.trans he
    · exact (hothers d hold hond _ he).1 rfl
  constructor
  · rw [hcalls]
    exact apart_set h.apart hc hon (hhold'.imp_right fun hsome => hsome.trans hhold.symm)
  · exact fun _ _ => hwhole
  · intro d hmem hond
    have hnw := hwhole d hmem hond
    rw [hcalls] at hmem
    rcases Lib.cases_of_mem_set hc hmem with rfl | hold
    · exact hok
    · have hnf : d.stage.hold ≠ some (some fn) := fun hx => (hothers d hold hond _ hx).2.2 rfl
      obtain ⟨j, -, hd⟩ := hold
      have hrests := (h.ok d (List.mem_of_getElem? hd) hond).rests
      refine Stage.ok_of_none (hrests.toggle hst hst' hstate hstate' hconn hregs hnw hnf) ?_
      exact Option.eq_none_iff_forall_ne_some.mpr fun tools ht => hnw (hold_of_tools ht)
  · intro st₁ hst₁
    cases hst'.symm.trans hst₁
    refine ⟨state', hstate', ?_, ?_, hdistinct, ?_, fun n hn => ?_⟩
    · rw [hsame]
      exact hloaded.workspace
    · rw [hsame]
      exact hloaded.server
    · rw [hconn]
      exact hconns _ hloaded.conn
    · rw [hconn]
      by_cases hfn : n = fn
      · subst hfn
        exact (hlisted hn).imp_right fun he => ⟨c', hi, hon', he⟩
      · rcases hloaded.registered n ((hnames n hfn).mp hn) with hreg | hpending
        · exact Or.inl ((hregs n hfn _).mpr hreg)
        · exact Or.inr (hstay _ n hfn rfl hpending)
  · intro n conn hreg
    by_cases hfn : n = fn
    · subst hfn
      obtain ⟨rfl, hn⟩ := hanswered conn hreg
      exact Or.inl ⟨st, state', hst', hstate', hconn, hn.imp_right fun he => ⟨c', hi, hon', he⟩⟩
    · rcases h.answered n conn ((hregs n hfn conn).mp hreg) with
        ⟨st₁, state₁, hst₁, hstate₁, rfl, hn⟩ | ⟨d, hmem, hond, names, htools, -⟩
      · cases hst.symm.trans hst₁
        cases hstate.symm.trans hstate₁
        exact Or.inl ⟨st, state', hst', hstate', hconn,
          (hn.imp (hnames n hfn).mpr (hstay _ n hfn rfl))⟩
      · exact absurd (hold_of_tools htools) (h.alone st hst d hmem hond)

/-! ## What a call that has the whole server knows -/

section
variable {i : Nat} {c : Call}

theorem ServerInv.others_idle (h : ServerInv s w srv) (hc : s.calls[i]? = some c) (hon : c.On w srv)
    (hhold : c.stage.hold = some none) (j : Nat) (c' : Call) (hj : j ≠ i)
    (hc' : s.calls[j]? = some c') (hon' : c'.On w srv) : c'.stage.hold = none := by
  cases hx : c'.stage.hold with
  | none => rfl
  | some x => exact absurd rfl (h.apart j i c' c hj hc' hc hon' hon x none hx hhold).2.1

theorem ServerInv.not_loaded (h : ServerInv s w srv) (hc : s.calls[i]? = some c) (hon : c.On w srv)
    (hhold : c.stage.hold = some none) : s.loadedAs w srv = none := by
  cases hst : s.loadedAs w srv with
  | none => rfl
  | some st => exact absurd hhold (h.alone st hst c (List.mem_of_getElem? hc) hon)

/-- It answers for every tool there is. -/
theorem ServerInv.answered_sole (h : ServerInv s w srv) (hc : s.calls[i]? = some c) (hon : c.On w srv)
    (hhold : c.stage.hold = some none) {n : String} {conn : Nat}
    (hreg : Registers s.toolsR w srv n conn) :
    ∃ names, c.stage.tools s = some (conn, names) ∧ n ∈ names := by
  rcases h.answered n conn hreg with ⟨st, state, hst, -⟩ | ⟨d, hmem, hond, names, htools, hn⟩
  · cases (h.not_loaded hc hon hhold).symm.trans hst
  · obtain ⟨j, hj⟩ := List.getElem?_of_mem hmem
    by_cases hji : j = i
    · subst hji
      cases hc.symm.trans hj
      exact ⟨names, htools, hn⟩
    · cases (h.others_idle hc hon hhold j d hji hj hond).symm.trans (hold_of_tools htools)

/-- An unloaded server that no call holds has no tool. -/
theorem ServerInv.not_registered (h : ServerInv s w srv) (hst : s.loadedAs w srv = none)
    (hidle : ∀ c ∈ s.calls, c.On w srv → c.stage.hold = none) (n : String) (conn : Nat) :
    ¬ Registers s.toolsR w srv n conn := by
  intro hreg
  rcases h.answered n conn hreg with ⟨st, state, hst', -⟩ | ⟨d, hmem, hond, names, htools, -⟩
  · cases hst.symm.trans hst'
  · cases (hidle d hmem hond).symm.trans (hold_of_tools htools)

end

/-! ## All servers -/

/-- A call at the stage has changed nothing yet. -/
def Stage.Unchanged : Stage → Prop
  | .listTools _ | .syncFunctions _ | .detach _ | .collect _ _ | .setEnabled _ _ | .lookUp _ _
  | .reread _ _ | .returned (some _) => True
  | _ => False

structure Shared.Inv (s : Shared) : Prop where
  server : ∀ w srv, ServerInv s w srv
  unchanged : ∀ c ∈ s.calls, c.stage.Unchanged → c.changed = false

/-- What a step of the i-th call has to show. -/
theorem Shared.Inv.of_step (h : s.Inv) {i : Nat} {c c' : Call} (hc : s.calls[i]? = some c)
    (hcalls : s'.calls = s.calls.set i c') (hw : c'.workspaceID = c.workspaceID)
    (hsrv : c'.serverName = c.serverName)
    (hown : ServerInv s' c.workspaceID c.serverName)
    (hsame : ∀ w srv, ¬ c.On w srv → Same s s' w srv)
    (hunchanged : c'.stage.Unchanged → c'.changed = false) : s'.Inv := by
  constructor
  · intro w srv
    by_cases hon : c.On w srv
    · obtain ⟨rfl, rfl⟩ := hon
      exact hown
    · refine (h.server w srv).frame (hsame w srv hon) (calls_other hc hon ?_ hcalls)
      unfold Call.On
      rw [hw, hsrv]
      exact hon
  · intro d hmem hd
    rw [hcalls] at hmem
    rcases List.mem_or_eq_of_mem_set hmem with hold | rfl
    · exact h.unchanged d hold hd
    · exact hunchanged hd

theorem Same.of_registers (hservers : s'.servers = s.servers) (hstates : s'.states = s.states)
    (hconns : s'.conns = s.conns)
    (hregs : ∀ n conn, Registers s'.toolsR w srv n conn ↔ Registers s.toolsR w srv n conn) :
    Same s s' w srv := by
  refine ⟨?_, fun st state _ _ hst => ?_, fun conn hopen => ?_, hregs⟩
  · unfold Shared.loadedAs
    rw [hservers]
  · rw [hstates]
    exact hst
  · unfold Shared.Open
    rw [hconns]
    exact hopen

theorem Same.of_eq (hservers : s'.servers = s.servers) (hstates : s'.states = s.states)
    (hconns : s'.conns = s.conns) (hregs : s'.toolsR = s.toolsR) (w : WorkspaceID) (srv : String) :
    Same s s' w srv :=
  Same.of_registers hservers hstates hconns (fun n conn => by rw [hregs])

section
variable {i : Nat} {c : Call}

/-- A call goes on that holds nothing afterwards. -/
theorem Shared.Inv.release (h : s.Inv) (hc : s.calls[i]? = some c) (store : FunctionTable)
    (stage : Stage) (hidle : stage.hold = none) (hpending : ¬ c.stage.Pending)
    (htools : ∀ conn names, c.stage.tools s = some (conn, names) → names = [])
    (hunchanged : stage.Unchanged → c.changed = false) :
    ({ s with store := store } |>.goTo i c stage).Inv := by
  have hsame : ∀ w srv, Same s ({ s with store := store } |>.goTo i c stage) w srv :=
    Same.of_eq rfl rfl rfl rfl
  refine h.of_step hc rfl rfl rfl ?_ (fun w srv _ => hsame w srv) hunchanged
  refine (h.server _ _).quiet (hsame _ _) hc rfl ⟨rfl, rfl⟩ (Stage.ok_of_idle hidle) hpending ?_ ?_ ?_
  · intro conn names ht
    exact Or.inl (htools conn names ht)
  · intro st _ hwhole
    cases hidle.symm.trans hwhole
  · intro k d _ _ _ x y hx
    cases hidle.symm.trans hx

/-- A call goes on and keeps what it holds. -/
theorem Shared.Inv.keep (h : s.Inv) (hc : s.calls[i]? = some c) (stage : Stage)
    (hhold : stage.hold = c.stage.hold) (hpending : ¬ c.stage.Pending)
    (hok : stage.Ok s c.workspaceID c.serverName) (htools : stage.tools s = c.stage.tools s)
    (hunchanged : stage.Unchanged → c.changed = false) : (s.goTo i c stage).Inv := by
  have hsame : ∀ w srv, Same s (s.goTo i c stage) w srv := Same.of_eq rfl rfl rfl rfl
  have hown := h.server c.workspaceID c.serverName
  refine h.of_step hc rfl rfl rfl ?_ (fun w srv _ => hsame w srv) hunchanged
  refine hown.quiet (hsame _ _) hc rfl ⟨rfl, rfl⟩ ((hsame _ _).ok hown.loaded hok) hpending ?_ ?_ ?_
  · intro conn names ht
    rw [(hsame _ _).tools hok, htools]
    exact Or.inr ht
  · intro st hst
    rw [hhold]
    exact hown.alone st hst c (List.mem_of_getElem? hc) ⟨rfl, rfl⟩
  · intro k d hk hd hond x y hx hy
    exact hown.apart i k c d (Ne.symm hk) hc hd ⟨rfl, rfl⟩ hond x y (hhold ▸ hx) hy

/-- A call goes on that holds nothing before and after. -/
theorem Shared.Inv.idle (h : s.Inv) (hc : s.calls[i]? = some c) (store : FunctionTable)
    (stage : Stage) (hidle : stage.hold = none) (hold : c.stage.hold = none)
    (hunchanged : stage.Unchanged → c.changed = false) :
    ({ s with store := store } |>.goTo i c stage).Inv := by
  refine h.release hc store stage hidle ?_ (fun conn names ht => ?_) hunchanged
  · intro hpending
    cases hstage : c.stage <;> rw [hstage] at hpending hold <;> first | exact hpending | cases hold
  · cases hold.symm.trans (hold_of_tools ht)

end

end

end LendingClaw.Mcp
