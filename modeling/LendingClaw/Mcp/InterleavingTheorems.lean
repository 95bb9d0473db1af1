/-
LendingClaw.Mcp.InterleavingTheorems — the tools of the MCP servers in
any interleaving of manager operations.

Each step of a call keeps the invariant of every server, if it is
careful (`Shared.Inv.step`, one lemma a stage); `tools_sound` is the law
for runs.
-/
import LendingClaw.Mcp.ServerInv

namespace LendingClaw.Mcp

open LendingClaw.Tools LendingClaw.Store

section
variable {s s' : Shared} {w : WorkspaceID} {srv : String}

section
variable {i : Nat} {c : Call}

/-! ## The steps of `Sync` and of the statements -/

theorem Shared.Inv.listTools (h : s.Inv) (hc : s.calls[i]? = some c)
    {answer : Except String (List (String × String))} (hstage : c.stage = .listTools answer) :
    (s.listTools i c answer).Inv := by
  have hold : c.stage.hold = none := by rw [hstage]; rfl
  have hunchanged := h.unchanged c (List.mem_of_getElem? hc) (by rw [hstage]; trivial)
  cases answer with
  | error err => exact h.idle hc s.store _ rfl hold (fun _ => hunchanged)
  | ok mcpTools => exact h.idle hc s.store _ rfl hold (fun _ => hunchanged)

theorem Shared.Inv.syncFunctions (h : s.Inv) (hc : s.calls[i]? = some c)
    {mcpTools : List (String × String)} (hstage : c.stage = .syncFunctions mcpTools) (fault : Fault) :
    (s.syncFunctions i c mcpTools fault).Inv := by
  have hold : c.stage.hold = none := by rw [hstage]; rfl
  have hunchanged := h.unchanged c (List.mem_of_getElem? hc) (by rw [hstage]; trivial)
  cases fault with
  | some err => exact h.idle hc s.store _ rfl hold (fun _ => hunchanged)
  | none => exact h.idle hc _ _ rfl hold (fun _ => hunchanged)

theorem Shared.Inv.setEnabled (h : s.Inv) (hc : s.calls[i]? = some c) {fn : String} {enabled : Bool}
    (hstage : c.stage = .setEnabled fn enabled) (fault : Fault) :
    (s.setEnabled i c fn enabled fault).Inv := by
  have hold : c.stage.hold = none := by rw [hstage]; rfl
  have hunchanged := h.unchanged c (List.mem_of_getElem? hc) (by rw [hstage]; trivial)
  unfold Shared.setEnabled
  cases fault with
  | some err => exact h.idle hc s.store _ rfl hold (fun _ => hunchanged)
  | none =>
    cases s.store.setFunctionEnabled c.workspaceID c.serverName fn enabled with
    | error err => exact h.idle hc s.store _ rfl hold (fun _ => hunchanged)
    | ok store => exact h.idle hc store _ rfl hold (fun _ => hunchanged)

/-! ## The steps of `Remove` -/

/-- The guard of a call that is about to have the whole server. -/
theorem Shared.OthersHold.idle (hothers : s.OthersHold i c fun _ => False) (j : Nat) (c' : Call)
    (hj : j ≠ i) (hc' : s.calls[j]? = some c') (hon : c'.On c.workspaceID c.serverName) :
    c'.stage.hold = none := by
  cases hx : c'.stage.hold with
  | none => rfl
  | some x => exact (hothers j c' hj hc' hon.1 hon.2 x hx).elim

theorem Shared.OthersHold.all_idle (hothers : s.OthersHold i c fun _ => False)
    (hc : s.calls[i]? = some c) (hold : c.stage.hold = none) (d : Call) (hmem : d ∈ s.calls)
    (hond : d.On c.workspaceID c.serverName) : d.stage.hold = none := by
  obtain ⟨j, hj⟩ := List.getElem?_of_mem hmem
  by_cases hji : j = i
  · subst hji
    cases hc.symm.trans hj
    exact hold
  · exact hothers.idle j d hji hj hond

/-- A reload of a server that is not loaded begins. -/
theorem Shared.Inv.begin (h : s.Inv) (hc : s.calls[i]? = some c) (hold : c.stage.hold = none)
    (hst : s.loadedAs c.workspaceID c.serverName = none)
    (hothers : s.OthersHold i c fun _ => False) : (s.goTo i c .listFunctions).Inv := by
  have hown := h.server c.workspaceID c.serverName
  have hnone := hown.not_registered hst (hothers.all_idle hc hold)
  have hsame : ∀ w srv, Same s (s.goTo i c .listFunctions) w srv := Same.of_eq rfl rfl rfl rfl
  refine h.of_step hc rfl rfl rfl ?_ (fun w srv _ => hsame w srv) (fun hu => hu.elim)
  refine ServerInv.sole hc rfl ⟨rfl, rfl⟩ hothers.idle (Stage.ok_of_none trivial rfl) ?_ ?_ ?_
  · intro st hst'
    cases hst.symm.trans hst'
  · intro st hst'
    cases hst.symm.trans hst'
  · intro n conn hreg
    exact absurd hreg (hnone n conn)

theorem loadedAs_erase (w : WorkspaceID) (srv : String) (s' : Shared)
    (hs' : s'.servers = s.servers.erase (stateKey w srv)) :
    s'.loadedAs w srv = none
      ∧ ∀ w' srv', ¬ (w = w' ∧ srv = srv') → s'.loadedAs w' srv' = s.loadedAs w' srv' := by
  unfold Shared.loadedAs
  rw [hs']
  refine ⟨AList.lookup_erase _ _, fun w' srv' hne => AList.lookup_erase_ne fun he => ?_⟩
  obtain ⟨rfl, rfl⟩ := stateKey_inj he
  exact hne ⟨rfl, rfl⟩

/-- `Remove` finds the server. -/
theorem Shared.Inv.take (h : s.Inv) (hc : s.calls[i]? = some c) (hold : c.stage.hold = none)
    (hunchanged : c.changed = false) {st : Nat}
    (hst : s.loadedAs c.workspaceID c.serverName = some st)
    (hothers : s.OthersHold i c fun _ => False) (reload : Bool) :
    ({ s with servers := s.servers.erase (stateKey c.workspaceID c.serverName) } |>.goTo i c
      (.collect st reload)).Inv := by
  have hown := h.server c.workspaceID c.serverName
  obtain ⟨state, hloaded⟩ := hown.loaded st hst
  have hall := hothers.all_idle hc hold
  have hat : ∀ stage : Stage, stage.Pending → ¬ s.At c.workspaceID c.serverName stage := by
    rintro stage hpending ⟨d, hmem, hond, rfl⟩
    have hd := hall d hmem hond
    cases hstage : d.stage <;> rw [hstage] at hpending hd <;> first | exact hpending | cases hd
  have hregs : ∀ n ∈ state.toolNames,
      Registers s.toolsR c.workspaceID c.serverName n state.conn :=
    fun n hn => (hloaded.registered n hn).resolve_right (hat _ trivial)
  obtain ⟨hgone, hother⟩ := loadedAs_erase (s := s) c.workspaceID c.serverName
    ({ s with servers := s.servers.erase (stateKey c.workspaceID c.serverName) } |>.goTo i c
      (.collect st reload)) rfl
  refine h.of_step hc rfl rfl rfl ?_ (fun w srv hon => ?_) (fun _ => hunchanged)
  · have htools : (Stage.collect st reload).tools s = some (state.conn, state.toolNames) := by
      simp only [Stage.tools, hloaded.here, Option.map_some]
    have hdistinct : (state.toolNames ++ []).Nodup := by
      rw [List.append_nil]
      exact hloaded.distinct
    refine ServerInv.sole hc rfl ⟨rfl, rfl⟩ hothers.idle ?_ ?_ ?_ ?_
    · exact Stage.ok_of_tools ⟨state, hloaded.here, hloaded.workspace, hloaded.server⟩ htools
        hloaded.conn hdistinct hregs
    · intro st' hst'
      cases hgone.symm.trans hst'
    · intro st' hst'
      cases hgone.symm.trans hst'
    · intro n conn hreg
      rcases hown.answered n conn hreg with ⟨st', state', hst', hstate', hconn, hn⟩ | ⟨d, hmem, hond, _, ht, -⟩
      · cases hst.symm.trans hst'
        cases hloaded.here.symm.trans hstate'
        rw [← hconn]
        exact Or.inr ⟨state.toolNames, htools, hn.resolve_right (hat _ trivial)⟩
      · cases (hall d hmem hond).symm.trans (hold_of_tools ht)
  · exact ⟨hother w srv hon, fun _ _ _ _ hstate => hstate, fun _ hopen => hopen, fun _ _ => Iff.rfl⟩

theorem Shared.Inv.detach (h : s.Inv) (hc : s.calls[i]? = some c) {reload : Bool}
    (hstage : c.stage = .detach reload)
    (hguard : reload = true ∨ s.servers.lookup (stateKey c.workspaceID c.serverName) ≠ none →
      s.OthersHold i c fun _ => False) : (s.detach i c reload).Inv := by
  have hold : c.stage.hold = none := by rw [hstage]; rfl
  have hunchanged := h.unchanged c (List.mem_of_getElem? hc) (by rw [hstage]; trivial)
  unfold Shared.detach
  cases hst : s.servers.lookup (stateKey c.workspaceID c.serverName) with
  | none =>
    cases reload with
    | true => exact h.begin hc hold hst (hguard (Or.inl rfl))
    | false => exact h.idle hc s.store _ rfl hold (fun hu => hu.elim)
  | some st =>
    have hne : s.servers.lookup (stateKey c.workspaceID c.serverName) ≠ none := by
      rw [hst]
      exact Option.some_ne_none st
    exact h.take hc hold hunchanged hst (hguard (Or.inr hne)) reload

theorem Shared.Inv.collect (h : s.Inv) (hc : s.calls[i]? = some c) {st : Nat} {reload : Bool}
    (hstage : c.stage = .collect st reload) : (s.collect i c st reload).Inv := by
  have hok := (h.server _ _).ok c (List.mem_of_getElem? hc) ⟨rfl, rfl⟩
  rw [hstage] at hok
  obtain ⟨state, hst, -, -⟩ := hok.rests
  have htools : (Stage.collect st reload).tools s = some (state.conn, state.toolNames) := by
    simp only [Stage.tools, hst, Option.map_some]
  unfold Shared.collect
  simp only [hst]
  refine h.keep hc _ (by rw [hstage]; rfl) (by rw [hstage]; exact id) ?_ (by rw [hstage, htools]; rfl)
    (fun hu => hu.elim)
  exact Stage.ok_of_tools trivial rfl (hok.conn _ _ htools) (hok.distinct _ _ htools)
    (hok.registered _ _ htools)

/-- `UnregisterForWorkspace` of a name that no other server has. -/
theorem Same.unregister {s' : Shared} {name : String}
    (hs' : s'.servers = s.servers ∧ s'.states = s.states ∧ s'.conns = s.conns)
    (hreg : s'.toolsR = (s.toolsR.unregisterForWorkspace c.workspaceID.val name).1)
    (hfree : s.FreeOf c name) (hon : ¬ c.On w srv) : Same s s' w srv := by
  obtain ⟨hservers, hstates, hconns⟩ := hs'
  refine Same.of_registers hservers hstates hconns fun n conn => ?_
  rw [hreg, registers_unregisterForWorkspace]
  refine and_iff_right_of_imp fun hold hname => ?_
  obtain ⟨rfl, rfl⟩ := hname
  exact hon ⟨rfl, (hfree srv conn hold).symm⟩

/-- `RegisterForWorkspace` under such a name. -/
theorem Same.register {s' : Shared} {conn : Nat} {f : MCPFunction}
    (hs' : s'.servers = s.servers ∧ s'.states = s.states ∧ s'.conns = s.conns)
    (hreg : s'.toolsR = s.toolsR.registerForWorkspace c.workspaceID.val (toolOf c.serverName conn f))
    (hfree : s.FreeOf c f.name) (hon : ¬ c.On w srv) : Same s s' w srv := by
  obtain ⟨hservers, hstates, hconns⟩ := hs'
  refine Same.of_registers hservers hstates hconns fun n conn' => ?_
  rw [hreg, registers_registerForWorkspace]
  split
  · rename_i hname
    obtain ⟨rfl, rfl⟩ := hname
    refine iff_of_false (fun hown => hon ⟨rfl, hown.1.symm⟩) (fun hold => ?_)
    exact hon ⟨rfl, (hfree srv conn' hold).symm⟩
  · exact Iff.rfl

theorem Shared.Inv.unregister_name (h : s.Inv) (hc : s.calls[i]? = some c) {conn : Nat}
    {name : String} {names : List String} {reload : Bool}
    (hstage : c.stage = .unregister conn (name :: names) reload) :
    (s.unregister i c conn reload (name :: names)).Inv := by
  have hown := h.server c.workspaceID c.serverName
  have hhold : c.stage.hold = some none := by rw [hstage]; rfl
  have hok := hown.ok c (List.mem_of_getElem? hc) ⟨rfl, rfl⟩
  rw [hstage] at hok
  have hconn := hok.conn _ _ rfl
  have hnodup : (name :: names ++ []).Nodup := hok.distinct _ _ rfl
  rw [List.append_nil, List.nodup_cons] at hnodup
  have hregs := hok.registered _ _ rfl
  have hnone := hown.not_loaded hc ⟨rfl, rfl⟩ hhold
  have hfree : s.FreeOf c name := by
    intro srv conn' hreg
    exact ((hregs name List.mem_cons_self).unique hreg).1
  refine h.of_step hc rfl rfl rfl ?_ (fun w srv hon => Same.unregister ⟨rfl, rfl, rfl⟩ rfl hfree hon)
    (fun hu => hu.elim)
  refine ServerInv.sole hc rfl ⟨rfl, rfl⟩ (hown.others_idle hc ⟨rfl, rfl⟩ hhold) ?_ ?_ ?_ ?_
  · refine Stage.ok_of_tools trivial rfl hconn ?_ (fun n hn => ?_)
    · show (names ++ []).Nodup
      rw [List.append_nil]
      exact hnodup.2
    · refine (registers_unregisterForWorkspace name).mpr ⟨?_, hregs n (List.mem_cons_of_mem _ hn)⟩
      rintro ⟨-, rfl⟩
      exact hnodup.1 hn
  · intro st hst
    cases hnone.symm.trans hst
  · intro st hst
    cases hnone.symm.trans hst
  · intro n conn' hreg
    obtain ⟨hne, hold⟩ := (registers_unregisterForWorkspace name).mp hreg
    obtain ⟨names', ht, hn⟩ := hown.answered_sole hc ⟨rfl, rfl⟩ hhold hold
    rw [hstage] at ht
    cases ht
    refine Or.inr ⟨names, rfl, (List.mem_cons.mp hn).resolve_left fun he => hne ⟨rfl, he⟩⟩

/-- `Close`, after the last name. -/
theorem Shared.Inv.close (h : s.Inv) (hc : s.calls[i]? = some c) {conn : Nat} {reload : Bool}
    (hstage : c.stage = .unregister conn [] reload) : (s.unregister i c conn reload []).Inv := by
  have hown := h.server c.workspaceID c.serverName
  have hhold : c.stage.hold = some none := by rw [hstage]; rfl
  have hok := hown.ok c (List.mem_of_getElem? hc) ⟨rfl, rfl⟩
  rw [hstage] at hok
  have hconn := hok.conn _ _ rfl
  have hnone := hown.not_loaded hc ⟨rfl, rfl⟩ hhold
  refine h.of_step hc rfl rfl rfl ?_ (fun w srv hon => ?_) (fun hu => ?_)
  · refine ServerInv.sole hc rfl ⟨rfl, rfl⟩ (hown.others_idle hc ⟨rfl, rfl⟩ hhold) ?_ ?_ ?_ ?_
    · cases reload with
      | true => exact Stage.ok_of_none trivial rfl
      | false => exact Stage.ok_of_none trivial rfl
    · intro st hst
      cases hnone.symm.trans hst
    · intro st hst
      cases hnone.symm.trans hst
    · intro n conn' hreg
      obtain ⟨names', ht, hn⟩ := hown.answered_sole hc ⟨rfl, rfl⟩ hhold hreg
      rw [hstage] at ht
      cases ht
      cases hn
  · refine ⟨rfl, fun _ _ _ _ hst => hst, fun conn' hopen => ?_, fun _ _ => Iff.rfl⟩
    have hne : conn ≠ conn' := by
      rintro rfl
      cases hconn.symm.trans hopen
      exact hon ⟨rfl, rfl⟩
    have hopen' : s.conns[conn']? = some { workspaceID := w, serverName := srv } := hopen
    show (s.conns.modify conn _)[conn']? = _
    rw [List.getElem?_modify, hopen']
    simp [hne]
  · cases reload <;> exact hu.elim

theorem Shared.Inv.unregister (h : s.Inv) (hc : s.calls[i]? = some c) {conn : Nat}
    {names : List String} {reload : Bool} (hstage : c.stage = .unregister conn names reload) :
    (s.unregister i c conn reload names).Inv := by
  cases names with
  | nil => exact h.close hc hstage
  | cons name names => exact h.unregister_name hc hstage

/-! ## The steps of `LoadFromCache` -/

theorem Shared.Inv.listFunctions (h : s.Inv) (hc : s.calls[i]? = some c)
    (hstage : c.stage = .listFunctions) {fault : Fault} (hguard : fault ≠ none → c.changed = false) :
    (s.listFunctions i c fault).Inv := by
  have hown := h.server c.workspaceID c.serverName
  have hhold : c.stage.hold = some none := by rw [hstage]; rfl
  have hnone := hown.not_loaded hc ⟨rfl, rfl⟩ hhold
  cases fault with
  | some err =>
    refine h.release hc s.store _ rfl (by rw [hstage]; exact id) ?_
      (fun _ => hguard (Option.some_ne_none err))
    rw [hstage]
    intro conn names ht
    cases ht
  | none =>
    refine h.of_step hc rfl rfl rfl ?_ (fun w srv hon => ?_) (fun hu => hu.elim)
    · refine ServerInv.sole hc rfl ⟨rfl, rfl⟩ (hown.others_idle hc ⟨rfl, rfl⟩ hhold) ?_ ?_ ?_ ?_
      · refine Stage.ok_of_tools trivial rfl ?_ ?_ (fun n hn => by cases hn)
        · show (s.conns ++ _)[s.conns.length]? = _
          exact List.getElem?_concat_length
        · exact (FunctionTable.listFunctions_names s.store _ _).sublist (List.filter_sublist.map _)
      · intro st hst
        cases hnone.symm.trans hst
      · intro st hst
        cases hnone.symm.trans hst
      · intro n conn' hreg
        obtain ⟨names', ht, hn⟩ := hown.answered_sole hc ⟨rfl, rfl⟩ hhold hreg
        rw [hstage] at ht
        cases ht
    · refine ⟨rfl, fun _ _ _ _ hst => hst, fun conn' hopen => ?_, fun _ _ => Iff.rfl⟩
      exact Lib.getElem?_append_of_some hopen _

/-- The next function is checked. -/
theorem Shared.Inv.tryRegister_cons (h : s.Inv) (hc : s.calls[i]? = some c) {conn : Nat}
    {f : MCPFunction} {funcs : List MCPFunction} {toolNames : List String}
    (hstage : c.stage = .tryRegister conn (f :: funcs) toolNames) :
    (s.tryRegister i c conn toolNames (f :: funcs)).Inv := by
  have hok := (h.server _ _).ok c (List.mem_of_getElem? hc) ⟨rfl, rfl⟩
  rw [hstage] at hok
  have hconn := hok.conn _ _ rfl
  have hnodup := hok.distinct _ _ rfl
  have hregs := hok.registered _ _ rfl
  unfold Shared.tryRegister
  dsimp only
  split
  · refine h.keep hc _ (by rw [hstage]; rfl) (by rw [hstage]; exact id) ?_ (by rw [hstage]; rfl)
      (fun hu => hu.elim)
    exact Stage.ok_of_tools trivial rfl hconn hnodup hregs
  · refine h.keep hc _ (by rw [hstage]; rfl) (by rw [hstage]; exact id) ?_ (by rw [hstage]; rfl)
      (fun hu => hu.elim)
    refine Stage.ok_of_tools trivial rfl hconn ?_ hregs
    exact hnodup.sublist ((List.sublist_cons_self _ _).append_left _)

theorem Shared.Inv.register (h : s.Inv) (hc : s.calls[i]? = some c) {conn : Nat}
    {f : MCPFunction} {funcs : List MCPFunction} {toolNames : List String}
    (hstage : c.stage = .register conn f funcs toolNames) (hfree : s.FreeOf c f.name) :
    (s.register i c conn f funcs toolNames).Inv := by
  have hown := h.server c.workspaceID c.serverName
  have hhold : c.stage.hold = some none := by rw [hstage]; rfl
  have hok := hown.ok c (List.mem_of_getElem? hc) ⟨rfl, rfl⟩
  rw [hstage] at hok
  have hconn := hok.conn _ _ rfl
  have hnodup := hok.distinct _ _ rfl
  have hregs := hok.registered _ _ rfl
  have hnone := hown.not_loaded hc ⟨rfl, rfl⟩ hhold
  refine h.of_step hc rfl rfl rfl ?_ (fun w srv hon => Same.register ⟨rfl, rfl, rfl⟩ rfl hfree hon)
    (fun hu => hu.elim)
  refine ServerInv.sole hc rfl ⟨rfl, rfl⟩ (hown.others_idle hc ⟨rfl, rfl⟩ hhold) ?_ ?_ ?_ ?_
  · refine Stage.ok_of_tools trivial rfl hconn ?_ (fun n hn => ?_)
    · show ((toolNames ++ [f.name]) ++ _).Nodup
      rw [List.append_assoc]
      exact hnodup
    · refine (registers_registerForWorkspace f).mpr ?_
      split
      · exact ⟨rfl, rfl⟩
      · rename_i hne
        rcases List.mem_append.mp hn with hmem | hmem
        · exact hregs n hmem
        · exact absurd ⟨rfl, List.mem_singleton.mp hmem⟩ hne
  · intro st hst
    cases hnone.symm.trans hst
  · intro st hst
    cases hnone.symm.trans hst
  · intro n conn' hreg
    have hreg' := (registers_registerForWorkspace f).mp hreg
    split at hreg'
    · rename_i hname
      obtain ⟨-, rfl⟩ := hreg'
      rw [hname.2]
      exact Or.inr ⟨_, rfl, List.mem_append_right _ (List.mem_singleton_self _)⟩
    · obtain ⟨names', ht, hn⟩ := hown.answered_sole hc ⟨rfl, rfl⟩ hhold hreg'
      rw [hstage] at ht
      cases ht
      exact Or.inr ⟨_, rfl, List.mem_append_left _ hn⟩

/-- The new state goes into the map. -/
theorem Shared.Inv.publish (h : s.Inv) (hc : s.calls[i]? = some c) {conn : Nat}
    {toolNames : List String} (hstage : c.stage = .tryRegister conn [] toolNames) :
    (s.tryRegister i c conn toolNames []).Inv := by
  have hown := h.server c.workspaceID c.serverName
  have hhold : c.stage.hold = some none := by rw [hstage]; rfl
  have hok := hown.ok c (List.mem_of_getElem? hc) ⟨rfl, rfl⟩
  rw [hstage] at hok
  have hconn := hok.conn _ _ rfl
  have hnodup := hok.distinct _ _ rfl
  have hregs := hok.registered _ _ rfl
  let state : ServerState :=
    { workspaceID := c.workspaceID, serverName := c.serverName, conn := conn, toolNames := toolNames }
  let s' := s.tryRegister i c conn toolNames []
  have hst : s'.loadedAs c.workspaceID c.serverName = some s.states.length := AList.lookup_insert _
  have hstate : s'.states[s.states.length]? = some state := List.getElem?_concat_length
  show s'.Inv
  refine h.of_step hc rfl rfl rfl ?_ (fun w srv hon => ?_) (fun hu => hu.elim)
  · refine ServerInv.sole hc rfl ⟨rfl, rfl⟩ (hown.others_idle hc ⟨rfl, rfl⟩ hhold)
      (Stage.ok_of_none trivial rfl) ?_ ?_ ?_
    · intro st _
      exact (Option.some_ne_none none).symm
    · intro st hst'
      cases hst.symm.trans hst'
      refine ⟨state, hstate, rfl, rfl, ?_, hconn, fun n hn => Or.inl (hregs n hn)⟩
      rw [Stage.todo, List.map_nil, List.append_nil] at hnodup
      exact hnodup
    · intro n conn' hreg
      obtain ⟨names', ht, hn⟩ := hown.answered_sole hc ⟨rfl, rfl⟩ hhold hreg
      rw [hstage] at ht
      cases ht
      exact Or.inl ⟨_, state, hst, hstate, rfl, hn⟩
  · refine ⟨?_, fun st state' _ _ hst' => ?_, fun _ hopen => hopen, fun _ _ => Iff.rfl⟩
    · refine AList.lookup_insert_ne fun he => ?_
      obtain ⟨rfl, rfl⟩ := stateKey_inj he
      exact hon ⟨rfl, rfl⟩
    · exact Lib.getElem?_append_of_some hst' _

/-! ## The steps of `SetFunctionEnabled` -/

theorem Shared.Inv.lookUp (h : s.Inv) (hc : s.calls[i]? = some c) {fn : String} {enabled : Bool}
    (hstage : c.stage = .lookUp fn enabled)
    (hguard : s.servers.lookup (stateKey c.workspaceID c.serverName) ≠ none →
      s.OthersHold i c fun x => x ≠ some fn) : (s.lookUp i c fn enabled).Inv := by
  have hown := h.server c.workspaceID c.serverName
  have hold : c.stage.hold = none := by rw [hstage]; rfl
  have hunchanged := h.unchanged c (List.mem_of_getElem? hc) (by rw [hstage]; trivial)
  unfold Shared.lookUp
  cases hst : s.servers.lookup (stateKey c.workspaceID c.serverName) with
  | none => exact h.idle hc s.store _ rfl hold (fun hu => hu.elim)
  | some st =>
    have hothers := hguard (by rw [hst]; exact Option.some_ne_none st)
    have hload : s.loadedAs c.workspaceID c.serverName = some st := hst
    let stage : Stage := if enabled then .reread st fn else .disable st fn
    have hhold : stage.hold = some (some fn) := by cases enabled <;> rfl
    have hok : stage.Ok s c.workspaceID c.serverName := by
      cases enabled with
      | true => exact Stage.ok_of_none hload rfl
      | false => exact Stage.ok_of_none hload rfl
    have hsame : ∀ w srv, Same s (s.goTo i c stage) w srv := Same.of_eq rfl rfl rfl rfl
    refine h.of_step hc rfl rfl rfl ?_ (fun w srv _ => hsame w srv) (fun _ => hunchanged)
    refine hown.quiet (hsame _ _) hc rfl ⟨rfl, rfl⟩ ((hsame _ _).ok hown.loaded hok)
      (by rw [hstage]; exact id) ?_ ?_ ?_
    · intro conn names ht
      cases hold.symm.trans (hold_of_tools ht)
    · intro st' _ hwhole
      cases hhold.symm.trans hwhole
    · intro k d hk hd hond x y hx hy
      obtain rfl : some fn = x := Option.some.inj (hhold.symm.trans hx)
      refine ⟨Option.some_ne_none fn, ?_, (hothers k d hk hd hond.1 hond.2 y hy).symm⟩
      rintro rfl
      exact hown.alone st hst d (List.mem_of_getElem? hd) hond hy

theorem Shared.Inv.reread (h : s.Inv) (hc : s.calls[i]? = some c) {st : Nat} {fn : String}
    (hstage : c.stage = .reread st fn) (fault : Fault) : (s.reread i c st fn fault).Inv := by
  have hok := (h.server _ _).ok c (List.mem_of_getElem? hc) ⟨rfl, rfl⟩
  rw [hstage] at hok
  have hunchanged := h.unchanged c (List.mem_of_getElem? hc) (by rw [hstage]; trivial)
  have hpending : ¬ c.stage.Pending := by rw [hstage]; exact id
  have htools : ∀ conn names, c.stage.tools s = some (conn, names) → names = [] := by
    rw [hstage]
    intro conn names ht
    cases ht
  unfold Shared.reread
  cases fault with
  | some err => exact h.release hc s.store _ rfl hpending htools (fun _ => hunchanged)
  | none =>
    cases hfind : (s.store.listFunctions c.workspaceID c.serverName).find? (·.name == fn) with
    | none => exact h.release hc s.store _ rfl hpending htools (fun _ => hunchanged)
    | some target =>
      have hname : target.name = fn := by simpa using List.find?_some hfind
      refine h.keep hc _ ?_ hpending (Stage.ok_of_none hok.rests rfl) (by rw [hstage]; rfl)
        (fun hu => hu.elim)
      rw [hstage, Stage.hold, Stage.hold, hname]

theorem Shared.Inv.tryEnable (h : s.Inv) (hc : s.calls[i]? = some c) {st : Nat} {f : MCPFunction}
    (hstage : c.stage = .tryEnable st f) : (s.tryEnable i c st f).Inv := by
  have hok := (h.server _ _).ok c (List.mem_of_getElem? hc) ⟨rfl, rfl⟩
  rw [hstage] at hok
  have hpending : ¬ c.stage.Pending := by rw [hstage]; exact id
  unfold Shared.tryEnable
  split
  · exact h.keep hc _ (by rw [hstage]; rfl) hpending (Stage.ok_of_none hok.rests rfl)
      (by rw [hstage]; rfl) (fun hu => hu.elim)
  · refine h.release hc s.store _ rfl hpending ?_ (fun hu => hu.elim)
    rw [hstage]
    intro conn names ht
    cases ht

theorem Shared.Inv.enable (h : s.Inv) (hc : s.calls[i]? = some c) {st : Nat} {f : MCPFunction}
    (hstage : c.stage = .enable st f) (hfree : s.FreeOf c f.name) : (s.enable i c st f).Inv := by
  have hown := h.server c.workspaceID c.serverName
  have hok := hown.ok c (List.mem_of_getElem? hc) ⟨rfl, rfl⟩
  rw [hstage] at hok
  have hload : s.loadedAs c.workspaceID c.serverName = some st := hok.rests
  obtain ⟨state, hloaded⟩ := hown.loaded st hload
  have hhere := hloaded.here
  unfold Shared.enable
  simp only [hhere]
  have hnew : ∀ n conn, Registers (s.toolsR.registerForWorkspace c.workspaceID.val
      (toolOf c.serverName state.conn f)) c.workspaceID c.serverName n conn
        ↔ if n = f.name then conn = state.conn
          else Registers s.toolsR c.workspaceID c.serverName n conn := by
    intro n conn
    simp [registers_registerForWorkspace]
  refine h.of_step hc rfl rfl rfl ?_ (fun w srv hon => Same.register ⟨rfl, rfl, rfl⟩ rfl hfree hon)
    (fun hu => hu.elim)
  have hhold : c.stage.hold = some (some f.name) := by rw [hstage]; rfl
  refine hown.toggle hc ⟨rfl, rfl⟩ rfl ⟨rfl, rfl⟩ hhold (Or.inr rfl) hload hload hhere hhere rfl
    hloaded.distinct (fun _ hopen => hopen) (fun n hn conn => ?_) (fun _ _ => Iff.rfl) ?_ ?_ ?_
  · exact (hnew n conn).trans (by rw [if_neg hn])
  · exact Stage.ok_of_none ⟨hload, state, hhere, (hnew _ _).mpr (by rw [if_pos rfl])⟩ rfl
  · intro _
    exact Or.inl ((hnew _ _).mpr (by rw [if_pos rfl]))
  · intro conn hreg
    have hconn := (hnew _ _).mp hreg
    rw [if_pos rfl] at hconn
    exact ⟨hconn, Or.inr rfl⟩

/-- A list of names is written, in the state of a loaded server. -/
theorem Same.modify {st : Nat} {state : ServerState} (g : ServerState → ServerState)
    (hstate : s.states[st]? = some state) (hw : state.workspaceID = c.workspaceID)
    (hsrv : state.serverName = c.serverName) (hon : ¬ c.On w srv) (hservers : s'.servers = s.servers)
    (hstates : s'.states = s.states.modify st g) (hconns : s'.conns = s.conns)
    (hregs : s'.toolsR = s.toolsR) : Same s s' w srv := by
  have hsame : Same s { s' with states := s.states } w srv :=
    ⟨by unfold Shared.loadedAs; rw [hservers], fun _ _ _ _ hst => hst,
      fun conn hopen => by unfold Shared.Open; rw [hconns]; exact hopen, fun n conn => by rw [hregs]⟩
  refine ⟨hsame.servers, fun st' state' hw' hsrv' hst' => ?_, hsame.conns, hsame.registers⟩
  have hne : st ≠ st' := by
    rintro rfl
    cases hstate.symm.trans hst'
    exact hon ⟨hw.symm.trans hw', hsrv.symm.trans hsrv'⟩
  rw [hstates, List.getElem?_modify, hst']
  simp [hne]

theorem getElem?_modify_self {st : Nat} {state : ServerState} (hstate : s.states[st]? = some state)
    (g : ServerState → ServerState) : (s.states.modify st g)[st]? = some (g state) := by
  rw [List.getElem?_modify, hstate]
  simp

theorem Shared.Inv.append (h : s.Inv) (hc : s.calls[i]? = some c) {st : Nat} {fn : String}
    (hstage : c.stage = .append st fn) : (s.append i c st fn).Inv := by
  have hown := h.server c.workspaceID c.serverName
  have hok := hown.ok c (List.mem_of_getElem? hc) ⟨rfl, rfl⟩
  rw [hstage] at hok
  obtain ⟨hload, state, hhere, hreg⟩ := hok.rests
  obtain ⟨state₀, hloaded⟩ := hown.loaded st hload
  obtain rfl : state₀ = state := Option.some.inj (hloaded.here.symm.trans hhere)
  refine h.of_step hc rfl rfl rfl ?_ (fun w srv hon => ?_) (fun hu => hu.elim)
  · refine hown.toggle hc ⟨rfl, rfl⟩ rfl ⟨rfl, rfl⟩ (by rw [hstage]; rfl) (Or.inl rfl) hload hload hhere
      (getElem?_modify_self hhere _) rfl (appendUnique_nodup hloaded.distinct fn)
      (fun _ hopen => hopen) (fun _ _ _ => Iff.rfl) (fun n hn => ?_) (Stage.ok_of_none trivial rfl) ?_ ?_
    · rw [mem_appendUnique]
      exact or_iff_left hn
    · exact fun _ => Or.inl hreg
    · intro conn hreg'
      exact ⟨(hreg.unique hreg').2, Or.inl (mem_appendUnique.mpr (Or.inr rfl))⟩
  · exact Same.modify _ hhere hloaded.workspace hloaded.server hon rfl rfl rfl rfl

theorem Shared.Inv.disable (h : s.Inv) (hc : s.calls[i]? = some c) {st : Nat} {fn : String}
    (hstage : c.stage = .disable st fn) (hfree : s.FreeOf c fn) : (s.disable i c st fn).Inv := by
  have hown := h.server c.workspaceID c.serverName
  have hok := hown.ok c (List.mem_of_getElem? hc) ⟨rfl, rfl⟩
  rw [hstage] at hok
  have hload : s.loadedAs c.workspaceID c.serverName = some st := hok.rests
  obtain ⟨state, hloaded⟩ := hown.loaded st hload
  have hgone : ∀ conn, ¬ Registers (s.toolsR.unregisterForWorkspace c.workspaceID.val fn).1
      c.workspaceID c.serverName fn conn :=
    fun conn hreg => ((registers_unregisterForWorkspace fn).mp hreg).1 ⟨rfl, rfl⟩
  refine h.of_step hc rfl rfl rfl ?_ (fun w srv hon => Same.unregister ⟨rfl, rfl, rfl⟩ rfl hfree hon)
    (fun hu => hu.elim)
  refine hown.toggle hc ⟨rfl, rfl⟩ rfl ⟨rfl, rfl⟩ (by rw [hstage]; rfl) (Or.inr rfl) hload hload
    hloaded.here hloaded.here rfl hloaded.distinct (fun _ hopen => hopen) (fun n hn conn => ?_)
    (fun _ _ => Iff.rfl) ?_ (fun _ => Or.inr rfl) (fun conn hreg => absurd hreg (hgone conn))
  · exact (registers_unregisterForWorkspace fn).trans (and_iff_right fun he => hn he.2)
  · exact Stage.ok_of_none ⟨hload, hgone⟩ rfl

theorem Shared.Inv.removeName (h : s.Inv) (hc : s.calls[i]? = some c) {st : Nat} {fn : String}
    (hstage : c.stage = .removeName st fn) : (s.removeName i c st fn).Inv := by
  have hown := h.server c.workspaceID c.serverName
  have hok := hown.ok c (List.mem_of_getElem? hc) ⟨rfl, rfl⟩
  rw [hstage] at hok
  obtain ⟨hload, hnot⟩ := hok.rests
  obtain ⟨state, hloaded⟩ := hown.loaded st hload
  refine h.of_step hc rfl rfl rfl ?_ (fun w srv hon => ?_) (fun hu => hu.elim)
  · refine hown.toggle hc ⟨rfl, rfl⟩ rfl ⟨rfl, rfl⟩ (by rw [hstage]; rfl) (Or.inl rfl) hload hload
      hloaded.here (getElem?_modify_self hloaded.here _) rfl (hloaded.distinct.erase fn)
      (fun _ hopen => hopen) (fun _ _ _ => Iff.rfl) (fun n hn => ?_) (Stage.ok_of_none trivial rfl) ?_
      (fun conn hreg => absurd hreg (hnot conn))
    · exact List.mem_erase_of_ne hn
    · intro hmem
      exact absurd rfl (hloaded.distinct.mem_erase_iff.mp hmem).1
  · exact Same.modify _ hloaded.here hloaded.workspace hloaded.server hon rfl rfl rfl rfl

/-! ## Runs -/

/-- A new call has nothing in its hands. -/
theorem Shared.Inv.begin_call (h : s.Inv) (op : Op) : (s.step (.start op)).Inv := by
  have hidle : op.call.stage.hold = none := by cases op <;> rfl
  have hnew : op.call.changed = false := by cases op <;> rfl
  constructor
  · intro w srv
    have hsame : Same s (s.step (.start op)) w srv := by
      apply Same.of_eq <;> rfl
    refine (h.server w srv).transfer hsame s.calls.length (fun j c hc _ => Or.inl ?_)
      (fun j c hc _ => ?_)
    · exact Lib.getElem?_append_of_some hc _
    · by_cases hj : j < s.calls.length
      · exact Or.inl ((List.getElem?_append_left hj).symm.trans hc)
      · have hmem : (s.calls ++ [op.call])[j]? = some c := hc
        rw [List.getElem?_append_right (Nat.le_of_not_lt hj)] at hmem
        obtain ⟨hlt, hget⟩ := List.getElem?_eq_some_iff.mp hmem
        simp only [List.length_singleton] at hlt
        obtain rfl : op.call = c := by simpa using hget
        refine Or.inr ⟨by omega, Stage.ok_of_idle hidle, fun st _ hwhole => ?_, fun k c' _ _ _ x y hx => ?_⟩
        · cases hidle.symm.trans hwhole
        · cases hidle.symm.trans hx
  · intro c hmem hu
    rcases List.mem_append.mp hmem with hold | hmem'
    · exact h.unchanged c hold hu
    · rw [List.mem_singleton.mp hmem']
      exact hnew

theorem Shared.Inv.step (h : s.Inv) {event : CallEvent} (hcareful : s.Careful event) :
    (s.step event).Inv := by
  cases event with
  | start op => exact h.begin_call op
  | advance i fault =>
    cases hc : s.calls[i]? with
    | none =>
      have hstep : s.step (.advance i fault) = s := by simp only [Shared.step, hc]
      rw [hstep]
      exact h
    | some c =>
      have hguard := hcareful c hc
      have hstep : s.step (.advance i fault) = s.advance i c fault := by simp only [Shared.step, hc]
      rw [hstep, Shared.advance]
      cases hstage : c.stage with
      | listTools answer => exact h.listTools hc hstage
      | syncFunctions mcpTools => exact h.syncFunctions hc hstage fault
      | detach reload => exact h.detach hc hstage (by simpa only [hstage] using hguard)
      | collect st reload => exact h.collect hc hstage
      | unregister conn names reload => exact h.unregister hc hstage
      | listFunctions => exact h.listFunctions hc hstage (by simpa only [hstage] using hguard)
      | tryRegister conn funcs toolNames =>
        cases funcs with
        | nil => exact h.publish hc hstage
        | cons f funcs => exact h.tryRegister_cons hc hstage
      | register conn f funcs toolNames =>
        exact h.register hc hstage (by simpa only [hstage] using hguard)
      | setEnabled fn enabled => exact h.setEnabled hc hstage fault
      | lookUp fn enabled => exact h.lookUp hc hstage (by simpa only [hstage] using hguard)
      | reread st fn => exact h.reread hc hstage fault
      | tryEnable st f => exact h.tryEnable hc hstage
      | enable st f => exact h.enable hc hstage (by simpa only [hstage] using hguard)
      | append st fn => exact h.append hc hstage
      | disable st fn => exact h.disable hc hstage (by simpa only [hstage] using hguard)
      | removeName st fn => exact h.removeName hc hstage
      | returned err => exact h

theorem Shared.Inv.sound (h : s.Inv) : s.Sound := by
  refine ⟨fun hreturned => ?_, fun c hmem err hstage => h.unchanged c hmem (by rw [hstage]; trivial)⟩
  have hat : ∀ w srv stage, Stage.Pending stage → ¬ s.At w srv stage := by
    rintro w srv stage hpending ⟨c, hmem, -, rfl⟩
    obtain ⟨err, hstage⟩ := hreturned c hmem
    rw [hstage] at hpending
    exact hpending
  have htools : ∀ c ∈ s.calls, c.stage.tools s = none := by
    intro c hmem
    obtain ⟨err, hstage⟩ := hreturned c hmem
    rw [hstage]
    rfl
  have hlisted : ∀ w srv n conn, Registers s.toolsR w srv n conn →
      ∃ st state, s.loadedAs w srv = some st ∧ s.LoadedOk w srv st state ∧ state.conn = conn
        ∧ n ∈ state.toolNames := by
    intro w srv n conn hreg
    rcases (h.server w srv).answered n conn hreg with
      ⟨st, state, hst, hstate, hconn, hn⟩ | ⟨c, hmem, -, names, ht, -⟩
    · obtain ⟨state', hok⟩ := (h.server w srv).loaded st hst
      obtain rfl : state' = state := Option.some.inj (hok.here.symm.trans hstate)
      exact ⟨st, state', hst, hok, hconn, hn.resolve_right (hat w srv _ trivial)⟩
    · cases (htools c hmem).symm.trans ht
  constructor
  · intro w srv n conn hreg
    obtain ⟨st, state, hst, hok, rfl, -⟩ := hlisted w srv n conn hreg
    refine ⟨?_, _, hok.conn, rfl⟩
    unfold Shared.serverState
    rw [show s.servers.lookup (stateKey w srv) = some st from hst, Option.bind_some, hok.here]
    exact Option.some_ne_none state
  · intro w srv state hstate n
    obtain ⟨st, hst, hhere⟩ := Option.bind_eq_some_iff.mp hstate
    obtain ⟨state', hok⟩ := (h.server w srv).loaded st hst
    obtain rfl : state' = state := Option.some.inj (hok.here.symm.trans hhere)
    constructor
    · intro hn
      exact ⟨_, (hok.registered n hn).resolve_right (hat w srv _ trivial)⟩
    · rintro ⟨conn, hreg⟩
      obtain ⟨st', state', hst', hok', -, hn⟩ := hlisted w srv n conn hreg
      cases (show s.loadedAs w srv = some st from hst).symm.trans hst'
      cases hok.here.symm.trans hok'.here
      exact hn

theorem Shared.Inv.start (store : FunctionTable) (ts : List PlatformTool) (scrubbing : Bool) :
    (Shared.start store (platformRegistry ts scrubbing)).Inv := by
  have hno : ∀ w srv n conn, ¬ Registers (platformRegistry ts scrubbing) w srv n conn := by
    rintro w srv n conn ⟨rt, ws, hl, -⟩
    obtain ⟨p, he, -⟩ := platformRegistry_platformOnly ts scrubbing _ _ hl
    cases he
  constructor
  · intro w srv
    constructor
    · intro i j c c' _ hc
      cases hc
    · intro st hst c hmem
      cases hmem
    · intro c hmem
      cases hmem
    · intro st hst
      cases hst
    · intro n conn hreg
      exact absurd hreg (hno w srv n conn)
  · intro c hmem
    cases hmem

end

/-- In every run of careful steps the tools are settled whenever all
calls have returned, and no call that failed has touched them. -/
theorem tools_sound (store : FunctionTable) (ts : List PlatformTool) (scrubbing : Bool)
    (events : List CallEvent)
    (hcareful : Lib.Along Shared.Careful Shared.step
      (Shared.start store (platformRegistry ts scrubbing)) events) :
    Lib.Always Shared.Sound Shared.step (Shared.start store (platformRegistry ts scrubbing)) events :=
  Lib.always_of_along (fun _ _ hs hcareful => hs.step hcareful) (fun _ hs => hs.sound) events _
    (Shared.Inv.start store ts scrubbing) hcareful

end

/-! ## A removed server and a failed reload -/

/-- Jira with one function. -/
def jiraTable (enabled : Bool) : FunctionTable :=
  { rows := [{ searchOf "jira" with enabled := enabled }], unique := List.nodup_singleton _ }

def jiraStart (enabled : Bool) : Shared := Shared.start (jiraTable enabled) (platformRegistry [] true)

/-- The i-th call takes some steps. -/
def steps (i n : Nat) : List CallEvent := List.replicate n (.advance i none)

/-- A toggle finds the server, which is removed before it registers. -/
def toggledAndRemoved : List CallEvent :=
  [.start (.loadFromCache defaultWorkspaceID "jira")] ++ steps 0 3
    ++ [.start (.setFunctionEnabled defaultWorkspaceID "jira" "search" true)] ++ steps 1 4
    ++ [.start (.remove defaultWorkspaceID "jira")] ++ steps 2 3 ++ steps 1 2

/-- A loaded server is loaded again, and `ListFunctions` fails. -/
def failedReload : List CallEvent :=
  [.start (.loadFromCache defaultWorkspaceID "jira")] ++ steps 0 5
    ++ [.start (.loadFromCache defaultWorkspaceID "jira")] ++ steps 1 4
    ++ [.advance 1 (some "connection lost")]

/-- The first leaves a tool of the removed server, with its closed
connection; the second takes the tools of the server away. -/
theorem tools_unsettled :
    ¬ Lib.Always Shared.Sound Shared.step (jiraStart false) toggledAndRemoved
      ∧ ¬ Lib.Always Shared.Sound Shared.step (jiraStart true) failedReload := by
  constructor
  · intro h
    let after := Lib.run Shared.step (jiraStart false) toggledAndRemoved
    have hreturned : ∀ c ∈ after.calls, ∃ err, c.stage = .returned err := by
      have hcalls : after.calls.map Call.stage
          = [.returned none, .returned none, .returned none] := by rfl
      intro c hmem
      have hstage : c.stage ∈ after.calls.map Call.stage := List.mem_map_of_mem hmem
      rw [hcalls] at hstage
      exact ⟨none, by simpa using hstage⟩
    have htool : Registers after.toolsR defaultWorkspaceID "jira" "search" 0 :=
      ⟨⟨"jira", 0, "search", "Search"⟩, defaultWorkspaceID.val, by decide +kernel, rfl, rfl⟩
    have hgone : after.serverState defaultWorkspaceID "jira" = none := by decide +kernel
    exact ((h.last.settled hreturned).loaded _ _ _ _ htool).1 hgone
  · intro h
    let after := Lib.run Shared.step (jiraStart true) failedReload
    have hcall : ∃ c, after.calls[1]? = some c ∧ c.changed = true
        ∧ c.stage = .returned (some "list cached functions for jira: connection lost") :=
      ⟨_, rfl, by decide +kernel, rfl⟩
    obtain ⟨c, hc, hchanged, hstage⟩ := hcall
    cases hchanged.symm.trans (h.last.failed c (List.mem_of_getElem? hc) _ hstage)

/-- A load alone. -/
theorem tools_sound_load :
    Lib.Always Shared.Sound Shared.step (jiraStart true)
      ([.start (.loadFromCache defaultWorkspaceID "jira")] ++ steps 0 5) := by
  refine tools_sound (jiraTable true) [] true _ ⟨trivial, ?_, ?_, ?_, ?_, ?_, trivial⟩
  · intro c hc
    cases hc
    intro _ j c' hj hc'
    cases j with
    | zero => exact absurd rfl hj
    | succ j => cases hc'
  · intro c hc
    cases hc
    exact fun hne => absurd rfl hne
  · intro c hc
    cases hc
    trivial
  · intro c hc
    cases hc
    intro srv conn hreg
    obtain ⟨rt, ws, hl, -⟩ := hreg
    cases hl
  · intro c hc
    cases hc
    trivial

end LendingClaw.Mcp
