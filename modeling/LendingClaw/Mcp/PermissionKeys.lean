/-
LendingClaw.Mcp.PermissionKeys — what a permission key says of its tool
(`RemoteTool.PermissionKey`), and which keys the removal of a server
takes along (`internal/transport/http/handler/mcp_servers.go`).

A key is "mcp:", the server and the function, joined by colons, and
neither name is kept free of them. Two functions have one key when the
name of one server continues the other's over a colon and the function
names make up for it; the removal of a server, a prefix test, then takes
the other's permissions too (`keys_identify_iff`).
-/
import LendingClaw.Mcp.Manager
import LendingClaw.Rbac.Policies

namespace LendingClaw.Mcp

open LendingClaw.Tools LendingClaw.Store LendingClaw.Rbac CasbinEnforcer CasbinPolicy

/-! ## Keys -/

/-- `mcp:<server>:<function>`. -/
def functionKey (serverName funcName : String) : String := "mcp:" ++ serverName ++ ":" ++ funcName

theorem permissionKey_eq (rt : RemoteTool) :
    rt.permissionKey = functionKey rt.serverName rt.toolName := rfl

/-- The second server's name continues the first one's over a colon, and
the first function's name begins with the rest. -/
def Splices (s f s' f' : String) : Prop := ∃ t, s' = s ++ ":" ++ t ∧ f = t ++ ":" ++ f'

theorem join_colon_iff {a b x y : String} :
    a ++ ":" ++ x = b ++ ":" ++ y
      ↔ (a = b ∧ x = y) ∨ Splices a x b y ∨ Splices b y a x := by
  have htoList : ∀ u v : String, (u ++ ":" ++ v).toList = u.toList ++ ':' :: v.toList := by
    intro u v
    simp [String.toList_append]
  have hsplice : ∀ s f s' f' : String, Splices s f s' f'
      ↔ ∃ t, s'.toList = s.toList ++ ':' :: t ∧ f.toList = t ++ ':' :: f'.toList := by
    intro s f s' f'
    constructor
    · rintro ⟨t, rfl, rfl⟩
      exact ⟨t.toList, htoList _ _, htoList _ _⟩
    · rintro ⟨t, hs, hf⟩
      refine ⟨String.ofList t, String.toList_inj.mp ?_, String.toList_inj.mp ?_⟩
      · rw [htoList, String.toList_ofList, hs]
      · rw [htoList, String.toList_ofList, hf]
  rw [← String.toList_inj, htoList, htoList, Lib.append_sep_eq_iff, String.toList_inj,
    String.toList_inj, hsplice, hsplice]

/-- When two functions have one key. -/
theorem functionKey_eq_iff {s f s' f' : String} :
    functionKey s f = functionKey s' f'
      ↔ (s = s' ∧ f = f') ∨ Splices s f s' f' ∨ Splices s' f' s f := by
  have hassoc : ∀ s f : String, functionKey s f = "mcp:" ++ (s ++ ":" ++ f) := by
    intro s f
    simp [functionKey, String.append_assoc]
  rw [hassoc, hassoc, String.append_right_inj]
  exact join_colon_iff

/-- The keys with the prefix of a server are those of any function of it. -/
theorem hasPrefix_functionKey {p s : String} :
    Lib.hasPrefix p ("mcp:" ++ s ++ ":") = true ↔ ∃ f, p = functionKey s f :=
  Lib.hasPrefix_iff

/-! ## Visible tools -/

/-- Two tools with one name, and one server if they are remote. -/
def SameTool : Tool → Tool → Prop
  | .platform p, .platform q => p.name = q.name
  | .remote a, .remote b => a.serverName = b.serverName ∧ a.toolName = b.toolName
  | _, _ => False

/-- Different tools of a workspace have different keys. -/
def KeysIdentify (r : Registry) (w : WorkspaceID) : Prop :=
  ∀ t ∈ r.allForWorkspace w.val, ∀ t' ∈ r.allForWorkspace w.val,
    ¬ SameTool t t' → permissionKeyOf t ≠ permissionKeyOf t'

/-- No visible function splices another one's names. -/
def Unspliced (r : Registry) (w : WorkspaceID) : Prop :=
  ∀ a b : RemoteTool, .remote a ∈ r.allForWorkspace w.val →
    .remote b ∈ r.allForWorkspace w.val →
      ¬ Splices a.serverName a.toolName b.serverName b.toolName

/-- The kinds of tools have no key in common. -/
theorem kinds_apart (p : PlatformTool) (a : RemoteTool) :
    permissionKeyOf (.platform p) ≠ permissionKeyOf (.remote a) := by
  intro h
  have hchars := congrArg String.toList h
  simp [permissionKeyOf, RemoteTool.permissionKey, String.toList_append] at hchars

theorem splices_ne {s f s' f' : String} (h : Splices s f s' f') : ¬ (s = s' ∧ f = f') := by
  rintro ⟨rfl, -⟩
  obtain ⟨t, hs, -⟩ := h
  have hlen := congrArg String.length hs
  have hcolon : ":".length = 1 := rfl
  rw [String.length_append, String.length_append] at hlen
  omega

theorem keysIdentify_iff (r : Registry) (w : WorkspaceID) :
    KeysIdentify r w ↔ Unspliced r w := by
  constructor
  · intro h a b ha hb hsplice
    refine h _ ha _ hb (splices_ne hsplice) ?_
    exact functionKey_eq_iff.mpr (Or.inr (Or.inl hsplice))
  · intro h t ht t' ht' hne hkey
    cases t with
    | platform p =>
      cases t' with
      | platform q => exact hne ((String.append_right_inj _).mp hkey)
      | remote b => exact kinds_apart p b hkey
    | remote a =>
      cases t' with
      | platform q => exact kinds_apart q a hkey.symm
      | remote b =>
        rcases functionKey_eq_iff.mp hkey with hsame | hsplice | hsplice
        · exact hne hsame
        · exact h a b ht ht' hsplice
        · exact h b a ht' ht hsplice

/-! ## The handler -/

/-- What `MCPServersHandler` works on: the manager with the function
table, the keys of `mcp_servers`, and the enforcer. -/
structure McpServers (σ : Type) where
  manager : Manager
  servers : List (WorkspaceID × String)
  enforcer : σ

/-- `MCPServersHandler.Create`, for an enabled server: the status. -/
def McpServers.create {σ : Type} (h : McpServers σ) (ws : WorkspaceID) (name url : String)
    (insert : Fault) (listTools : Except String (List (String × String))) :
    McpServers σ × Nat :=
  let name := Lib.trimSpace name
  let url := Lib.trimSpace url
  if name = "" ∨ url = "" then (h, 400)
  else if insert ≠ none ∨ h.servers.contains (ws, name) then (h, 409)
  else
    ({ h with
        servers := h.servers ++ [(ws, name)]
        manager := (h.manager.sync ws name listTools).1 }, 201)

/-- The faults of a removal: the query, the transaction, the policies of
the domain, and each rule. -/
structure DeleteFaults where
  get : Fault := none
  delete : Fault := none
  policies : Fault := none
  rules : Nat → Fault := fun _ => none

/-- The store's `Delete`: the functions, then the server. -/
def McpServers.deleteRows {σ : Type} (h : McpServers σ) (ws : WorkspaceID) (name : String) :
    McpServers σ :=
  { h with
    manager :=
      { h.manager with
        store := h.manager.store.delete
          (fun f => f.workspaceID == ws && f.serverName == name) }
    servers := h.servers.filter (fun srv => srv != (ws, name)) }

/-- `MCPServersHandler.Delete`: the status. A failed clean-up is logged. -/
def McpServers.delete {σ : Type} [CasbinRules σ] (h : McpServers σ) (ws : WorkspaceID)
    (name : String) (f : DeleteFaults) : McpServers σ × Nat :=
  if f.get ≠ none ∨ !h.servers.contains (ws, name) then (h, 404)
  else
    let h := { h with manager := h.manager.remove ws name }
    if f.delete ≠ none then (h, 500)
    else
      let h := h.deleteRows ws name
      ({ h with
          enforcer := (removePermissionsByPrefix h.enforcer ws.val ("mcp:" ++ name ++ ":")
            f.policies f.rules).1 }, 204)

section
variable {σ : Type} [CasbinRules σ]

/-- The role has the permission in the workspace. -/
def Permits (enf : σ) (ws : WorkspaceID) (role perm : String) : Prop :=
  ∃ act, [role, ws.val, perm, act] ∈ getPolicy enf

/-- The removal of a server takes the permissions of its functions from
every role, and no permission of a function of another server. -/
structure CleansUp (h : McpServers σ) (ws : WorkspaceID) (name : String) (enf : σ) : Prop where
  own : ∀ role perm, Permits enf ws role perm
    ↔ Permits h.enforcer ws role perm ∧ ¬ ∃ f, perm = functionKey name f
  others : ∀ g ∈ h.manager.store.rows, g.workspaceID = ws → g.serverName ≠ name → ∀ role,
    Permits h.enforcer ws role (functionKey g.serverName g.name) →
      Permits enf ws role (functionKey g.serverName g.name)

/-- The rules that the clean-up removes before a call of it fails. -/
def removedRules (h : McpServers σ) (ws : WorkspaceID) (name : String) (f : DeleteFaults) :
    List (List String) :=
  match f.policies with
  | some _ => []
  | none =>
    removedBefore f.rules ("mcp:" ++ name ++ ":") 0 (getFilteredPolicy h.enforcer 1 [ws.val])

/-- No call of the clean-up fails while a rule of the server is left. -/
def CleanUpServed (h : McpServers σ) (ws : WorkspaceID) (name : String) (f : DeleteFaults) :
    Prop :=
  ∀ role fn act, [role, ws.val, functionKey name fn, act] ∈ getPolicy h.enforcer →
    [role, ws.val, functionKey name fn, act] ∈ removedRules h ws name f

/-- The key of the function begins as the keys of the server do: one of
the two server names continues the other over a colon, the longer one
being the function's, or else the function's name begins with the rest. -/
def KeyOverlaps (name : String) (g : MCPFunction) : Prop :=
  (∃ t, g.serverName = name ++ ":" ++ t)
    ∨ ∃ t u, name = g.serverName ++ ":" ++ t ∧ g.name = t ++ ":" ++ u

/-- No role has a permission of another server whose key overlaps. -/
def OthersApart (h : McpServers σ) (ws : WorkspaceID) (name : String) : Prop :=
  ∀ g ∈ h.manager.store.rows, g.workspaceID = ws → g.serverName ≠ name → KeyOverlaps name g →
    ∀ role, ¬ Permits h.enforcer ws role (functionKey g.serverName g.name)

end

theorem keyOverlaps_iff {name : String} {g : MCPFunction} (hne : g.serverName ≠ name) :
    KeyOverlaps name g ↔ ∃ f, functionKey g.serverName g.name = functionKey name f := by
  constructor
  · rintro (⟨t, ht⟩ | ⟨t, u, hname, hfunc⟩)
    · exact ⟨t ++ ":" ++ g.name, functionKey_eq_iff.mpr (Or.inr (Or.inr ⟨t, ht, rfl⟩))⟩
    · exact ⟨u, functionKey_eq_iff.mpr (Or.inr (Or.inl ⟨t, hname, hfunc⟩))⟩
  · rintro ⟨f, hf⟩
    rcases functionKey_eq_iff.mp hf with ⟨heq, -⟩ | ⟨t, hname, hfunc⟩ | ⟨t, hname, -⟩
    · exact absurd heq hne
    · exact Or.inr ⟨t, f, hname, hfunc⟩
    · exact Or.inl ⟨t, hname⟩

section
variable {σ : Type} [CasbinRules σ] {h : McpServers σ} {ws : WorkspaceID} {name : String}
  {f : DeleteFaults}

/-- Only permissions of the server are removed. -/
theorem removedRules_key {role perm act : String}
    (hr : [role, ws.val, perm, act] ∈ removedRules h ws name f) :
    ∃ fn, perm = functionKey name fn := by
  rw [removedRules] at hr
  split at hr
  · cases hr
  · exact hasPrefix_functionKey.mp (removedBefore_subset _ _ _ _ _ hr).2

/-- Where the removal gets to the clean-up. -/
theorem delete_status :
    (h.delete ws name f).2 = 204 ↔ f.get = none ∧ (ws, name) ∈ h.servers ∧ f.delete = none := by
  unfold McpServers.delete
  split
  · rename_i hmissing
    refine iff_of_false (by simp) ?_
    rintro ⟨hget, hin, -⟩
    rcases hmissing with hno | hno
    · exact hno hget
    · rw [List.contains_iff_mem.mpr hin] at hno
      cases hno
  · rename_i hfound
    push Not at hfound
    have hin : (ws, name) ∈ h.servers := by simpa using hfound.2
    simp only
    split
    · rename_i hfail
      simp [hfail]
    · rename_i hdelete
      rw [not_not] at hdelete
      simp [hfound.1, hin, hdelete]

theorem delete_enforcer (hstatus : (h.delete ws name f).2 = 204) :
    (h.delete ws name f).1.enforcer
      = (removePermissionsByPrefix h.enforcer ws.val ("mcp:" ++ name ++ ":") f.policies
        f.rules).1 := by
  obtain ⟨hget, hin, hdelete⟩ := delete_status.mp hstatus
  simp [McpServers.delete, McpServers.deleteRows, hget, hin, hdelete]

variable [LawfulRules σ]

/-- Of the rules of the domain, the clean-up keeps those it has not
removed. -/
theorem permits_cleaned (role perm : String) :
    Permits (removePermissionsByPrefix h.enforcer ws.val ("mcp:" ++ name ++ ":") f.policies
        f.rules).1 ws role perm
      ↔ ∃ act, [role, ws.val, perm, act] ∈ getPolicy h.enforcer
        ∧ [role, ws.val, perm, act] ∉ removedRules h ws name f := by
  simp only [Permits, removePermissionsByPrefix, removedRules]
  cases f.policies with
  | some err => simp
  | none => simp only [mem_removeEach]

/-- The clean-up is exact when it is served and no other server's keys
overlap. -/
theorem cleansUp_iff :
    CleansUp h ws name (removePermissionsByPrefix h.enforcer ws.val ("mcp:" ++ name ++ ":")
        f.policies f.rules).1
      ↔ CleanUpServed h ws name f ∧ OthersApart h ws name := by
  constructor
  · intro hclean
    constructor
    · intro role fn act hrule
      by_contra hleft
      have hkept := (permits_cleaned role (functionKey name fn)).mpr ⟨act, hrule, hleft⟩
      exact ((hclean.own role (functionKey name fn)).mp hkept).2 ⟨fn, rfl⟩
    · intro g hg hws hne hoverlap role hpermits
      have hkept := hclean.others g hg hws hne role hpermits
      exact ((hclean.own role _).mp hkept).2 ((keyOverlaps_iff hne).mp hoverlap)
  · rintro ⟨hserved, hapart⟩
    have hkept : ∀ role perm, (¬ ∃ fn, perm = functionKey name fn) →
        Permits h.enforcer ws role perm →
          Permits (removePermissionsByPrefix h.enforcer ws.val ("mcp:" ++ name ++ ":") f.policies
            f.rules).1 ws role perm := by
      intro role perm hother hpermits
      obtain ⟨act, hrule⟩ := hpermits
      exact (permits_cleaned role perm).mpr
        ⟨act, hrule, fun hremoved => hother (removedRules_key hremoved)⟩
    constructor
    · intro role perm
      constructor
      · intro hafter
        obtain ⟨act, hrule, hleft⟩ := (permits_cleaned role perm).mp hafter
        refine ⟨⟨act, hrule⟩, ?_⟩
        rintro ⟨fn, rfl⟩
        exact hleft (hserved role fn act hrule)
      · intro hbefore
        exact hkept role perm hbefore.2 hbefore.1
    · intro g hg hws hne role hpermits
      refine hkept role _ (fun hkey => ?_) hpermits
      exact hapart g hg hws hne ((keyOverlaps_iff hne).mpr hkey) role hpermits

end

/-! ### Two servers with one key -/

/-- The servers `kb` and `kb:ops`, and a role that may use the second
one's function. -/
def splicedServers : McpServers FlatPolicy :=
  let empty : McpServers FlatPolicy :=
    { manager := newManager Lib.Table.empty newRegistry
      servers := []
      enforcer :=
        { p := [["analyst", defaultWorkspaceID.val, "mcp:kb:ops:search", "access"]], g := [] } }
  let kb := (empty.create defaultWorkspaceID "kb" "https://kb" none (.ok [("ops:search", "")])).1
  (kb.create defaultWorkspaceID "kb:ops" "https://ops" none (.ok [("search", "")])).1

end LendingClaw.Mcp
