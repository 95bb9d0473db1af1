/-
LendingClaw.Http.RbacMiddleware — the RBAC middleware and what it makes
of a tool call (`internal/transport/http/middleware/rbac.go`).

`rbacMiddleware` is the context the next handler receives;
`runContext` is what `AgentHandler.Run` and `Loop.Run` make of it
before the loop calls `ExecuteWithContext`. The section at the end is
the authorization law: a tool runs exactly when its permission key is
among the user's permissions. It holds exactly when the user holds at
least one tool permission, because the filter answers nil for none and a
nil allowed list means no restriction.
-/
import LendingClaw.Rbac.Enforcer
import LendingClaw.Tools.Registry

namespace LendingClaw.Http

open LendingClaw.Tools LendingClaw.Rbac

/-- `RBACMiddleware`; a nil enforcer is `none`. -/
def rbacMiddleware {σ : Type} [CasbinPolicy σ] (enforcer : Option σ) (path : String)
    (ctx : Context) : Context :=
  match enforcer with
  | none => ctx
  | some enf =>
    if !Lib.hasPrefix path "/api/" then ctx
    else match ctx.claims with
      | none => ctx
      | some sub =>
        let dom := ctx.httpWorkspace
        -- in a workspace with no roles defined, RBAC is bypassed
        if dom = "" || !hasRoles enf dom then ctx
        else
          let perms := getUserPermissions enf sub dom
          withAllowedTools (contextWithPermissions ctx (some perms))
            (filterToolPermissions perms)

/-- The context of the run: `AgentHandler.Run` takes the workspace from
the request context, `Loop.Run` defaults it and stores it for the tools. -/
def runContext (ctx : Context) : Context :=
  withWorkspace ctx
    (if ctx.httpWorkspace = "" then Store.defaultWorkspaceID.val else ctx.httpWorkspace)

/-- The permission check of the routes wrapped by `RequirePermission`:
nil permissions are bootstrap mode. -/
def requirePermission (resource : String) (ctx : Context) : Bool :=
  match ctx.permissions with
  | none => true
  | some perms => perms.any (fun p => p == resource)

/-! ## The context of an authenticated user in a workspace with roles -/

section
variable {σ : Type} [CasbinPolicy σ] {enf : σ} {path sub : String} {ctx : Context}
  {w : Store.WorkspaceID}

theorem rbacMiddleware_active (hpath : Lib.hasPrefix path "/api/" = true)
    (hsub : ctx.claims = some sub) (hw : ctx.httpWorkspace = w.val)
    (hroles : hasRoles enf w.val = true) :
    rbacMiddleware (some enf) path ctx
      = withAllowedTools
          (contextWithPermissions ctx (some (getUserPermissions enf sub w.val)))
          (filterToolPermissions (getUserPermissions enf sub w.val)) := by
  simp [rbacMiddleware, hpath, hsub, hw, hroles, w.nonempty]

theorem runContext_active (hpath : Lib.hasPrefix path "/api/" = true)
    (hsub : ctx.claims = some sub) (hw : ctx.httpWorkspace = w.val)
    (hroles : hasRoles enf w.val = true) :
    (runContext (rbacMiddleware (some enf) path ctx)).workspace = w.val
      ∧ (runContext (rbacMiddleware (some enf) path ctx)).allowedTools
          = filterToolPermissions (getUserPermissions enf sub w.val) := by
  rw [rbacMiddleware_active hpath hsub hw hroles]
  refine ⟨?_, rfl⟩
  have hws : (withAllowedTools
      (contextWithPermissions ctx (some (getUserPermissions enf sub w.val)))
      (filterToolPermissions (getUserPermissions enf sub w.val))).httpWorkspace = w.val := hw
  rw [runContext, hws, if_neg w.nonempty]
  rfl

end

/-! ## Tool authorization -/

/-- Tool authorization is exact at one request: the registry calls `t`
exactly when its permission key is among the resolved permissions `P`,
and answers permission denied otherwise. -/
def ToolAuthorizationExact {Args : Type} (exec : Tool → Args → Result)
    (scrub : String → String) (reg : Registry) (ctx : Context) (P : List String) (t : Tool)
    (args : Args) : Prop :=
  ((reg.executeWithContext exec scrub ctx t.name args).executed = some t
      ↔ permissionKeyOf t ∈ P)
    ∧ (permissionKeyOf t ∉ P →
        reg.executeWithContext exec scrub ctx t.name args = permissionDenied t.name)

/-- The law for any context that carries the filtered permissions, and
any list of strings as those permissions. -/
theorem exact_iff_some_tool_permission {Args : Type} {exec : Tool → Args → Result}
    {scrub : String → String} {reg : Registry} {ctx : Context} {P : List String} {t : Tool}
    (args : Args) (hres : reg.getForWorkspace ctx.workspace t.name = some t)
    (hctx : ctx.allowedTools = filterToolPermissions P) :
    ToolAuthorizationExact exec scrub reg ctx P t args
      ↔ ∃ p ∈ P, isToolPermission p = true := by
  by_cases h : ∃ p ∈ P, isToolPermission p = true
  · refine ⟨fun _ => h, fun _ => ?_⟩
    rw [filterToolPermissions_some h] at hctx
    have hmem : permissionKeyOf t ∈ P.filter isToolPermission ↔ permissionKeyOf t ∈ P := by
      rw [List.mem_filter]
      exact and_iff_left (isToolPermission_permissionKeyOf t)
    refine ⟨⟨fun hex => ?_, fun hk => ?_⟩, fun hk => ?_⟩
    · by_contra hk
      rw [Registry.execute_denied hres hctx (fun hf => hk (hmem.mp hf))] at hex
      cases hex
    · exact Registry.execute_allowed hres hctx (hmem.mpr hk)
    · exact Registry.execute_denied hres hctx (fun hf => hk (hmem.mp hf))
  · refine ⟨fun hexact => absurd ?_ h, fun h' => absurd h' h⟩
    have hnone : ∀ p ∈ P, isToolPermission p = false := fun p hp => by
      by_contra hc
      exact h ⟨p, hp, by simpa using hc⟩
    rw [filterToolPermissions_none hnone] at hctx
    exact ⟨permissionKeyOf t,
      hexact.1.mp (Registry.execute_unrestricted hres hctx),
      isToolPermission_permissionKeyOf t⟩

/-- Once RBAC is active, tool authorization is exact for every tool
visible in the workspace if and only if the user's resolved permissions
contain at least one tool permission. -/
theorem tool_authorization_exact_iff {σ Args : Type} [CasbinPolicy σ] (enf : σ)
    (exec : Tool → Args → Result) (scrub : String → String) (reg : Registry)
    (hreg : reg.Built) (w : Store.WorkspaceID) (path sub : String) (ctx : Context)
    (hpath : Lib.hasPrefix path "/api/" = true) (hsub : ctx.claims = some sub)
    (hw : ctx.httpWorkspace = w.val) (hroles : hasRoles enf w.val = true) (t : Tool)
    (ht : t ∈ reg.allForWorkspace w.val) (args : Args) :
    ToolAuthorizationExact exec scrub reg (runContext (rbacMiddleware (some enf) path ctx))
        (getUserPermissions enf sub w.val) t args
      ↔ ∃ p ∈ getUserPermissions enf sub w.val, isToolPermission p = true := by
  obtain ⟨hws, hallowed⟩ := runContext_active hpath hsub hw hroles
  refine exact_iff_some_tool_permission args ?_ hallowed
  rw [hws]
  exact hreg.sound.visible_resolves w ht

/-! ### A user whose role grants no tool -/

/-- The workspace's only role grants one tab and no tool. -/
def tabOnlyPolicy : FlatPolicy :=
  { p := [["viewer", Store.defaultWorkspaceID.val, "tab:sessions:read", "access"]]
    g := [["alice", "viewer", Store.defaultWorkspaceID.val]] }

def memorySet : PlatformTool := { name := "memory_set", description := "", noNul := by decide }

def aliceContext : Context :=
  { claims := some "alice"
    httpWorkspace := Store.defaultWorkspaceID.val
    workspace := Store.defaultWorkspaceID.val }

/-- The viewer's resolved permissions are the one tab, and the registry
runs `memory_set` for her all the same. -/
theorem tab_only_user_runs_every_tool :
    getUserPermissions tabOnlyPolicy "alice" Store.defaultWorkspaceID.val
        = ["tab:sessions:read"]
      ∧ ¬ ToolAuthorizationExact (fun _ (_ : Unit) => ⟨"saved", "", false⟩) id
          (platformRegistry [memorySet] true)
          (runContext (rbacMiddleware (some tabOnlyPolicy) "/api/v1/agent/run" aliceContext))
          (getUserPermissions tabOnlyPolicy "alice" Store.defaultWorkspaceID.val)
          (.platform memorySet) () := by
  refine ⟨by decide, fun h => absurd (h.1.mp (by decide)) (by decide)⟩

/-- The law applied to the same request: no tool permission, no exact
authorization. -/
theorem tool_authorization_exact_iff_viewer :
    ToolAuthorizationExact (fun _ (_ : Unit) => ⟨"saved", "", false⟩) id
        (platformRegistry [memorySet] true)
        (runContext (rbacMiddleware (some tabOnlyPolicy) "/api/v1/agent/run" aliceContext))
        (getUserPermissions tabOnlyPolicy "alice" Store.defaultWorkspaceID.val)
        (.platform memorySet) ()
      ↔ ∃ p ∈ getUserPermissions tabOnlyPolicy "alice" Store.defaultWorkspaceID.val,
          isToolPermission p = true :=
  tool_authorization_exact_iff tabOnlyPolicy _ id
    (platformRegistry [memorySet] true) (Registry.Built.platform [memorySet] true)
    Store.defaultWorkspaceID "/api/v1/agent/run" "alice" aliceContext (by decide) rfl rfl
    (by decide) (.platform memorySet) (by decide) ()

end LendingClaw.Http
