/-
LendingClaw.Routines.BotPermissions — what a routine run may execute
(`internal/services/temporal/routine_workflow.go`).

`ExecuteRoutineActivity` resolves the permissions of the pseudo-user
`routine-bot` and stores the tool keys among them in the context; no
permission at all, and no tool permission, both leave the context
without an allowed list. The law is that a run calls permitted tools
only, and that fewer permissions never allow more tools. It is stated of
a policy in any state, whatever edits led to it.
-/
import LendingClaw.Rbac.Management
import LendingClaw.Tools.IsolationTheorems

namespace LendingClaw.Routines

open LendingClaw.Store LendingClaw.Tools LendingClaw.Rbac

/-- The subject of routine runs. -/
def routineBot : String := "routine-bot"

section
variable {σ : Type} [CasbinPolicy σ]

/-- The permission injection of `ExecuteRoutineActivity`; a nil enforcer
is `none`. -/
def injectPermissions (enforcer : Option σ) (ctx : Context) (wsID : String) : Context :=
  match enforcer with
  | none => ctx
  | some enf =>
    let perms := getUserPermissions enf routineBot wsID
    if perms.length > 0 then withAllowedTools ctx (filterToolPermissions perms) else ctx

/-- The context `Loop.Run` gives to the tools: the workspace of the
request, or the default one. -/
def loopRunContext (ctx : Context) (workspaceID : String) : Context :=
  withWorkspace ctx (if workspaceID = "" then defaultWorkspaceID.val else workspaceID)

/-- The context of a routine run; a Temporal activity starts with an empty
one. -/
def routineContext (enforcer : Option σ) (wsID : String) : Context :=
  loopRunContext (injectPermissions enforcer {} wsID) wsID

/-- A run of the routine may execute the tool, under some name. -/
def MayExecute {Args : Type} (exec : Tool → Args → Result) (scrub : String → String)
    (reg : Registry) (args : Args) (enf : σ) (w : WorkspaceID) (t : Tool) : Prop :=
  ∃ name, (reg.executeWithContext exec scrub (routineContext (some enf) w.val) name args).executed
    = some t

/-- The bot's permissions are sound and monotone: its runs execute only
permitted tools, and a policy that permits more allows no fewer tools. -/
def BotPermissionsSound {Args : Type} (exec : Tool → Args → Result) (scrub : String → String)
    (args : Args) (enf : σ) (w : WorkspaceID) : Prop :=
  ∀ reg : Registry,
    (∀ t, MayExecute exec scrub reg args enf w t →
      permissionKeyOf t ∈ getUserPermissions enf routineBot w.val)
    ∧ ∀ enf' : σ,
      getUserPermissions enf routineBot w.val ⊆ getUserPermissions enf' routineBot w.val →
      ∀ t, MayExecute exec scrub reg args enf w t → MayExecute exec scrub reg args enf' w t

/-! ## The allowed list of a run -/

theorem routineContext_workspace (enf : σ) (w : WorkspaceID) :
    (routineContext (some enf) w.val).workspace = w.val := by
  simp [routineContext, loopRunContext, w.nonempty]

/-- No permission and no tool permission come to the same: nil. -/
theorem routineContext_allowedTools (enf : σ) (w : WorkspaceID) :
    (routineContext (some enf) w.val).allowedTools
      = filterToolPermissions (getUserPermissions enf routineBot w.val) := by
  simp only [routineContext, loopRunContext, withWorkspace_allowedTools, injectPermissions]
  generalize getUserPermissions enf routineBot w.val = perms
  cases perms with
  | nil => rfl
  | cons p perms => rfl

section
variable {Args : Type} {exec : Tool → Args → Result} {scrub : String → String} {args : Args}
  {enf : σ} {w : WorkspaceID} {reg : Registry} {t : Tool}

/-- With a tool permission the allowed list is the tool permissions, and
the check is exact for every name. -/
theorem mayExecute_sound
    (h : ∃ p ∈ getUserPermissions enf routineBot w.val, isToolPermission p = true)
    (ht : MayExecute exec scrub reg args enf w t) :
    permissionKeyOf t ∈ getUserPermissions enf routineBot w.val := by
  obtain ⟨name, hexec⟩ := ht
  have hallowed := routineContext_allowedTools enf w
  rw [filterToolPermissions_some h] at hallowed
  by_contra hk
  have hden : reg.executeWithContext exec scrub (routineContext (some enf) w.val) name args
      = permissionDenied name :=
    Registry.execute_denied (Registry.executed_resolves hexec) hallowed
      (fun hf => hk (List.mem_filter.mp hf).1)
  rw [hden] at hexec
  cases hexec

/-- A name that runs a permitted tool runs it under any policy that
permits it. -/
theorem mayExecute_of_permitted {enf' : σ} (ht : MayExecute exec scrub reg args enf w t)
    (hk : permissionKeyOf t ∈ getUserPermissions enf' routineBot w.val) :
    MayExecute exec scrub reg args enf' w t := by
  obtain ⟨name, hexec⟩ := ht
  have hres := Registry.executed_resolves hexec
  rw [routineContext_workspace, ← routineContext_workspace enf' w] at hres
  have htool := isToolPermission_permissionKeyOf t
  have hallowed := routineContext_allowedTools enf' w
  rw [filterToolPermissions_some ⟨_, hk, htool⟩] at hallowed
  exact ⟨name, Registry.execute_allowed hres hallowed (List.mem_filter.mpr ⟨hk, htool⟩)⟩

/-- Without a tool permission every tool of the registry runs. -/
theorem mayExecute_unrestricted
    (h : ∀ p ∈ getUserPermissions enf routineBot w.val, isToolPermission p = false)
    (p : PlatformTool) :
    MayExecute exec scrub (newRegistry.register (.platform p)) args enf w (.platform p) := by
  refine ⟨p.name, Registry.execute_unrestricted ?_ ?_⟩
  · rw [routineContext_workspace, Registry.getForWorkspace_eq, Registry.resolve]
    have hkey : regKey w.val p.name ≠ p.name := regKey_ne_self w p.name
    simp [newRegistry, Tool.name, hkey]
  · rw [routineContext_allowedTools, filterToolPermissions_none h]

end

end

/-! ### The bot's last permission is taken -/

/-- The seeded role, granted one tool, and then updated to grant none. -/
def strippedBotPolicy : FlatPolicy :=
  let dom := defaultWorkspaceID.val
  let created := (createRole (⟨[], []⟩ : FlatPolicy) dom "routine_bot" ["tool:memory_get"] {}).1
  let assigned := (Rbac.addMember created dom "routine_bot" routineBot {}).1
  (updateRole assigned dom "routine_bot" [] {}).1

end LendingClaw.Routines
