/-
LendingClaw.Http.Workspaces — membership of a workspace: the handlers of
`internal/transport/http/handler/workspaces.go` and of the role routes
(`handler/rbac.go`), over the enforcer and the `workspace_members` table
(`internal/store/mysql/workspaces.go`).

The two stores are written one call after the other, without a
transaction, and every call may fail; `faults` gives the outcome of the
n-th enforcer call of a loop. What `store.Get` found and the decoded body
are arguments. The workspace row and the seeded context files play no
part here and are left out.
-/
import LendingClaw.Rbac.Management
import LendingClaw.Tools.Registry

namespace LendingClaw.Http

open LendingClaw.Store LendingClaw.Rbac LendingClaw.Tools

/-- What a handler writes: the status, and the text of `WriteError`. -/
structure Reply where
  status : Nat
  error : String := ""
  deriving DecidableEq

/-- The enforcer, nil when RBAC is disabled, and the member table. -/
structure Membership (σ : Type) where
  enforcer : Option σ
  members : List (WorkspaceID × String)

def invalidBody : Reply := { status := 400, error := "invalid JSON body" }

/-- The row of an `INSERT … ON DUPLICATE KEY UPDATE`. -/
def insertMember (members : List (WorkspaceID × String)) (m : WorkspaceID × String) :
    List (WorkspaceID × String) :=
  if m ∈ members then members else members ++ [m]

@[simp] theorem mem_insertMember {members : List (WorkspaceID × String)}
    {m x : WorkspaceID × String} : x ∈ insertMember members m ↔ x ∈ members ∨ x = m := by
  unfold insertMember
  split
  · rename_i hm
    constructor
    · exact Or.inl
    · intro h
      rcases h with h | rfl
      · exact h
      · exact hm
  · simp

section
variable {σ : Type}

/-- `MySQLWorkspaceStore.AddMember`. -/
def Membership.storeAddMember (s : Membership σ) (workspaceID : WorkspaceID) (userSub : String)
    (exec : Fault) : Membership σ × Fault :=
  match exec with
  | some err => (s, some ("add workspace member: " ++ err))
  | none => ({ s with members := insertMember s.members (workspaceID, userSub) }, none)

/-- `MySQLWorkspaceStore.RemoveMember`. -/
def Membership.storeRemoveMember (s : Membership σ) (workspaceID : WorkspaceID)
    (userSub : String) (exec : Fault) : Membership σ × Fault :=
  match exec with
  | some err => (s, some ("remove workspace member: " ++ err))
  | none => ({ s with members := s.members.filter (fun m => m != (workspaceID, userSub)) }, none)

variable [CasbinEnforcer σ]

/-- The loop that adds roles, up to the first error. -/
def addRoles (dom sub : String) (faults : Nat → CallFaults) :
    (i : Nat) → List String → σ → σ × Option RbacError
  | _, [], enf => (enf, none)
  | i, role :: roles, enf =>
    match addMember enf dom role sub (faults i) with
    | (enf, some err) => (enf, some err)
    | (enf, none) => addRoles dom sub faults (i + 1) roles enf

/-- The loop that removes roles, up to the first error. -/
def removeRoles (dom sub : String) (faults : Nat → CallFaults) :
    (i : Nat) → List String → σ → σ × Option RbacError
  | _, [], enf => (enf, none)
  | i, role :: roles, enf =>
    match removeMember enf dom role sub (faults i) with
    | (enf, some err) => (enf, some err)
    | (enf, none) => removeRoles dom sub faults (i + 1) roles enf

/-- The error branch of a role removal. -/
def removalReply (err : RbacError) : Reply :=
  match err with
  | .lastAdmin => { status := 409, error := err.text }
  | .other text => { status := 500, error := text }

/-- The faults of one request: the member table, and the two loops. -/
structure RequestFaults where
  member : Fault := none
  removal : Nat → CallFaults := fun _ => {}
  addition : Nat → CallFaults := fun _ => {}

namespace Membership

/-- `WorkspacesHandler.AddMember`. -/
def addMember (s : Membership σ) (found : Except String WorkspaceID)
    (body : Option (String × List String)) (f : RequestFaults) : Membership σ × Reply :=
  match found with
  | .error err => (s, { status := 404, error := err })
  | .ok w =>
    match body with
    | none => (s, invalidBody)
    | some (sub, roles) =>
      if sub = "" then (s, { status := 400, error := "sub is required" })
      else
        match s.storeAddMember w sub f.member with
        | (s, some err) => (s, { status := 500, error := err })
        | (s, none) =>
          match s.enforcer with
          | none => (s, { status := 204 })
          | some enf =>
            match addRoles w.val sub f.addition 0 roles enf with
            | (enf, some err) => ({ s with enforcer := some enf }, { status := 500, error := err.text })
            | (enf, none) => ({ s with enforcer := some enf }, { status := 204 })

/-- The roles `SetMemberRoles` removes, in the order it does. -/
def undesired (enf : σ) (w : WorkspaceID) (sub : String) (desired : List String) : List String :=
  (getRolesForUser enf sub w.val).filter (fun role => role ∉ desired)

/-- `WorkspacesHandler.SetMemberRoles`. -/
def setMemberRoles (s : Membership σ) (found : Except String WorkspaceID) (sub : String)
    (body : Option (List String)) (f : RequestFaults) : Membership σ × Reply :=
  match found with
  | .error err => (s, { status := 404, error := err })
  | .ok w =>
    match body with
    | none => (s, invalidBody)
    | some roles =>
      match s.enforcer with
      | none => (s, { status := 204 })
      | some enf =>
        let current := getRolesForUser enf sub w.val
        match removeRoles w.val sub f.removal 0 (undesired enf w sub roles) enf with
        | (enf, some err) => ({ s with enforcer := some enf }, removalReply err)
        | (enf, none) =>
          match addRoles w.val sub f.addition 0 (roles.filter (fun role => role ∉ current)) enf with
          | (enf, some err) => ({ s with enforcer := some enf }, { status := 500, error := err.text })
          | (enf, none) => ({ s with enforcer := some enf }, { status := 204 })

/-- The row of `workspace_members`, at the end of `RemoveMember`. -/
def finishRemoval (s : Membership σ) (w : WorkspaceID) (sub : String) (f : RequestFaults) :
    Membership σ × Reply :=
  match s.storeRemoveMember w sub f.member with
  | (s, some err) => (s, { status := 500, error := err })
  | (s, none) => (s, { status := 204 })

/-- `WorkspacesHandler.RemoveMember`. -/
def removeMember (s : Membership σ) (found : Except String WorkspaceID) (sub : String)
    (f : RequestFaults) : Membership σ × Reply :=
  match found with
  | .error err => (s, { status := 404, error := err })
  | .ok w =>
    match s.enforcer with
    | none => s.finishRemoval w sub f
    | some enf =>
      match removeRoles w.val sub f.removal 0 (getRolesForUser enf sub w.val) enf with
      | (enf, some err) => ({ s with enforcer := some enf }, removalReply err)
      | (enf, none) => ({ s with enforcer := some enf }).finishRemoval w sub f

end Membership

/-! ## Creation -/

/-- `tabResources`. -/
def tabResources : List String :=
  ["tab:sessions:read", "tab:sessions:create", "tab:sessions:delete",
   "tab:skills:read", "tab:skills:update", "tab:skills:delete",
   "tab:context-files:read", "tab:context-files:create", "tab:context-files:update",
   "tab:context-files:delete",
   "tab:knowledge:read", "tab:knowledge:create", "tab:knowledge:update", "tab:knowledge:delete",
   "tab:roles:read", "tab:roles:create", "tab:roles:update", "tab:roles:delete",
   "tab:mcp:read", "tab:mcp:create", "tab:mcp:update", "tab:mcp:delete",
   "tab:workspace:read", "tab:workspace:update",
   "tab:routines:read", "tab:routines:create", "tab:routines:update", "tab:routines:delete",
   "tab:routines:run"]

/-- The permission keys of the tools visible in a workspace. -/
def toolPermissions (reg : Option Registry) (w : WorkspaceID) : List String :=
  match reg with
  | none => []
  | some reg => (reg.allForWorkspace w.val).map permissionKeyOf

/-- `CreateRole`, and where it succeeds `AddMember`, whose error is
dropped. -/
def seedRole (enf : σ) (w : WorkspaceID) (role sub : String) (perms : List String)
    (fr : RoleFaults) (fm : CallFaults) : σ :=
  match createRole enf w.val role perms fr with
  | (enf, some _) => enf
  | (enf, none) => (Rbac.addMember enf w.val role sub fm).1

/-- The faults of a creation. -/
structure CreateFaults where
  store : Fault := none
  member : Fault := none
  admin : RoleFaults := {}
  adminMember : CallFaults := {}
  bot : RoleFaults := {}
  botMember : CallFaults := {}

/-- `WorkspacesHandler.Create`, for the id `uuid.New` gives. -/
def Membership.create (s : Membership σ) (reg : Option Registry) (claims : Option String)
    (body : Option String) (id : WorkspaceID) (f : CreateFaults) : Membership σ × Reply :=
  match claims with
  | none => (s, { status := 401, error := "unauthorized" })
  | some sub =>
    match body with
    | none => (s, invalidBody)
    | some name =>
      if Lib.trimSpace name = "" then (s, { status := 400, error := "name is required" })
      else
        match f.store with
        | some err => (s, { status := 500, error := "create workspace: " ++ err })
        | none =>
          match s.storeAddMember id sub f.member with
          | (s, some err) => (s, { status := 500, error := err })
          | (s, none) =>
            match s.enforcer with
            | none => (s, { status := 201 })
            | some enf =>
              let enf := seedRole enf id adminRole sub (tabResources ++ toolPermissions reg id)
                f.admin f.adminMember
              let enf := seedRole enf id "routine_bot" "routine-bot" (toolPermissions reg id)
                f.bot f.botMember
              ({ s with enforcer := some enf }, { status := 201 })

/-! ## Requests on one workspace -/

/-- A role name of the routes `rbac/roles` and `rbac/roles/{name}`. -/
abbrev RoleName := { name : String // name ≠ "" }

inductive MembershipRequest where
  | addMember (body : Option (String × List String)) (f : RequestFaults)
  | setMemberRoles (sub : String) (body : Option (List String)) (f : RequestFaults)
  | removeMember (sub : String) (f : RequestFaults)
  | createRole (name : RoleName) (permissions : List String) (f : RoleFaults)
  | updateRole (name : RoleName) (permissions : List String) (f : RoleFaults)
  | deleteRole (name : RoleName) (f : RoleFaults)

/-- A role route: its enforcer call, if there is an enforcer. -/
def Membership.onEnforcer (s : Membership σ) (call : σ → σ × Option RbacError) : Membership σ :=
  { s with enforcer := s.enforcer.map (fun enf => (call enf).1) }

/-- What a request on workspace `w` leaves. -/
def Membership.step (w : WorkspaceID) (s : Membership σ) : MembershipRequest → Membership σ
  | .addMember body f => (s.addMember (.ok w) body f).1
  | .setMemberRoles sub body f => (s.setMemberRoles (.ok w) sub body f).1
  | .removeMember sub f => (s.removeMember (.ok w) sub f).1
  | .createRole name perms f => s.onEnforcer (fun enf => Rbac.createRole enf w.val name.val perms f)
  | .updateRole name perms f => s.onEnforcer (fun enf => Rbac.updateRole enf w.val name.val perms f)
  | .deleteRole name f => s.onEnforcer (fun enf => Rbac.deleteRole enf w.val name.val f)

end

end LendingClaw.Http
