/-
LendingClaw.Tools.Types — tools, their permission keys and the request
context (`internal/tools/types.go`, `internal/mcp/adapter.go`,
`pkg/httputil/auth_context.go`).

`tools.Tool` is an interface with two kinds of implementation in the
repository: the platform tools built in `cmd/wire.go`, none of which
implements `PermissionedTool`, and `*mcp.RemoteTool`, which does. The
type assertions of the source (`t.(PermissionedTool)`,
`existing.(*RemoteTool)`) are therefore matches on `Tool`.

A Go slice that may be nil is an `Option (List _)`: `none` is the nil
slice, `some []` the empty one. The distinction decides what an allowed
list means, so no definition below identifies the two.
-/
import LendingClaw.Store.Workspace

namespace LendingClaw.Tools

/-- A Go slice: `none` is nil. -/
abbrev Slice (α : Type) := Option (List α)

/-- `append(s, x)`: never nil. -/
def Slice.append {α : Type} (s : Slice α) (x : α) : Slice α := some (s.getD [] ++ [x])

/-- A tool compiled into the process. Its name is a literal of the source. -/
structure PlatformTool where
  name : String
  description : String
  noNul : '\x00' ∉ name.toList

instance : DecidableEq PlatformTool := fun a b =>
  decidable_of_iff (a.name = b.name ∧ a.description = b.description)
    (by cases a; cases b; simp)

/-- `mcp.RemoteTool`. `conn` names the `*Conn` the adapter calls through. -/
structure RemoteTool where
  serverName : String
  conn : Nat
  toolName : String
  description : String
  deriving DecidableEq, Repr

/-- `RemoteTool.PermissionKey`. -/
def RemoteTool.permissionKey (r : RemoteTool) : String :=
  "mcp:" ++ r.serverName ++ ":" ++ r.toolName

/-- `NewRemoteToolFromCache`, less the schema. -/
def newRemoteToolFromCache (serverName : String) (conn : Nat) (name description : String) :
    RemoteTool :=
  { serverName := serverName
    conn := conn
    toolName := name
    description := if description = "" then "MCP tool from server " ++ serverName
      else description }

/-- `tools.Tool`. -/
inductive Tool where
  | platform (t : PlatformTool)
  | remote (t : RemoteTool)
  deriving DecidableEq

def Tool.name : Tool → String
  | .platform t => t.name
  | .remote t => t.toolName

def Tool.description : Tool → String
  | .platform t => t.description
  | .remote t => t.description

/-- `existing.(*RemoteTool)`. -/
def Tool.isRemote : Tool → Bool
  | .platform _ => false
  | .remote _ => true

/-- `PermissionKeyOf`. -/
def permissionKeyOf : Tool → String
  | .remote t => t.permissionKey
  | .platform t => "tool:" ++ t.name

/-- `tools.Result`, less the Go error nothing here reads. -/
structure Result where
  forLLM : String
  forUser : String
  isError : Bool
  deriving DecidableEq, Repr

/-- `ErrorResult`. -/
def errorResult (msg : String) : Result :=
  { forLLM := msg, forUser := "", isError := true }

/-- `NewResult`. -/
def newResult (msg : String) : Result :=
  { forLLM := msg, forUser := "", isError := false }

/-! ## The request context -/

/-- The values the packages store in a `context.Context`, one field for
each key type. A key that was never set reads as "" or nil. -/
structure Context where
  /-- `httputil.claimsKey`: the `sub` of the verified token. -/
  claims : Option String := none
  /-- `httputil.workspaceKey`. -/
  httpWorkspace : String := ""
  /-- `httputil.permissionsKey`. -/
  permissions : Slice String := none
  /-- `tools.workspaceKey`. -/
  workspace : String := ""
  /-- `tools.allowedToolsKey`. -/
  allowedTools : Slice String := none
  deriving DecidableEq, Repr

/-- `tools.WithWorkspace`. -/
def withWorkspace (ctx : Context) (workspaceID : String) : Context :=
  { ctx with workspace := workspaceID }

/-- `tools.WithAllowedTools`. -/
def withAllowedTools (ctx : Context) (names : Slice String) : Context :=
  { ctx with allowedTools := names }

/-- `httputil.ContextWithPermissions`. -/
def contextWithPermissions (ctx : Context) (perms : Slice String) : Context :=
  { ctx with permissions := perms }

@[simp] theorem withWorkspace_workspace (ctx : Context) (w : String) :
    (withWorkspace ctx w).workspace = w := rfl
@[simp] theorem withWorkspace_allowedTools (ctx : Context) (w : String) :
    (withWorkspace ctx w).allowedTools = ctx.allowedTools := rfl

/-! ## Permission keys name their kind -/

/-- Every permission key has one of the two prefixes the filter of the
RBAC layer keeps. -/
theorem permissionKeyOf_prefix (t : Tool) :
    Lib.hasPrefix (permissionKeyOf t) "tool:" = true
      ∨ Lib.hasPrefix (permissionKeyOf t) "mcp:" = true := by
  cases t with
  | platform t => exact Or.inl (Lib.hasPrefix_append "tool:" t.name)
  | remote t =>
    refine Or.inr ?_
    rw [permissionKeyOf, RemoteTool.permissionKey, String.append_assoc, String.append_assoc]
    exact Lib.hasPrefix_append "mcp:" _

end LendingClaw.Tools
