/-
LendingClaw.Http.Router — the routes, and the middleware before them
(`internal/transport/http/router.go`, `middleware/auth.go`,
`middleware/workspace.go`).

The middleware reads the decoded path, the mux the escaped one, segment
by segment. The routes are those that `NewRouter` registers for the
dependencies it is given, each with the permission of its
`RequirePermission`. The static files play no part here: `spaHandler`
hands every path under `/api/` to the mux. The look-up of a workspace,
the membership check and the JWT verification are parameters.
-/
import LendingClaw.Http.RbacMiddleware
import LendingClaw.Http.Workspaces
import LendingClaw.Lib.Paths

namespace LendingClaw.Http

open LendingClaw.Store LendingClaw.Tools LendingClaw.Rbac Lib

/-! ## Requests -/

/-- A request as the server hands it on: the escaped path decodes. -/
structure Request where
  method : String
  escapedPath : List Char
  path : List Char
  decodes : unescape escapedPath = some path

/-! ## Routes -/

inductive Handler where
  | health
  | listWorkspaces | createWorkspace | getWorkspace | updateWorkspace | deleteWorkspace
  | listMembers | addMember | setMemberRoles | removeMember
  | agentRun | chatCompletions
  | listSessions | getSession | updateSession | deleteSession
  | listSkills | createSkill | getSkill | updateSkill | deleteSkill | generateSkill
  | listContextFiles | createContextFile | upsertContextFile | deleteContextFile
  | listKnowledge | createKnowledge | getKnowledge | updateKnowledge | deleteKnowledge
  | syncKnowledge
  | rbacMe | rbacResources | listRoles | createRole | updateRole | deleteRole
  | listServers | getServer | createServer | updateServer | refreshServer
  | setFunctionEnabled | deleteServer
  | listRoutines | createRoutine | getRoutine | updateRoutine | deleteRoutine
  | listRoutineRuns | fireRoutine | rotateRoutineToken | revokeRoutineToken
  | setToken | logout | casLogin | mcpOAuthCallback
  deriving DecidableEq

/-- The handlers that need no authentication. -/
def Handler.public : Handler → Bool
  | .setToken | .logout | .casLogin | .mcpOAuthCallback => true
  | _ => false

/-- A registered pattern, its handler and the resource of its
`RequirePermission`. -/
structure Route where
  method : String
  pattern : List Part
  handler : Handler
  permission : Option String := none

/-- What `NewRouter` looks at of its dependencies: which are there. -/
structure RouterDeps where
  workspaces : Bool
  enforcer : Bool
  toolsReg : Bool
  mcpManager : Bool
  mcpServers : Bool
  routines : Bool
  jwtSecret : Bool
  casBaseURL : Bool

/-- `/api/v1/workspaces`. -/
def workspacesPath : List Part := [.lit "api", .lit "v1", .lit "workspaces"]

/-- `wsPrefix`. -/
def wsPrefix : List Part := workspacesPath ++ [.wild "wsID"]

def healthRoutes : List Route :=
  [{ method := "GET", pattern := [.lit "health"], handler := .health }]

def workspaceRoutes : List Route :=
  [{ method := "GET", pattern := workspacesPath, handler := .listWorkspaces },
   { method := "POST", pattern := workspacesPath, handler := .createWorkspace },
   { method := "GET", pattern := wsPrefix, handler := .getWorkspace },
   { method := "PUT", pattern := wsPrefix, handler := .updateWorkspace
     permission := "tab:workspace:update" },
   { method := "DELETE", pattern := wsPrefix, handler := .deleteWorkspace },
   { method := "GET", pattern := wsPrefix ++ [.lit "members"], handler := .listMembers },
   { method := "POST", pattern := wsPrefix ++ [.lit "members"], handler := .addMember
     permission := "tab:workspace:update" },
   { method := "PUT", pattern := wsPrefix ++ [.lit "members", .wild "sub", .lit "roles"]
     handler := .setMemberRoles, permission := "tab:workspace:update" },
   { method := "DELETE", pattern := wsPrefix ++ [.lit "members", .wild "sub"]
     handler := .removeMember, permission := "tab:workspace:update" }]

def scopedRoutes : List Route :=
  [{ method := "POST", pattern := wsPrefix ++ [.lit "agent", .lit "run"], handler := .agentRun
     permission := "tab:sessions:create" },
   { method := "POST", pattern := wsPrefix ++ [.lit "chat", .lit "completions"]
     handler := .chatCompletions },
   { method := "GET", pattern := wsPrefix ++ [.lit "sessions"], handler := .listSessions
     permission := "tab:sessions:read" },
   { method := "GET", pattern := wsPrefix ++ [.lit "sessions", .wild "key"]
     handler := .getSession, permission := "tab:sessions:read" },
   { method := "PUT", pattern := wsPrefix ++ [.lit "sessions", .wild "key"]
     handler := .updateSession },
   { method := "DELETE", pattern := wsPrefix ++ [.lit "sessions", .wild "key"]
     handler := .deleteSession, permission := "tab:sessions:delete" },
   { method := "GET", pattern := wsPrefix ++ [.lit "skills"], handler := .listSkills
     permission := "tab:skills:read" },
   { method := "POST", pattern := wsPrefix ++ [.lit "skills"], handler := .createSkill },
   { method := "GET", pattern := wsPrefix ++ [.lit "skills", .wild "id"], handler := .getSkill
     permission := "tab:skills:read" },
   { method := "PUT", pattern := wsPrefix ++ [.lit "skills", .wild "id"]
     handler := .updateSkill, permission := "tab:skills:update" },
   { method := "DELETE", pattern := wsPrefix ++ [.lit "skills", .wild "id"]
     handler := .deleteSkill, permission := "tab:skills:delete" },
   { method := "POST", pattern := wsPrefix ++ [.lit "skills", .lit "generate"]
     handler := .generateSkill },
   { method := "GET", pattern := wsPrefix ++ [.lit "context-files"]
     handler := .listContextFiles, permission := "tab:context-files:read" },
   { method := "POST", pattern := wsPrefix ++ [.lit "context-files"]
     handler := .createContextFile, permission := "tab:context-files:create" },
   { method := "PUT", pattern := wsPrefix ++ [.lit "context-files"]
     handler := .upsertContextFile, permission := "tab:context-files:update" },
   { method := "DELETE", pattern := wsPrefix ++ [.lit "context-files"]
     handler := .deleteContextFile, permission := "tab:context-files:delete" },
   { method := "GET", pattern := wsPrefix ++ [.lit "knowledge"], handler := .listKnowledge
     permission := "tab:knowledge:read" },
   { method := "POST", pattern := wsPrefix ++ [.lit "knowledge"], handler := .createKnowledge
     permission := "tab:knowledge:create" },
   { method := "GET", pattern := wsPrefix ++ [.lit "knowledge", .wild "id"]
     handler := .getKnowledge, permission := "tab:knowledge:read" },
   { method := "PUT", pattern := wsPrefix ++ [.lit "knowledge", .wild "id"]
     handler := .updateKnowledge, permission := "tab:knowledge:update" },
   { method := "DELETE", pattern := wsPrefix ++ [.lit "knowledge", .wild "id"]
     handler := .deleteKnowledge, permission := "tab:knowledge:delete" },
   { method := "POST", pattern := wsPrefix ++ [.lit "knowledge", .wild "id", .lit "sync"]
     handler := .syncKnowledge, permission := "tab:knowledge:update" }]

def rbacRoutes : List Route :=
  [{ method := "GET", pattern := wsPrefix ++ [.lit "rbac", .lit "me"], handler := .rbacMe },
   { method := "GET", pattern := wsPrefix ++ [.lit "rbac", .lit "resources"]
     handler := .rbacResources, permission := "tab:roles:read" },
   { method := "GET", pattern := wsPrefix ++ [.lit "rbac", .lit "roles"], handler := .listRoles
     permission := "tab:roles:read" },
   { method := "POST", pattern := wsPrefix ++ [.lit "rbac", .lit "roles"]
     handler := .createRole, permission := "tab:roles:create" },
   { method := "PUT", pattern := wsPrefix ++ [.lit "rbac", .lit "roles", .wild "name"]
     handler := .updateRole, permission := "tab:roles:update" },
   { method := "DELETE", pattern := wsPrefix ++ [.lit "rbac", .lit "roles", .wild "name"]
     handler := .deleteRole, permission := "tab:roles:delete" }]

def mcpRoutes : List Route :=
  [{ method := "GET", pattern := wsPrefix ++ [.lit "mcp", .lit "servers"]
     handler := .listServers, permission := "tab:mcp:read" },
   { method := "GET", pattern := wsPrefix ++ [.lit "mcp", .lit "servers", .wild "name"]
     handler := .getServer, permission := "tab:mcp:read" },
   { method := "POST", pattern := wsPrefix ++ [.lit "mcp", .lit "servers"]
     handler := .createServer, permission := "tab:mcp:create" },
   { method := "PUT", pattern := wsPrefix ++ [.lit "mcp", .lit "servers", .wild "name"]
     handler := .updateServer, permission := "tab:mcp:update" },
   { method := "POST"
     pattern := wsPrefix ++ [.lit "mcp", .lit "servers", .wild "name", .lit "refresh"]
     handler := .refreshServer, permission := "tab:mcp:update" },
   { method := "PATCH"
     pattern := wsPrefix ++ [.lit "mcp", .lit "servers", .wild "name", .lit "functions",
       .wild "func"]
     handler := .setFunctionEnabled, permission := "tab:mcp:update" },
   { method := "DELETE", pattern := wsPrefix ++ [.lit "mcp", .lit "servers", .wild "name"]
     handler := .deleteServer, permission := "tab:mcp:delete" }]

def routineRoutes : List Route :=
  [{ method := "GET", pattern := wsPrefix ++ [.lit "routines"], handler := .listRoutines
     permission := "tab:routines:read" },
   { method := "POST", pattern := wsPrefix ++ [.lit "routines"], handler := .createRoutine
     permission := "tab:routines:create" },
   { method := "GET", pattern := wsPrefix ++ [.lit "routines", .wild "id"]
     handler := .getRoutine, permission := "tab:routines:read" },
   { method := "PUT", pattern := wsPrefix ++ [.lit "routines", .wild "id"]
     handler := .updateRoutine, permission := "tab:routines:update" },
   { method := "DELETE", pattern := wsPrefix ++ [.lit "routines", .wild "id"]
     handler := .deleteRoutine, permission := "tab:routines:delete" },
   { method := "GET", pattern := wsPrefix ++ [.lit "routines", .wild "id", .lit "runs"]
     handler := .listRoutineRuns, permission := "tab:routines:read" },
   { method := "POST", pattern := wsPrefix ++ [.lit "routines", .wild "id", .lit "fire"]
     handler := .fireRoutine },
   { method := "POST", pattern := wsPrefix ++ [.lit "routines", .wild "id", .lit "rotate-token"]
     handler := .rotateRoutineToken, permission := "tab:routines:update" },
   { method := "DELETE"
     pattern := wsPrefix ++ [.lit "routines", .wild "id", .lit "revoke-token"]
     handler := .revokeRoutineToken, permission := "tab:routines:delete" }]

def authRoutes : List Route :=
  [{ method := "POST", pattern := [.lit "api", .lit "v1", .lit "set-token"]
     handler := .setToken },
   { method := "POST", pattern := [.lit "api", .lit "v1", .lit "logout"], handler := .logout }]

def casRoutes : List Route :=
  [{ method := "POST", pattern := [.lit "api", .lit "v1", .lit "sso", .lit "cas"]
     handler := .casLogin }]

/-- The routes `NewRouter` registers. -/
def RouterDeps.routes (deps : RouterDeps) : List Route :=
  healthRoutes ++ (if deps.workspaces then workspaceRoutes else []) ++ scopedRoutes
    ++ (if deps.enforcer && deps.toolsReg then rbacRoutes else [])
    ++ (if deps.mcpManager && deps.mcpServers then mcpRoutes else [])
    ++ (if deps.routines then routineRoutes else [])
    ++ (if deps.jwtSecret then authRoutes else [])
    ++ (if deps.jwtSecret && deps.casBaseURL then casRoutes else [])

/-! ## The mux -/

/-- The decoded segments of a request, and the root slash left out. -/
def Request.segments (req : Request) : List (List Char) :=
  (Lib.segments (req.escapedPath.drop 1)).map pathUnescape

/-- The route of a method that matches, with its path values. -/
def findRoute (routes : List Route) (method : String) (segs : List (List Char)) :
    Option (Route × List (String × List Char)) :=
  routes.findSome? fun route =>
    if route.method = method then (matchParts route.pattern segs).map fun values => (route, values)
    else none

/-- `ServeMux.findHandler`: none is a redirect to the clean path, a 404 or
a 405. A `GET` pattern takes `HEAD` as well. -/
def RouterDeps.findHandler (deps : RouterDeps) (req : Request) :
    Option (Route × List (String × List Char)) :=
  if cleanPath req.escapedPath ≠ req.escapedPath then none
  else
    (findRoute deps.routes req.method req.segments).or
      (if req.method = "HEAD" then findRoute deps.routes "GET" req.segments else none)

/-! ## Middleware -/

/-- `authSkipPaths`. -/
def authSkipPaths : List String := ["/api/v1/set-token", "/api/v1/logout", "/api/v1/sso/cas"]

/-- `isAuthSkipPath`. -/
def isAuthSkipPath (path : List Char) : Bool :=
  authSkipPaths.any (fun p => p.toList == path)
    || ("/api/v1/workspaces/".toList.isPrefixOf path
      && path.tails.any (fun t => "/mcp/servers/".toList.isPrefixOf t)
      && "/oauth/callback".toList.isSuffixOf path)

/-- `AuthMiddleware`: the context of the next handler. The token is that
of the header, or of the cookie, or empty. -/
def authMiddleware (jwtSecret : Bool) (parseJWT : String → Option String) (token : String)
    (path : List Char) (ctx : Context) : Except Reply Context :=
  if !jwtSecret then .ok ctx
  else if path = "/health".toList || !"/api/".toList.isPrefixOf path then .ok ctx
  else if isAuthSkipPath path then .ok ctx
  else if token = "" then .error { status := 401, error := "unauthorized" }
  else
    match parseJWT token with
    | none => .error { status := 401, error := "unauthorized" }
    | some sub => .ok { ctx with claims := some sub }

/-- `workspaceIDFromPath`. -/
def workspaceIDFromPath (path : List Char) : List Char :=
  if !"/api/v1/workspaces/".toList.isPrefixOf path then []
  else
    pathUnescape ((path.drop "/api/v1/workspaces/".toList.length).takeWhile (fun c => c ≠ '/'))

/-- What `WorkspaceMiddleware` asks the workspace store. -/
structure WorkspaceLookup where
  get : List Char → Option WorkspaceID
  isMember : WorkspaceID → String → Except String Bool
  addMember : WorkspaceID → String → Fault

/-- `WorkspaceMiddleware`; a nil store is `none`. -/
def workspaceMiddleware (workspaces : Option WorkspaceLookup) (path : List Char)
    (ctx : Context) : Except Reply Context :=
  match workspaces with
  | none => .ok ctx
  | some workspaces =>
    let id := workspaceIDFromPath path
    if id = [] then .ok ctx
    else
      match workspaces.get id with
      | none => .error { status := 404, error := "workspace not found" }
      | some ws =>
        let admitted : Context := { ctx with httpWorkspace := ws.val, workspace := ws.val }
        match ctx.claims with
        -- the membership check is skipped without claims
        | none => .ok admitted
        | some sub =>
          match workspaces.isMember ws sub with
          | .error _ => .error { status := 500, error := "failed to check workspace membership" }
          | .ok true => .ok admitted
          | .ok false =>
            if ws = defaultWorkspaceID then
              match workspaces.addMember ws sub with
              | some _ => .error { status := 500, error := "failed to join default workspace" }
              | none => .ok admitted
            else .error { status := 403, error := "you are not a member of this workspace" }

/-- The middleware around the mux: authentication, workspace, RBAC. -/
def middleware {σ : Type} [CasbinPolicy σ] (jwtSecret : Bool) (parseJWT : String → Option String)
    (token : String) (workspaces : Option WorkspaceLookup) (enforcer : Option σ)
    (path : List Char) : Except Reply Context := do
  let ctx ← authMiddleware jwtSecret parseJWT token path {}
  let ctx ← workspaceMiddleware workspaces path ctx
  return rbacMiddleware enforcer (String.ofList path) ctx

end LendingClaw.Http
