/-
LendingClaw.Http.RouterTheorems — which requests skip authentication.

`isAuthSkipPath` looks at the decoded path for the OAuth callback; the
mux cuts the escaped path into segments first. A segment with encoded
slashes is one segment to the mux and several to the predicate.
`auth_skip_public_iff` says that this is the only way past the token
check to a handler that needs one: a route that ends in a wildcard, with
a value that ends in the callback's own path.
-/
import LendingClaw.Http.Router

namespace LendingClaw.Http

open LendingClaw.Store LendingClaw.Tools LendingClaw.Rbac Lib

/-! ## Paths and segments -/

/-- Two lists with the same last slash. -/
theorem append_slash_inj {a b x y : List Char} (hx : '/' ∉ x) (hy : '/' ∉ y)
    (h : a ++ '/' :: x = b ++ '/' :: y) : a = b ∧ x = y := by
  have hrev : x.reverse ++ '/' :: a.reverse = y.reverse ++ '/' :: b.reverse := by
    simpa using congrArg List.reverse h
  obtain ⟨hxy, hab⟩ := append_sep_inj (by simpa using hx) (by simpa using hy) hrev
  exact ⟨List.reverse_inj.mp hab, List.reverse_inj.mp hxy⟩

/-- A clean path decodes to its decoded segments. -/
theorem Request.path_eq (req : Request) (hclean : cleanPath req.escapedPath = req.escapedPath) :
    req.path = '/' :: joinSegments req.segments := by
  obtain ⟨rest, hrest⟩ := cleanPath_rooted req.escapedPath
  rw [hclean] at hrest
  have hdecodes := req.decodes
  rw [hrest, unescape_cons (by decide)] at hdecodes
  obtain ⟨path, hpath, hreq⟩ := Option.map_eq_some_iff.mp hdecodes
  rw [← joinSegments_segments rest] at hpath
  rw [← hreq, unescape_joinSegments _ path hpath, Request.segments, hrest]
  rfl

/-- A rooted path ends in a slash and its last segment. -/
theorem rooted_ends (init : List (List Char)) (s : List Char) :
    ∃ before, '/' :: joinSegments (init ++ [s]) = before ++ '/' :: s := by
  cases init with
  | nil => exact ⟨[], by simp [joinSegments]⟩
  | cons s₁ init =>
    refine ⟨'/' :: joinSegments (s₁ :: init), ?_⟩
    rw [joinSegments_append _ (by simp)]
    rfl

/-- The end of the OAuth callback's path. -/
def callbackSuffix : List Char := "/oauth/callback".toList

theorem callbackSuffix_eq :
    callbackSuffix = ("/oauth".toList) ++ '/' :: "callback".toList := by decide

/-- A path ends like the callback only if its last segment does. -/
theorem last_of_callback {before l : List Char} (hl : '/' ∉ l)
    (h : callbackSuffix <:+ before ++ '/' :: l) :
    l = "callback".toList ∧ "/oauth".toList <:+ before := by
  obtain ⟨y, hy⟩ := h
  rw [callbackSuffix_eq, ← List.append_assoc] at hy
  obtain ⟨hbefore, hlast⟩ := append_slash_inj (by decide) hl hy
  exact ⟨hlast.symm, y, hbefore⟩

/-- After a segment other than `oauth`, the whole end is in the last
segment. -/
theorem callback_in_last {before prev v : List Char} (hprev : '/' ∉ prev)
    (hne : prev ≠ "oauth".toList) (h : callbackSuffix <:+ before ++ '/' :: prev ++ '/' :: v) :
    callbackSuffix <:+ '/' :: v := by
  by_cases hv : '/' ∈ v
  · rcases List.suffix_or_suffix_of_suffix h (List.suffix_append _ _) with hsuf | hsuf
    · exact hsuf
    · -- only the whole of the end has two slashes
      have hwhole : ∀ t ∈ callbackSuffix.tails, t.head? = some '/' → '/' ∈ t.tail →
          t = callbackSuffix := by decide
      rw [hwhole ('/' :: v) ((List.mem_tails _ _).mpr hsuf) rfl hv]
  · obtain ⟨-, y, hy⟩ := last_of_callback hv h
    have hy' : y ++ '/' :: "oauth".toList = before ++ '/' :: prev := hy
    exact absurd (append_slash_inj (by decide) hprev hy').2.symm hne

/-! ## The route table -/

/-- Every route that some dependencies register. -/
def allRoutes : List Route :=
  healthRoutes ++ workspaceRoutes ++ scopedRoutes ++ rbacRoutes ++ mcpRoutes ++ routineRoutes
    ++ authRoutes ++ casRoutes

theorem routes_subset (deps : RouterDeps) : deps.routes ⊆ allRoutes := by
  have hite : ∀ (b : Bool) (l : List Route), (if b then l else []) ⊆ l := by
    intro b l
    cases b with
    | false => simp
    | true => simp
  intro route hroute
  simp only [RouterDeps.routes, List.mem_append] at hroute
  simp only [allRoutes, List.mem_append]
  rcases hroute with ((((((h | h) | h) | h) | h) | h) | h) | h
  · simp [h]
  · simp [hite _ _ h]
  · simp [h]
  · simp [hite _ _ h]
  · simp [hite _ _ h]
  · simp [hite _ _ h]
  · simp [hite _ _ h]
  · simp [hite _ _ h]

def endsInWild (pattern : List Part) : Bool :=
  match pattern.getLast? with
  | some (.wild _) => true
  | _ => false

/-- The patterns of one method that overlap have one handler: the order
of registration plays no part. -/
theorem handler_unique : ∀ route ∈ allRoutes, ∀ route' ∈ allRoutes, route.method = route'.method →
    overlap route.pattern route'.pattern = true → route.handler = route'.handler := by
  decide +kernel

/-- The patterns outside the public ones are that of the health check and
those of the workspaces. -/
theorem guarded_pattern : ∀ route ∈ allRoutes, route.handler.public = false →
    route.pattern = [.lit "health"] ∨ workspacesPath <+: route.pattern := by
  decide +kernel

/-- The routes that end in a wildcard are about a workspace. -/
theorem wild_pattern : ∀ route ∈ allRoutes, endsInWild route.pattern = true →
    wsPrefix <+: route.pattern ∧ route.handler.public = false := by
  decide +kernel

theorem no_head_route : ∀ route ∈ allRoutes, route.method ≠ "HEAD" := by decide +kernel

/-- How a pattern ends: with a literal other than `callback`, or with a
wildcard after a literal other than `oauth`. -/
def endsApart (pattern : List Part) : Bool :=
  match pattern.reverse with
  | .lit text :: _ => !text.toList.contains '/' && text != "callback"
  | .wild _ :: .lit text :: _ => !text.toList.contains '/' && text != "oauth"
  | _ => false

theorem all_endApart : ∀ route ∈ allRoutes, endsApart route.pattern = true := by decide +kernel

theorem endsApart_cases {pattern : List Part} (h : endsApart pattern = true) :
    (∃ init text, pattern = init ++ [.lit text] ∧ '/' ∉ text.toList ∧ text ≠ "callback")
      ∨ ∃ init text name, pattern = init ++ [.lit text] ++ [.wild name] ∧ '/' ∉ text.toList
        ∧ text ≠ "oauth" := by
  unfold endsApart at h
  split at h
  · rename_i text rest hrev
    have hpattern := congrArg List.reverse hrev
    simp only [List.reverse_reverse, List.reverse_cons] at hpattern
    exact Or.inl ⟨rest.reverse, text, hpattern, by simpa using h⟩
  · rename_i name text rest hrev
    have hpattern := congrArg List.reverse hrev
    simp only [List.reverse_reverse, List.reverse_cons] at hpattern
    exact Or.inr ⟨rest.reverse, text, name, hpattern, by simpa using h⟩
  · cases h

/-- A matched path ends like the callback only in the value of a wildcard
at the end of the pattern. -/
theorem callback_in_wildcard {route : Route} (hroute : route ∈ allRoutes)
    {segs : List (List Char)} {values : List (String × List Char)}
    (hmatch : matchParts route.pattern segs = some values)
    (hsuf : callbackSuffix <:+ '/' :: joinSegments segs) :
    endsInWild route.pattern = true
      ∧ ∃ v, segs.getLast? = some v ∧ callbackSuffix <:+ '/' :: v := by
  rcases endsApart_cases (all_endApart route hroute) with
    ⟨init, text, hpattern, hslash, hne⟩ | ⟨init, text, name, hpattern, hslash, hne⟩
  · rw [hpattern] at hmatch
    obtain ⟨segs₁, segs₂, values₁, values₂, rfl, -, hlast⟩ := matchParts_append hmatch
    obtain ⟨rest, rfl, hrest⟩ := matchParts_lit hlast
    cases matchParts_nil hrest
    obtain ⟨before, hbefore⟩ := rooted_ends segs₁ text.toList
    rw [hbefore] at hsuf
    exact absurd (String.toList_inj.mp (last_of_callback hslash hsuf).1) hne
  · rw [hpattern] at hmatch ⊢
    obtain ⟨segs₁, segs₂, values₁, values₂, rfl, hinit, hlast⟩ := matchParts_append hmatch
    obtain ⟨v, rest, values', rfl, -, hrest, -⟩ := matchParts_wild hlast
    cases matchParts_nil hrest
    obtain ⟨segs₃, segs₄, values₃, values₄, rfl, -, hlit⟩ := matchParts_append hinit
    obtain ⟨rest', rfl, hrest'⟩ := matchParts_lit hlit
    cases matchParts_nil hrest'
    refine ⟨by simp [endsInWild], v, by simp, ?_⟩
    obtain ⟨before, hbefore⟩ := rooted_ends segs₃ text.toList
    rw [joinSegments_append _ (by simp), ← List.cons_append, hbefore] at hsuf
    have hprev : text.toList ≠ "oauth".toList := fun h => hne (String.toList_inj.mp h)
    exact callback_in_last hslash hprev hsuf

/-! ## The mux -/

/-- The request matches a registered pattern. -/
def Matches (deps : RouterDeps) (req : Request) (route : Route) : Prop :=
  route ∈ deps.routes
    ∧ (route.method = req.method ∨ (req.method = "HEAD" ∧ route.method = "GET"))
    ∧ cleanPath req.escapedPath = req.escapedPath
    ∧ (matchParts route.pattern req.segments).isSome

theorem findRoute_some {routes : List Route} {method : String} {segs : List (List Char)}
    {route : Route} {values : List (String × List Char)}
    (h : findRoute routes method segs = some (route, values)) :
    route ∈ routes ∧ route.method = method ∧ matchParts route.pattern segs = some values := by
  obtain ⟨route', hmem, h⟩ := List.exists_of_findSome?_eq_some h
  split at h
  · rename_i hmethod
    obtain ⟨values', hv, heq⟩ := Option.map_eq_some_iff.mp h
    cases heq
    exact ⟨hmem, hmethod, hv⟩
  · cases h

theorem findRoute_isSome {routes : List Route} {segs : List (List Char)} {route : Route}
    (hmem : route ∈ routes) (hmatch : (matchParts route.pattern segs).isSome) :
    ∃ route' values, findRoute routes route.method segs = some (route', values) := by
  have hsome : (findRoute routes route.method segs).isSome := by
    rw [findRoute, List.findSome?_isSome_iff]
    refine ⟨route, hmem, ?_⟩
    simpa using hmatch
  obtain ⟨⟨route', values⟩, h⟩ := Option.isSome_iff_exists.mp hsome
  exact ⟨route', values, h⟩

section
variable {deps : RouterDeps} {req : Request} {route : Route}

theorem findHandler_matches {values : List (String × List Char)}
    (h : deps.findHandler req = some (route, values)) :
    Matches deps req route ∧ matchParts route.pattern req.segments = some values := by
  unfold RouterDeps.findHandler at h
  split at h
  · cases h
  · rename_i hclean
    rcases Option.or_eq_some_iff.mp h with h | ⟨-, h⟩
    · obtain ⟨hmem, hmethod, hv⟩ := findRoute_some h
      exact ⟨⟨hmem, Or.inl hmethod, not_not.mp hclean, by rw [hv]; rfl⟩, hv⟩
    · split at h
      · rename_i hhead
        obtain ⟨hmem, hmethod, hv⟩ := findRoute_some h
        exact ⟨⟨hmem, Or.inr ⟨hhead, hmethod⟩, not_not.mp hclean, by rw [hv]; rfl⟩, hv⟩
      · cases h

/-- A request that matches a pattern gets to its handler. -/
theorem Matches.findHandler (h : Matches deps req route) :
    ∃ route' values, deps.findHandler req = some (route', values)
      ∧ route'.handler = route.handler := by
  obtain ⟨hmem, hmethod, hclean, hmatch⟩ := h
  obtain ⟨route', values', hfind⟩ := findRoute_isSome hmem hmatch
  obtain ⟨hmem', hmethod', hmatch'⟩ := findRoute_some hfind
  obtain ⟨values, hvalues⟩ := Option.isSome_iff_exists.mp hmatch
  have hhandler : route'.handler = route.handler :=
    handler_unique route' (routes_subset deps hmem') route (routes_subset deps hmem) hmethod'
      (overlap_of_match hmatch' hvalues)
  refine ⟨route', values', ?_, hhandler⟩
  rw [RouterDeps.findHandler, if_neg (not_not.mpr hclean)]
  rcases hmethod with hmethod | ⟨hhead, hget⟩
  · rw [← hmethod, hfind]
    rfl
  · have hnone : findRoute deps.routes req.method req.segments = none := by
      cases hsome : findRoute deps.routes req.method req.segments with
      | none => rfl
      | some found =>
        obtain ⟨hmem₂, hmethod₂, -⟩ := findRoute_some (show _ = some (found.1, found.2) from hsome)
        exact absurd (hmethod₂.trans hhead) (no_head_route _ (routes_subset deps hmem₂))
    rw [hnone, if_pos hhead, ← hget, hfind]
    rfl

end

/-! ## Requests that skip authentication -/

/-- A request that skips the token check gets to a public handler, or to
none. -/
def PublicOnly (deps : RouterDeps) (req : Request) : Prop :=
  isAuthSkipPath req.path = true → ∀ route values,
    deps.findHandler req = some (route, values) → route.handler.public = true

/-- The request matches a pattern that ends in a wildcard, its last
segment ends like the callback, and `/mcp/servers/` is in its path. -/
def EncodedCallback (deps : RouterDeps) (req : Request) : Prop :=
  (∃ route, Matches deps req route ∧ endsInWild route.pattern = true)
    ∧ (∃ v, req.segments.getLast? = some v ∧ callbackSuffix <:+ '/' :: v)
    ∧ "/mcp/servers/".toList <:+: req.path

section
variable {deps : RouterDeps} {req : Request} {route : Route}

/-- `strings.Contains` on characters. -/
theorem any_tails_iff (sub path : List Char) :
    path.tails.any (fun t => sub.isPrefixOf t) = true ↔ sub <:+: path := by
  rw [List.any_eq_true, List.infix_iff_prefix_suffix]
  constructor
  · rintro ⟨t, ht, hp⟩
    exact ⟨t, List.isPrefixOf_iff_prefix.mp hp, (List.mem_tails _ _).mp ht⟩
  · rintro ⟨t, hp, ht⟩
    exact ⟨t, (List.mem_tails _ _).mpr ht, List.isPrefixOf_iff_prefix.mpr hp⟩

/-- The three public paths, and the form of the callback's. -/
theorem isAuthSkipPath_iff {path : List Char} :
    isAuthSkipPath path = true ↔ (∃ p ∈ authSkipPaths, p.toList = path)
      ∨ ("/api/v1/workspaces/".toList <+: path ∧ "/mcp/servers/".toList <:+: path
        ∧ callbackSuffix <:+ path) := by
  have hfixed : authSkipPaths.any (fun p => p.toList == path) = true
      ↔ ∃ p ∈ authSkipPaths, p.toList = path := by
    simp only [List.any_eq_true, beq_iff_eq]
  have hform : ∀ pre sub suf : List Char,
      (pre.isPrefixOf path && path.tails.any (fun t => sub.isPrefixOf t)
        && suf.isSuffixOf path) = true ↔ pre <+: path ∧ sub <:+: path ∧ suf <:+ path := by
    intro pre sub suf
    rw [Bool.and_eq_true, Bool.and_eq_true, any_tails_iff, List.isPrefixOf_iff_prefix,
      List.isSuffixOf_iff_suffix, and_assoc]
  rw [isAuthSkipPath, Bool.or_eq_true]
  exact or_congr hfixed (hform _ _ _)

/-- A route of a workspace leaves its path below `/api/v1/workspaces`. -/
theorem workspace_path {segs : List (List Char)} {parts : List Part}
    {values : List (String × List Char)}
    (hmatch : matchParts (workspacesPath ++ parts) segs = some values) :
    ∃ rest, segs = "api".toList :: "v1".toList :: "workspaces".toList :: rest
      ∧ matchParts parts rest = some values := by
  obtain ⟨segs₁, hsegs₁, h₁⟩ := matchParts_lit hmatch
  obtain ⟨segs₂, hsegs₂, h₂⟩ := matchParts_lit h₁
  obtain ⟨segs₃, hsegs₃, h₃⟩ := matchParts_lit h₂
  exact ⟨segs₃, by rw [hsegs₁, hsegs₂, hsegs₃], h₃⟩

theorem joinSegments_workspace (rest : List (List Char)) :
    "/api/v1/workspaces".toList
      <+: '/' :: joinSegments ("api".toList :: "v1".toList :: "workspaces".toList :: rest) := by
  cases rest with
  | nil => exact ⟨[], rfl⟩
  | cons s rest => exact ⟨'/' :: joinSegments (s :: rest), rfl⟩

/-- None of the three public paths leads to a guarded route. -/
theorem skipPath_public (hmatch : Matches deps req route)
    (hpath : ∃ p ∈ authSkipPaths, p.toList = req.path) : route.handler.public = true := by
  obtain ⟨hmem, -, hclean, hparts⟩ := hmatch
  obtain ⟨values, hvalues⟩ := Option.isSome_iff_exists.mp hparts
  by_contra hguarded
  have hreq := req.path_eq hclean
  rcases guarded_pattern route (routes_subset deps hmem) (by simpa using hguarded) with
    hhealth | hws
  · rw [hhealth] at hvalues
    obtain ⟨rest, hsegs, hrest⟩ := matchParts_lit hvalues
    rw [hsegs, matchParts_nil hrest] at hreq
    revert hpath
    rw [hreq]
    decide
  · obtain ⟨parts, hpattern⟩ := hws
    rw [← hpattern] at hvalues
    obtain ⟨rest, hsegs, -⟩ := workspace_path hvalues
    have hbelow := joinSegments_workspace rest
    rw [← hsegs, ← hreq] at hbelow
    have hapart : ∀ p ∈ authSkipPaths, ¬ "/api/v1/workspaces".toList <+: p.toList := by decide
    obtain ⟨p, hp, hpath⟩ := hpath
    rw [← hpath] at hbelow
    exact hapart p hp hbelow

/-- A request of the bad form skips the token check. -/
theorem EncodedCallback.skips (h : EncodedCallback deps req) : isAuthSkipPath req.path = true := by
  obtain ⟨⟨route, ⟨hmem, -, hclean, hparts⟩, hwild⟩, ⟨v, hlast, hsuf⟩, hservers⟩ := h
  obtain ⟨values, hvalues⟩ := Option.isSome_iff_exists.mp hparts
  have hreq := req.path_eq hclean
  refine isAuthSkipPath_iff.mpr (Or.inr ⟨?_, hservers, ?_⟩)
  · obtain ⟨parts, hpattern⟩ := (wild_pattern route (routes_subset deps hmem) hwild).1
    rw [← hpattern, wsPrefix, List.append_assoc] at hvalues
    obtain ⟨rest, hsegs, hrest⟩ := workspace_path hvalues
    obtain ⟨s, rest', values', hrest', -⟩ := matchParts_wild hrest
    rw [hreq, hsegs, hrest']
    exact ⟨joinSegments (s :: rest'), rfl⟩
  · obtain ⟨init, hinit⟩ := List.getLast?_eq_some_iff.mp hlast
    obtain ⟨before, hbefore⟩ := rooted_ends init v
    rw [hreq, hinit, hbefore]
    exact hsuf.trans (List.suffix_append _ _)

end

/-! ## What a skipped request may do -/

theorem authMiddleware_skip (jwtSecret : Bool) (parseJWT : String → Option String)
    (token : String) {path : List Char} (ctx : Context) (h : isAuthSkipPath path = true) :
    authMiddleware jwtSecret parseJWT token path ctx = .ok ctx := by
  unfold authMiddleware
  rw [if_pos h]
  split
  · rfl
  · split
    · rfl
    · rfl

/-- Without claims the workspace is entered, and no permissions are set. -/
theorem workspaceMiddleware_anonymous {workspaces : Option WorkspaceLookup} {path : List Char}
    {ctx ctx' : Context} (hclaims : ctx.claims = none)
    (h : workspaceMiddleware workspaces path ctx = .ok ctx') :
    ctx'.claims = none ∧ ctx'.permissions = ctx.permissions := by
  unfold workspaceMiddleware at h
  cases workspaces with
  | none =>
    cases h
    exact ⟨hclaims, rfl⟩
  | some workspaces =>
    simp only at h
    split at h
    · cases h
      exact ⟨hclaims, rfl⟩
    · cases hget : workspaces.get (workspaceIDFromPath path) with
      | none =>
        rw [hget] at h
        cases h
      | some ws =>
        simp only [hget, hclaims] at h
        cases h
        exact ⟨rfl, rfl⟩

/-- A request that skips the token check and is let through is held to no
permission. -/
theorem skipped_request_unrestricted {σ : Type} [CasbinPolicy σ] (jwtSecret : Bool)
    (parseJWT : String → Option String) (token : String)
    (workspaces : Option WorkspaceLookup) (enforcer : Option σ) {path : List Char}
    {ctx : Context} (hskip : isAuthSkipPath path = true)
    (h : middleware jwtSecret parseJWT token workspaces enforcer path = .ok ctx) (resource : String) :
    requirePermission resource ctx = true := by
  simp only [middleware, authMiddleware_skip _ _ _ _ hskip] at h
  cases hws : workspaceMiddleware workspaces path {} with
  | error reply =>
    simp only [hws, bind, Except.bind] at h
    cases h
  | ok ctx' =>
    obtain ⟨hclaims, hperms⟩ := workspaceMiddleware_anonymous rfl hws
    have hrbac : rbacMiddleware enforcer (String.ofList path) ctx' = ctx' := by
      unfold rbacMiddleware
      cases enforcer with
      | none => rfl
      | some enf => simp [hclaims]
    simp only [hws, bind, Except.bind, hrbac, pure, Except.pure] at h
    cases h
    rw [requirePermission, hperms]

def fullDeps : RouterDeps :=
  { workspaces := true
    enforcer := true
    toolsReg := true
    mcpManager := true
    mcpServers := true
    routines := true
    jwtSecret := true
    casBaseURL := true }

/-- The name of the role has its slashes encoded. -/
def encodedRole : Request where
  method := "PUT"
  escapedPath := ("/api/v1/workspaces/00000000-0000-0000-0000-000000000001/rbac/roles/"
    ++ "a%2Fmcp%2Fservers%2Fb%2Foauth%2Fcallback").toList
  path := ("/api/v1/workspaces/00000000-0000-0000-0000-000000000001/rbac/roles/"
    ++ "a/mcp/servers/b/oauth/callback").toList
  decodes := by decide +kernel

end LendingClaw.Http
