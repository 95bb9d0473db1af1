/-
LendingClaw.Mcp.TokenRefresh — the OAuth tokens of one MCP server under
concurrent tool calls and updates (`oauthTokenProvider` of
`internal/mcp/manager.go`, `RefreshOAuth` of `internal/mcp/oauth.go`,
`MCPServersHandler.Update` of
`internal/transport/http/handler/mcp_servers.go`).

A tool call reads the row, may exchange its refresh token for a new one
and writes the whole row; an update reads the row and writes the whole
row. The authorization server accepts a refresh token once and answers
with a new one. The row is what `Get` answers: its encryption is the
subject of `Mcp.Secrets`.

`tokens_sound` says which interleavings lose neither tokens nor settings.
-/
import LendingClaw.Mcp.Secrets
import LendingClaw.Lib.Parties
import LendingClaw.Lib.Runs
import LendingClaw.Lib.Strings

namespace LendingClaw.Mcp

open LendingClaw.Store LendingClaw.Lib

/-! ## Refreshing -/

/-- An answer of the token endpoint, as `oauth2` accepts it, of a server
that rotates. -/
structure TokenAnswer where
  accessToken : Bytes
  refreshToken : Bytes
  tokenType : String := ""
  expiry : Option Int := none
  /-- The extra fields `expires_in` and `scope`. -/
  expiresIn : Option Int := none
  scope : String := ""
  hasAccess : accessToken ≠ []
  rotates : refreshToken ≠ []

/-- `applyToken`. -/
def applyToken (cfg : MCPOAuthConfig) (token : TokenAnswer) (now : Int) : MCPOAuthConfig :=
  { cfg with
    accessToken := token.accessToken
    refreshToken := token.refreshToken
    tokenType := if token.tokenType = "" then "Bearer" else token.tokenType
    expiresAt :=
      match token.expiry, token.expiresIn with
      | some expiry, _ => some expiry
      | none, some expiresIn => if expiresIn > 0 then some (now + expiresIn) else cfg.expiresAt
      | none, none => cfg.expiresAt
    scope := if token.scope = "" then cfg.scope else token.scope }

/-- `RefreshOAuth` up to the exchange: the config whose refresh token it
presents, none if it has nothing to do. -/
def refreshNeeded (srv : MCPServer) (now : Int) : Except String (Option MCPOAuthConfig) :=
  match srv.oauthConfig with
  | none => .ok none
  | some cfg =>
    if srv.effectiveAuthType ≠ "oauth" then .ok none
    else if cfg.refreshToken = [] then
      if cfg.accessToken = [] then .error "OAuth authentication required" else .ok none
    else if cfg.expiresAt.any (fun expiresAt => expiresAt > now + 120) then .ok none
    else .ok (some cfg)

/-- The access token of a server that needs no refresh. -/
def accessOf (srv : MCPServer) : Except String Bytes :=
  match srv.oauthConfig with
  | none => .error ("OAuth authentication required for MCP server " ++ srv.name)
  | some cfg =>
    if cfg.accessToken = [] then .error ("OAuth authentication required for MCP server " ++ srv.name)
    else .ok cfg.accessToken

/-- The columns of `Update`. -/
def MCPServer.written (srv : MCPServer) : MCPServer :=
  { srv with authType := if srv.authType = "" then "bearer" else srv.authType }

/-! ## Updates -/

/-- `updateMCPServerBody`. -/
structure UpdateServerBody where
  url : Option String := none
  authToken : Option Bytes := none
  description : Option String := none
  enabled : Option Bool := none

/-- The assignments of `MCPServersHandler.Update`. -/
def UpdateServerBody.apply (body : UpdateServerBody) (existing : MCPServer) : MCPServer :=
  { existing with
    url := (body.url.map trimSpace).getD existing.url
    authToken := body.authToken.getD existing.authToken
    description := body.description.getD existing.description
    enabled := body.enabled.getD existing.enabled }

/-- Its checks. -/
def checkServer (validateMCPURL : String → Fault) (srv : MCPServer) : Fault :=
  if srv.url = "" then some "url cannot be empty" else validateMCPURL srv.url

/-! ## Interleavings -/

/-- Where a tool call is: it has read a row, it has refreshed what it
read and writes it next, or it has its token. -/
inductive TokenCall where
  | read (srv : MCPServer)
  | refreshed (srv updated : MCPServer)
  | returned (token : Except String Bytes)

/-- What answered updates have set last. -/
structure Settings where
  url : Option String := none
  description : Option String := none
  enabled : Option Bool := none

/-- The row; the refresh tokens the authorization server has issued, in
order, and those it has accepted; the tool calls; the updates that have
read the row; what the answered ones have set; and whether a used refresh
token was presented. -/
structure TokenState where
  row : MCPServer
  issued : List Bytes
  used : List Bytes
  calls : List TokenCall
  updates : List (MCPServer × UpdateServerBody)
  settings : Settings
  replayed : Bool

/-- What happens next: a tool call asks for a token and reads the row; the
i-th one goes through `RefreshOAuth`, with an answer or an error of the
token endpoint for a token that it accepts; the i-th one writes the row;
an update reads the row; the j-th update writes it and answers. -/
inductive TokenEvent where
  | provide
  | refresh (i : Nat) (now : Int) (answer : Except String TokenAnswer)
  | write (i : Nat) (fault : Fault)
  | readForUpdate (body : UpdateServerBody)
  | update (j : Nat) (fault : Fault)

namespace TokenState

def start (row : MCPServer) (refreshToken : Bytes) : TokenState :=
  { row := row, issued := [refreshToken], used := [], calls := [], updates := [], settings := {}
    replayed := false }

variable (s : TokenState)

/-- The i-th tool call comes to a stage. -/
def goTo (i : Nat) (call : TokenCall) : TokenState := { s with calls := s.calls.set i call }

/-- The exchange of a refresh token: the server accepts it if it has
issued it and not accepted it before, and answers with one that it has
not issued before. -/
def exchange (i : Nat) (srv : MCPServer) (cfg : MCPOAuthConfig) (now : Int)
    (answer : Except String TokenAnswer) : TokenState :=
  if s.used.contains cfg.refreshToken then
    { s with replayed := true }.goTo i (.returned (.error "refresh OAuth token: invalid_grant"))
  else if !s.issued.contains cfg.refreshToken then
    s.goTo i (.returned (.error "refresh OAuth token: invalid_grant"))
  else
    match answer with
    | .error err => s.goTo i (.returned (.error ("refresh OAuth token: " ++ err)))
    | .ok token =>
      if s.issued.contains token.refreshToken then s
      else
        { s with
          issued := s.issued ++ [token.refreshToken]
          used := s.used ++ [cfg.refreshToken] }.goTo i
            (.refreshed srv { srv with oauthConfig := some (applyToken cfg token now) })

/-- The provider from the row it has read to the write. -/
def refresh (i : Nat) (now : Int) (answer : Except String TokenAnswer) : TokenState :=
  match s.calls[i]? with
  | some (.read srv) =>
    if srv.effectiveAuthType ≠ "oauth" then s.goTo i (.returned (.ok srv.authToken))
    else
      match refreshNeeded srv now with
      | .error err => s.goTo i (.returned (.error err))
      | .ok none => s.goTo i (.returned (accessOf srv))
      | .ok (some cfg) => s.exchange i srv cfg now answer
  | _ => s

/-- The write of the provider. -/
def write (i : Nat) (fault : Fault) : TokenState :=
  match s.calls[i]? with
  | some (.refreshed _ updated) =>
    match fault with
    | some err => s.goTo i (.returned (.error ("update mcp server: " ++ err)))
    | none => { s with row := updated.written }.goTo i (.returned (accessOf updated))
  | _ => s

/-- `MCPServersHandler.Update` up to its write. -/
def readForUpdate (validateMCPURL : String → Fault) (body : UpdateServerBody) : TokenState :=
  match checkServer validateMCPURL (body.apply s.row) with
  | some _ => s
  | none => { s with updates := s.updates ++ [(s.row, body)] }

/-- What an answered update has set. -/
def settingsAfter (old : Settings) (body : UpdateServerBody) (srv : MCPServer) : Settings :=
  { url := if body.url.isSome then some srv.url else old.url
    description := if body.description.isSome then some srv.description else old.description
    enabled := if body.enabled.isSome then some srv.enabled else old.enabled }

/-- The write of the handler; what comes after it answers success. -/
def update (j : Nat) (fault : Fault) : TokenState :=
  match s.updates[j]? with
  | none => s
  | some (existing, body) =>
    let s := { s with updates := s.updates.eraseIdx j }
    match fault with
    | some _ => s
    | none =>
      let srv := body.apply existing
      { s with row := srv.written, settings := settingsAfter s.settings body srv }

def step (validateMCPURL : String → Fault) : TokenEvent → TokenState
  | .provide => { s with calls := s.calls ++ [.read s.row] }
  | .refresh i now answer => s.refresh i now answer
  | .write i fault => s.write i fault
  | .readForUpdate body => s.readForUpdate validateMCPURL body
  | .update j fault => s.update j fault

/-! ## The property -/

/-- The refresh token of the row. -/
def stored : Option Bytes := s.row.oauthConfig.map MCPOAuthConfig.refreshToken

/-- A call has exchanged a token and not written the row yet. -/
def Refreshing : Prop := ∃ srv updated, TokenCall.refreshed srv updated ∈ s.calls

/-- Unless a call is about to write it, the row has the refresh token that
was issued last; no used one was presented; and the row has what answered
updates have set. -/
structure Sound : Prop where
  latest : ¬ s.Refreshing → s.stored = s.issued.getLast?
  fresh : s.replayed = false
  url : ∀ v, s.settings.url = some v → s.row.url = v
  description : ∀ v, s.settings.description = some v → s.row.description = v
  enabled : ∀ v, s.settings.enabled = some v → s.row.enabled = v

/-- A refresh token is presented while the row has it and no other call is
about to write; and a row that is written, by a call or an update, is
still the one that was read, and a call's write does not fail. -/
def Careful : TokenEvent → Prop
  | .refresh i now _ => ∀ srv, s.calls[i]? = some (.read srv) → ∀ cfg,
      refreshNeeded srv now = .ok (some cfg) → s.stored = some cfg.refreshToken ∧ ¬ s.Refreshing
  | .write i fault => ∀ srv updated, s.calls[i]? = some (.refreshed srv updated) →
      fault = none ∧ s.row = srv
  | .update j fault => ∀ existing body, s.updates[j]? = some (existing, body) →
      fault = none → s.row = existing
  | _ => True

/-! ## The invariant -/

variable {s} {s' : TokenState}

/-- The token of a call that is about to write is the one issued last, and
only it is; the token issued last has not been used. -/
structure Inv (s : TokenState) : Prop where
  sound : s.Sound
  one : ∀ (i j : Nat) srv updated srv' updated', s.calls[i]? = some (.refreshed srv updated) →
    s.calls[j]? = some (.refreshed srv' updated') → i = j
  pending : ∀ (i : Nat) srv updated, s.calls[i]? = some (.refreshed srv updated) →
    updated = { srv with oauthConfig := updated.oauthConfig }
      ∧ updated.oauthConfig.map MCPOAuthConfig.refreshToken = s.issued.getLast?
  unused : ∀ r, s.issued.getLast? = some r → r ∉ s.used
  known : ∀ r ∈ s.used, r ∈ s.issued

theorem refreshing_iff :
    s.Refreshing ↔ ∃ (i : Nat) (srv updated : MCPServer), s.calls[i]? = some (.refreshed srv updated) := by
  constructor
  · rintro ⟨srv, updated, hmem⟩
    obtain ⟨i, hi⟩ := List.getElem?_of_mem hmem
    exact ⟨i, srv, updated, hi⟩
  · rintro ⟨i, srv, updated, hi⟩
    exact ⟨srv, updated, List.mem_of_getElem? hi⟩

theorem Inv.start {row : MCPServer} {refreshToken : Bytes}
    (h : row.oauthConfig.map MCPOAuthConfig.refreshToken = some refreshToken) :
    (start row refreshToken).Inv := by
  constructor
  · refine ⟨fun _ => h, rfl, fun v hv => ?_, fun v hv => ?_, fun v hv => ?_⟩
    · cases hv
    · cases hv
    · cases hv
  · intro i j srv updated srv' updated' hi
    cases hi
  · intro i srv updated hi
    cases hi
  · intro r _ hr
    cases hr
  · intro r hr
    cases hr

/-- Steps that leave all but the calls that are about to write. -/
theorem Inv.of_calls (h : s.Inv) (hrow : s'.row = s.row) (hissued : s'.issued = s.issued)
    (hused : s'.used = s.used) (hsettings : s'.settings = s.settings) (hreplayed : s'.replayed = s.replayed)
    (hcalls : ∀ (j : Nat) srv updated,
      s'.calls[j]? = some (.refreshed srv updated) ↔ s.calls[j]? = some (.refreshed srv updated)) :
    s'.Inv := by
  have hrefreshing : s'.Refreshing ↔ s.Refreshing := by
    rw [refreshing_iff, refreshing_iff]
    simp only [hcalls]
  constructor
  · constructor
    · intro hnot
      unfold stored
      rw [hrow, hissued]
      exact h.sound.latest (mt hrefreshing.mpr hnot)
    · rw [hreplayed]
      exact h.sound.fresh
    · rw [hsettings, hrow]
      exact h.sound.url
    · rw [hsettings, hrow]
      exact h.sound.description
    · rw [hsettings, hrow]
      exact h.sound.enabled
  · intro i j srv updated srv' updated' hi hj
    exact h.one i j _ _ _ _ ((hcalls i _ _).mp hi) ((hcalls j _ _).mp hj)
  · intro i srv updated hi
    rw [hissued]
    exact h.pending i srv updated ((hcalls i _ _).mp hi)
  · rw [hissued, hused]
    exact h.unused
  · rw [hissued, hused]
    exact h.known

/-- A call that was not about to write comes to a stage that is not. -/
theorem refreshed_set {i : Nat} {call call' : TokenCall} (hcall : s.calls[i]? = some call)
    (hcall' : ∀ srv updated, call' ≠ .refreshed srv updated)
    (hnot : ∀ srv updated, call ≠ .refreshed srv updated) (j : Nat) (srv updated : MCPServer) :
    (s.calls.set i call')[j]? = some (.refreshed srv updated)
      ↔ s.calls[j]? = some (.refreshed srv updated) := by
  rw [Lib.getElem?_set_of_some hcall]
  split
  · rename_i hj
    rw [hj, hcall]
    constructor
    · intro he
      exact absurd (Option.some.inj he) (hcall' srv updated)
    · intro he
      exact absurd (Option.some.inj he) (hnot srv updated)
  · rfl

/-! ## Steps -/

theorem Inv.provide (h : s.Inv) : ({ s with calls := s.calls ++ [.read s.row] } : TokenState).Inv := by
  refine h.of_calls rfl rfl rfl rfl rfl fun j srv updated => ?_
  show (s.calls ++ [.read s.row])[j]? = _ ↔ _
  rw [List.getElem?_append]
  split
  · exact Iff.rfl
  · rename_i hj
    rw [List.getElem?_eq_none (Nat.le_of_not_lt hj)]
    constructor
    · intro he
      cases List.mem_singleton.mp (List.mem_of_getElem? he)
    · intro he
      cases he

/-- A call that has read the row returns. -/
theorem Inv.return (h : s.Inv) {i : Nat} {srv : MCPServer} (hcall : s.calls[i]? = some (.read srv))
    (token : Except String Bytes) : (s.goTo i (.returned token)).Inv := by
  refine h.of_calls rfl rfl rfl rfl rfl (refreshed_set hcall ?_ ?_)
  · intro srv updated he
    cases he
  · intro srv updated he
    cases he

theorem Inv.exchange (h : s.Inv) {i : Nat} {srv : MCPServer} {cfg : MCPOAuthConfig}
    (hcall : s.calls[i]? = some (.read srv)) (hstored : s.stored = some cfg.refreshToken)
    (hnot : ¬ s.Refreshing) (now : Int) (answer : Except String TokenAnswer) :
    (s.exchange i srv cfg now answer).Inv := by
  have hlast : s.issued.getLast? = some cfg.refreshToken := (h.sound.latest hnot).symm.trans hstored
  have hissued : cfg.refreshToken ∈ s.issued := List.mem_of_getLast? hlast
  have hunused : ¬ s.used.contains cfg.refreshToken = true := by
    rw [List.contains_iff_mem]
    exact h.unused _ hlast
  unfold TokenState.exchange
  rw [if_neg hunused, List.contains_iff_mem.mpr hissued, Bool.not_true, if_neg Bool.false_ne_true]
  cases answer with
  | error err => exact h.return hcall _
  | ok token =>
    dsimp only
    split
    · exact h
    · rename_i hnew
      rw [List.contains_iff_mem] at hnew
      let updated : MCPServer := { srv with oauthConfig := some (applyToken cfg token now) }
      have hget : ∀ (j : Nat) srv' updated',
          (s.calls.set i (.refreshed srv updated))[j]? = some (.refreshed srv' updated') →
            j = i ∧ srv' = srv ∧ updated' = updated := by
        intro j srv' updated' hj
        rw [Lib.getElem?_set_of_some hcall] at hj
        split at hj
        · rename_i hji
          cases hj
          exact ⟨hji, rfl, rfl⟩
        · exact absurd (refreshing_iff.mpr ⟨j, srv', updated', hj⟩) hnot
      constructor
      · refine ⟨fun hquiet => ?_, h.sound.fresh, h.sound.url, h.sound.description, h.sound.enabled⟩
        refine absurd (refreshing_iff.mpr ⟨i, srv, updated, ?_⟩) hquiet
        exact (Lib.getElem?_set_of_some hcall _ i).trans (if_pos rfl)
      · intro j k _ _ _ _ hj hk
        exact (hget j _ _ hj).1.trans (hget k _ _ hk).1.symm
      · intro j srv' updated' hj
        obtain ⟨-, rfl, rfl⟩ := hget j srv' updated' hj
        exact ⟨rfl, List.getLast?_concat.symm⟩
      · intro r hr hmem
        have hr' : (s.issued ++ [token.refreshToken]).getLast? = some r := hr
        rw [List.getLast?_concat] at hr'
        obtain rfl : token.refreshToken = r := Option.some.inj hr'
        rcases List.mem_append.mp hmem with hold | hpresented
        · exact hnew (h.known _ hold)
        · rw [List.mem_singleton.mp hpresented] at hnew
          exact hnew hissued
      · intro r hmem
        refine List.mem_append_left _ ?_
        rcases List.mem_append.mp hmem with hold | hpresented
        · exact h.known r hold
        · rw [List.mem_singleton.mp hpresented]
          exact hissued

theorem Inv.refresh (h : s.Inv) {i : Nat} {now : Int} {answer : Except String TokenAnswer}
    (hcareful : s.Careful (.refresh i now answer)) : (s.refresh i now answer).Inv := by
  unfold TokenState.refresh
  split
  · rename_i srv hcall
    split
    · exact h.return hcall _
    · cases hneeded : refreshNeeded srv now with
      | error err => exact h.return hcall _
      | ok needed =>
        cases needed with
        | none => exact h.return hcall _
        | some cfg =>
          obtain ⟨hstored, hnot⟩ := hcareful srv hcall cfg hneeded
          exact h.exchange hcall hstored hnot now answer
  · exact h

theorem Inv.write (h : s.Inv) {i : Nat} {fault : Fault} (hcareful : s.Careful (.write i fault)) :
    (s.write i fault).Inv := by
  unfold TokenState.write
  split
  · rename_i srv updated hcall
    obtain ⟨rfl, rfl⟩ := hcareful srv updated hcall
    obtain ⟨hupdated, htoken⟩ := h.pending i _ updated hcall
    have hgone : ∀ (j : Nat) srv' updated' token,
        (s.calls.set i (.returned token))[j]? ≠ some (.refreshed srv' updated') := by
      intro j srv' updated' token hj
      rw [Lib.getElem?_set_of_some hcall] at hj
      split at hj
      · cases hj
      · rename_i hji
        exact hji (h.one j i _ _ _ _ hj hcall)
    constructor
    · refine ⟨fun _ => htoken, h.sound.fresh, fun v hv => ?_, fun v hv => ?_, fun v hv => ?_⟩
      · have hurl : updated.url = s.row.url := by rw [hupdated]
        exact hurl.trans (h.sound.url v hv)
      · have hdescription : updated.description = s.row.description := by rw [hupdated]
        exact hdescription.trans (h.sound.description v hv)
      · have henabled : updated.enabled = s.row.enabled := by rw [hupdated]
        exact henabled.trans (h.sound.enabled v hv)
    · intro j k _ _ _ _ hj
      exact absurd hj (hgone j _ _ _)
    · intro j _ _ hj
      exact absurd hj (hgone j _ _ _)
    · exact h.unused
    · exact h.known
  · exact h

theorem Inv.readForUpdate (h : s.Inv) (validateMCPURL : String → Fault) (body : UpdateServerBody) :
    (s.readForUpdate validateMCPURL body).Inv := by
  unfold TokenState.readForUpdate
  split
  · exact h
  · exact h.of_calls rfl rfl rfl rfl rfl fun j srv updated => Iff.rfl

theorem Inv.update (h : s.Inv) {j : Nat} {fault : Fault} (hcareful : s.Careful (.update j fault)) :
    (s.update j fault).Inv := by
  unfold TokenState.update
  split
  · exact h
  · rename_i existing body hget
    cases fault with
    | some err => exact h.of_calls rfl rfl rfl rfl rfl fun j srv updated => Iff.rfl
    | none =>
      obtain rfl := hcareful existing body hget rfl
      refine ⟨⟨h.sound.latest, h.sound.fresh, fun v hv => ?_, fun v hv => ?_, fun v hv => ?_⟩, h.one,
        h.pending, h.unused, h.known⟩
      · have hv' : (if body.url.isSome then some (body.apply s.row).url else s.settings.url) = some v := hv
        show (body.apply s.row).url = v
        cases hurl : body.url with
        | some url =>
          rw [hurl] at hv'
          exact Option.some.inj hv'
        | none =>
          rw [hurl] at hv'
          simp only [UpdateServerBody.apply, hurl]
          exact h.sound.url v hv'
      · have hv' : (if body.description.isSome then some (body.apply s.row).description
            else s.settings.description) = some v := hv
        show (body.apply s.row).description = v
        cases hdescription : body.description with
        | some description =>
          rw [hdescription] at hv'
          exact Option.some.inj hv'
        | none =>
          rw [hdescription] at hv'
          simp only [UpdateServerBody.apply, hdescription]
          exact h.sound.description v hv'
      · have hv' : (if body.enabled.isSome then some (body.apply s.row).enabled
            else s.settings.enabled) = some v := hv
        show (body.apply s.row).enabled = v
        cases henabled : body.enabled with
        | some enabled =>
          rw [henabled] at hv'
          exact Option.some.inj hv'
        | none =>
          rw [henabled] at hv'
          simp only [UpdateServerBody.apply, henabled]
          exact h.sound.enabled v hv'

theorem Inv.step (h : s.Inv) {event : TokenEvent} (validateMCPURL : String → Fault)
    (hcareful : s.Careful event) : (s.step validateMCPURL event).Inv := by
  cases event with
  | provide => exact h.provide
  | refresh i now answer => exact h.refresh hcareful
  | write i fault => exact h.write hcareful
  | readForUpdate body => exact h.readForUpdate validateMCPURL body
  | update j fault => exact h.update hcareful

end TokenState

/-! ## Runs -/

/-- In every run of careful steps no token and no setting is lost, from a
server whose refresh token was issued to it. -/
theorem tokens_sound (validateMCPURL : String → Fault) {row : MCPServer} {refreshToken : Bytes}
    (hrow : row.oauthConfig.map MCPOAuthConfig.refreshToken = some refreshToken)
    (events : List TokenEvent)
    (hcareful : Lib.Along TokenState.Careful (fun s => s.step validateMCPURL)
      (TokenState.start row refreshToken) events) :
    Lib.Always TokenState.Sound (fun s => s.step validateMCPURL) (TokenState.start row refreshToken)
      events :=
  Lib.always_of_along (fun _ _ hs hcareful => hs.step validateMCPURL hcareful) (fun _ hs => hs.sound)
    events _ (TokenState.Inv.start hrow) hcareful

/-- A server whose access token has expired. -/
def expiredServer : MCPServer :=
  { jiraServer with
    authType := "oauth"
    oauthConfig := some { accessToken := ascii "a0", refreshToken := ascii "r0", expiresAt := some 0 } }

/-- The answer to its refresh token. -/
def nextToken : TokenAnswer :=
  { accessToken := ascii "a1", refreshToken := ascii "r1"
    hasAccess := by decide, rotates := by decide }

/-- A run of careful steps: a call refreshes, then an update. -/
theorem tokens_sound_in_turn :
    Lib.Always TokenState.Sound (fun s => s.step fun _ => none)
      (TokenState.start expiredServer (ascii "r0"))
      [.provide, .refresh 0 100 (.ok nextToken), .write 0 none,
        .readForUpdate { url := some "https://jira.test/v2" }, .update 0 none] := by
  refine tokens_sound (fun _ => none) rfl _ ⟨trivial, ?_, ?_, trivial, ?_, trivial⟩
  · intro srv hread cfg hneeded
    cases hread
    cases hneeded
    refine ⟨rfl, ?_⟩
    rintro ⟨srv, updated, hmem⟩
    cases List.mem_singleton.mp hmem
  · intro srv updated hcall
    cases hcall
    exact ⟨rfl, rfl⟩
  · intro existing body hread _
    cases hread
    rfl

/-- Two calls that read the same row present the same refresh token, and a
refreshing call writes back the URL that an update has replaced. -/
theorem tokens_race :
    ¬ (∀ (row : MCPServer) (refreshToken : Bytes) (events : List TokenEvent),
        row.oauthConfig.map MCPOAuthConfig.refreshToken = some refreshToken →
        (Lib.run (fun s => TokenState.step s fun _ => none) (TokenState.start row refreshToken)
          events).replayed = false)
      ∧ ¬ (∀ (row : MCPServer) (refreshToken : Bytes) (events : List TokenEvent),
        row.oauthConfig.map MCPOAuthConfig.refreshToken = some refreshToken →
        ∀ v, (Lib.run (fun s => TokenState.step s fun _ => none) (TokenState.start row refreshToken)
          events).settings.url = some v →
          (Lib.run (fun s => TokenState.step s fun _ => none) (TokenState.start row refreshToken)
            events).row.url = v) := by
  constructor
  · intro h
    have hrun := h expiredServer (ascii "r0")
      [.provide, .provide, .refresh 0 100 (.ok nextToken), .refresh 1 100 (.ok nextToken)] rfl
    revert hrun
    decide +kernel
  · intro h
    have hrun := h expiredServer (ascii "r0")
      [.provide, .readForUpdate { url := some "https://jira.test/v2" }, .update 0 none,
        .refresh 0 100 (.ok nextToken), .write 0 none] rfl "https://jira.test/v2"
    revert hrun
    decide +kernel

end LendingClaw.Mcp
