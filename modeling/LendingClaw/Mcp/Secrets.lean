/-
LendingClaw.Mcp.Secrets — the table of MCP servers and the encryption of
its secrets (`pkg/crypto/aes.go`, `internal/store/mysql/mcp_servers.go`).

A secret is a byte sequence, as in the source. AES-GCM is a parameter
that opens what it sealed. The column `oauth_config` is the config with
its secrets encrypted: the JSON around it is left out.

`Encrypt` leaves alone what carries its prefix. `secrets_survive` says
what comes back of the others, and of a row that is read and written
again.
-/
import LendingClaw.Lib.Base64
import LendingClaw.Lib.Table
import LendingClaw.Store.Workspace

namespace LendingClaw.Mcp

open LendingClaw.Store LendingClaw.Lib

/-! ## Encryption -/

/-- `cipher.NewGCM` on a 32-byte key: 12-byte nonces, no additional data. -/
structure Gcm where
  sealText : (key nonce plaintext : Bytes) → Bytes
  openText : (key nonce ciphertext : Bytes) → Option Bytes
  open_seal : ∀ key nonce plaintext, key.length = 32 → nonce.length = 12 →
    openText key nonce (sealText key nonce plaintext) = some plaintext

structure Nonce where
  bytes : Bytes
  length_eq : bytes.length = 12

def aesPrefix : Bytes := ascii "aes-gcm:"

/-- `IsEncrypted`. -/
def isEncrypted (value : Bytes) : Bool := aesPrefix.isPrefixOf value

/-- `DeriveKey`: 64 hexadecimal digits, 44 characters of base64 or the 32
bytes. -/
def deriveKey (input : Bytes) : Option Bytes :=
  let raw := if input.length = 32 then some input else none
  let base64 :=
    if input.length = 44 ∧ input.getLast? = some pad then
      (base64Decode input).filter fun b => b.length = 32
    else none
  let hex := if input.length = 64 then hexDecode input else none
  hex.or (base64.or raw)

def keyError : String :=
  "encryption key must be 32 bytes (hex 64 chars, base64 44 chars, or raw 32 bytes)"

variable (g : Gcm)

/-- `Encrypt`. -/
def encrypt (nonce : Nonce) (plaintext key : Bytes) : Except String Bytes :=
  if key = [] ∨ plaintext = [] then .ok plaintext
  else if isEncrypted plaintext then .ok plaintext
  else
    match deriveKey key with
    | none => .error keyError
    | some keyBytes =>
      .ok (aesPrefix ++ base64Encode (nonce.bytes ++ g.sealText keyBytes nonce.bytes plaintext))

/-- `Decrypt`: both its results. -/
def decrypt (ciphertext key : Bytes) : Bytes × Fault :=
  if key = [] ∨ ciphertext = [] then (ciphertext, none)
  else if !isEncrypted ciphertext then (ciphertext, none)
  else
    match deriveKey key with
    | none => ([], some keyError)
    | some keyBytes =>
      match base64Decode (ciphertext.drop aesPrefix.length) with
      | none => (ciphertext, none)
      | some data =>
        if data.length < 12 then (ciphertext, none)
        else
          match g.openText keyBytes (data.take 12) (data.drop 12) with
          | none => ([], some "decrypt failed: invalid key or corrupted data")
          | some plaintext => (plaintext, none)

/-! ## The table -/

/-- `store.MCPOAuthConfig`. -/
structure MCPOAuthConfig where
  provider : String := ""
  clientID : String := ""
  clientSecret : Bytes := []
  tokenEndpointAuthMethod : String := ""
  authorizationEndpoint : String := ""
  tokenEndpoint : String := ""
  registrationEndpoint : String := ""
  resource : String := ""
  redirectURI : String := ""
  scope : String := ""
  accessToken : Bytes := []
  refreshToken : Bytes := []
  tokenType : String := ""
  expiresAt : Option Int := none
  state : String := ""
  codeVerifier : Bytes := []
  stateExpiresAt : Option Int := none
  deriving DecidableEq

/-- `store.MCPServer`, less the times; also a row of `mcp_servers`, with
the secrets as they are stored. -/
structure MCPServer where
  workspaceID : WorkspaceID
  name : String
  url : String
  authToken : Bytes := []
  authType : String := ""
  oauthConfig : Option MCPOAuthConfig := none
  enabled : Bool := true
  description : String := ""
  deriving DecidableEq

def MCPServer.key (srv : MCPServer) : WorkspaceID × String := (srv.workspaceID, srv.name)

/-- `mcp_servers`. -/
abbrev ServerTable := Table MCPServer (WorkspaceID × String) MCPServer.key

/-- `MCPServer.EffectiveAuthType`. -/
def MCPServer.effectiveAuthType (srv : MCPServer) : String :=
  if srv.authType ≠ "" then srv.authType
  else if srv.oauthConfig.isSome then "oauth"
  else "bearer"

/-- `encryptOAuthConfig`. -/
def encryptOAuthConfig (nonces : Nat → Nonce) (key : Bytes) (cfg : MCPOAuthConfig) :
    Except String MCPOAuthConfig := do
  let clientSecret ← encrypt g (nonces 1) cfg.clientSecret key
  let accessToken ← encrypt g (nonces 2) cfg.accessToken key
  let refreshToken ← encrypt g (nonces 3) cfg.refreshToken key
  let codeVerifier ← encrypt g (nonces 4) cfg.codeVerifier key
  return { cfg with
    clientSecret := clientSecret, accessToken := accessToken, refreshToken := refreshToken
    codeVerifier := codeVerifier }

/-- `decryptOAuthConfig`: a field that fails becomes what `Decrypt`
returned beside the error. -/
def decryptOAuthConfig (key : Bytes) (cfg : MCPOAuthConfig) : MCPOAuthConfig :=
  { cfg with
    clientSecret := (decrypt g cfg.clientSecret key).1
    accessToken := (decrypt g cfg.accessToken key).1
    refreshToken := (decrypt g cfg.refreshToken key).1
    codeVerifier := (decrypt g cfg.codeVerifier key).1 }

/-- `decryptToken`: a token that fails is returned as it is stored. -/
def decryptToken (key stored : Bytes) : Bytes :=
  match decrypt g stored key with
  | (_, some _) => stored
  | (plain, none) => plain

/-- `marshalOAuthConfig`. -/
def marshalOAuthConfig (nonces : Nat → Nonce) (key : Bytes) :
    Option MCPOAuthConfig → Except String (Option MCPOAuthConfig)
  | none => .ok none
  | some cfg => (encryptOAuthConfig g nonces key cfg).map some

/-- The columns that `Create` and `Update` write. -/
def storedServer (nonces : Nat → Nonce) (key : Bytes) (srv : MCPServer) : Except String MCPServer :=
  match encrypt g (nonces 0) srv.authToken key with
  | .error err => .error ("encrypt auth_token: " ++ err)
  | .ok token =>
    match marshalOAuthConfig g nonces key srv.oauthConfig with
    | .error err => .error ("marshal oauth_config: " ++ err)
    | .ok oauthConfig =>
      let authType := if srv.authType = "" then "bearer" else srv.authType
      .ok { srv with authToken := token, authType := authType, oauthConfig := oauthConfig }

/-- A row as `Get` reads it. -/
def readServer (key : Bytes) (row : MCPServer) : MCPServer :=
  { row with
    authToken := decryptToken g key row.authToken
    oauthConfig := row.oauthConfig.map (decryptOAuthConfig g key) }

/-- `Create`. -/
def ServerTable.create (t : ServerTable) (nonces : Nat → Nonce) (key : Bytes) (srv : MCPServer) :
    Except String ServerTable :=
  match storedServer g nonces key srv with
  | .error err => .error err
  | .ok row =>
    match t.insert row with
    | none => .error "create mcp server: duplicate entry"
    | some t' => .ok t'

/-- The assignments of `Update`. -/
def MCPServer.assign (row r : MCPServer) : MCPServer :=
  { row with workspaceID := r.workspaceID, name := r.name }

theorem MCPServer.assign_key (row r : MCPServer) : (row.assign r).key = r.key := rfl

/-- `Update`; no row is no error. -/
def ServerTable.update (t : ServerTable) (nonces : Nat → Nonce) (key : Bytes) (srv : MCPServer) :
    Except String ServerTable :=
  match storedServer g nonces key srv with
  | .error err => .error err
  | .ok row => .ok (Table.update t srv.key row.assign row.assign_key)

/-- `Get`. -/
def ServerTable.get (t : ServerTable) (key : Bytes) (w : WorkspaceID) (name : String) :
    Option MCPServer :=
  (t.find (w, name)).map (readServer g key)

/-! ## The property -/

/-- The secrets of a server: the bearer token first. -/
def MCPServer.secrets (srv : MCPServer) : List Bytes :=
  srv.authToken :: srv.oauthConfig.elim []
    fun cfg => [cfg.clientSecret, cfg.accessToken, cfg.refreshToken, cfg.codeVerifier]

/-- `t'` is `t` after a `Create`, or an `Update` of a server that is there. -/
def Written (nonces : Nat → Nonce) (key : Bytes) (t : ServerTable) (srv : MCPServer)
    (t' : ServerTable) : Prop :=
  t.create g nonces key srv = .ok t'
    ∨ t.update g nonces key srv = .ok t' ∧ (t.find srv.key).isSome

/-- A server that was read and written back with another URL, description
or enabled flag. -/
def Edited (nonces : Nat → Nonce) (key : Bytes) (t : ServerTable) (got : MCPServer) (t' : ServerTable) :
    Prop :=
  t.get g key got.workspaceID got.name = some got
    ∧ ∃ url description enabled,
      t.update g nonces key { got with url := url, description := description, enabled := enabled } = .ok t'

/-- What is written is read back, and an edit leaves every secret to
everyone who could decrypt it. -/
def SecretsSurvive : Prop :=
  ∀ key, (deriveKey key).isSome → ∀ nonces t,
    (∀ srv t', Written g nonces key t srv t' →
      ∃ got, t'.get g key srv.workspaceID srv.name = some got ∧ got.secrets = srv.secrets)
    ∧ ∀ got t', Edited g nonces key t got t' → ∃ row row', t.find got.key = some row
      ∧ t'.find got.key = some row'
      ∧ List.Forall₂ (fun s s' => ∀ key' v, decrypt g s key' = (v, none) → decrypt g s' key' = (v, none))
          row.secrets row'.secrets

/-! ## One secret -/

variable {g} {key : Bytes}

theorem deriveKey_length {input keyBytes : Bytes} (h : deriveKey input = some keyBytes) :
    keyBytes.length = 32 := by
  unfold deriveKey at h
  rcases Option.or_eq_some_iff.mp h with hhex | ⟨-, hrest⟩
  · split at hhex
    · rename_i hlen
      have := hexDecode_length hhex
      omega
    · cases hhex
  · rcases Option.or_eq_some_iff.mp hrest with hbase | ⟨-, hraw⟩
    · split at hbase
      · simpa using (Option.filter_eq_some_iff.mp hbase).2
      · cases hbase
    · split at hraw
      · rename_i hlen
        cases hraw
        exact hlen
      · cases hraw

theorem ne_nil_of_deriveKey (h : (deriveKey key).isSome) : key ≠ [] := by
  rintro rfl
  exact absurd h (by decide)

theorem isEncrypted_append (s : Bytes) : isEncrypted (aesPrefix ++ s) = true :=
  List.isPrefixOf_iff_prefix.mpr (List.prefix_append _ _)

/-- What `Decrypt` makes of a sealed text. -/
theorem decrypt_sealed {keyBytes : Bytes} (hkey : deriveKey key = some keyBytes) (nonce : Nonce)
    (plaintext : Bytes) :
    decrypt g (aesPrefix ++ base64Encode (nonce.bytes ++ g.sealText keyBytes nonce.bytes plaintext)) key
      = (plaintext, none) := by
  have hne := ne_nil_of_deriveKey (by rw [hkey]; rfl : (deriveKey key).isSome)
  have hlen : ¬ (nonce.bytes ++ g.sealText keyBytes nonce.bytes plaintext).length < 12 := by
    rw [List.length_append, nonce.length_eq]
    omega
  have htake : (nonce.bytes ++ g.sealText keyBytes nonce.bytes plaintext).take 12 = nonce.bytes :=
    List.take_left' nonce.length_eq
  have hdrop : (nonce.bytes ++ g.sealText keyBytes nonce.bytes plaintext).drop 12
      = g.sealText keyBytes nonce.bytes plaintext := List.drop_left' nonce.length_eq
  unfold decrypt
  rw [if_neg, isEncrypted_append, Bool.not_true, if_neg Bool.false_ne_true]
  · simp only [hkey, List.drop_left, base64Decode_encode, if_neg hlen, htake, hdrop,
      g.open_seal keyBytes nonce.bytes plaintext (deriveKey_length hkey) nonce.length_eq]
  · rintro (hnil | hnil)
    · exact hne hnil
    · exact absurd (List.append_eq_nil_iff.mp hnil).1 (by decide)

variable (g key) in
/-- `s'` is stored for `s`: it is decrypted to `s`, if `s` has not the
prefix, and it is `s` if it has or is empty. -/
structure Stores (s s' : Bytes) : Prop where
  plain : isEncrypted s = false → decrypt g s' key = (s, none)
  kept : isEncrypted s = true → s' = s
  empty : s = [] → s' = []

theorem encrypt_stores (hkey : (deriveKey key).isSome) (nonce : Nonce) (s : Bytes) :
    ∃ s', encrypt g nonce s key = .ok s' ∧ Stores g key s s' := by
  have hne := ne_nil_of_deriveKey hkey
  obtain ⟨keyBytes, hderive⟩ := Option.isSome_iff_exists.mp hkey
  unfold encrypt
  by_cases hnil : key = [] ∨ s = []
  · obtain rfl := hnil.resolve_left hne
    rw [if_pos (Or.inr rfl)]
    exact ⟨[], rfl, ⟨fun _ => by simp [decrypt], fun _ => rfl, fun _ => rfl⟩⟩
  · rw [if_neg hnil]
    cases hs : isEncrypted s with
    | true => exact ⟨s, rfl, ⟨fun hplain => (by cases hs.symm.trans hplain), fun _ => rfl, id⟩⟩
    | false =>
      simp only [hderive, if_neg Bool.false_ne_true]
      exact ⟨_, rfl, ⟨fun _ => decrypt_sealed hderive nonce s, fun hkept => (by cases hs.symm.trans hkept),
        fun hempty => absurd (Or.inr hempty) hnil⟩⟩

/-- A failure is one of the prefixed. -/
theorem isEncrypted_of_fault {s : Bytes} (h : (decrypt g s key).2 ≠ none) : isEncrypted s = true := by
  by_contra hs
  rw [Bool.not_eq_true] at hs
  refine h ?_
  unfold decrypt
  split
  · rfl
  · rw [hs]
    rfl

theorem decrypt_fault_nil {s : Bytes} (h : (decrypt g s key).2 ≠ none) : (decrypt g s key).1 = [] := by
  unfold decrypt at h ⊢
  split
  · rename_i hnil
    rw [if_pos hnil] at h
    exact absurd rfl h
  · rename_i hnil
    rw [if_neg hnil] at h
    split
    · rename_i hplain
      rw [if_pos hplain] at h
      exact absurd rfl h
    · rename_i hplain
      rw [if_neg hplain] at h
      cases hkey : deriveKey key with
      | none => rfl
      | some keyBytes =>
        cases hdata : base64Decode (s.drop aesPrefix.length) with
        | none =>
          simp only [hkey, hdata] at h
          exact absurd rfl h
        | some data =>
          simp only [hkey, hdata] at h ⊢
          split
          · rename_i hshort
            rw [if_pos hshort] at h
            exact absurd rfl h
          · rename_i hshort
            rw [if_neg hshort] at h
            cases hopen : g.openText keyBytes (data.take 12) (data.drop 12) with
            | none => rfl
            | some plaintext =>
              simp only [hopen] at h
              exact absurd rfl h

/-! ## One server -/

/-- The config that is stored. -/
theorem encryptOAuthConfig_stores (hkey : (deriveKey key).isSome) (nonces : Nat → Nonce)
    (cfg : MCPOAuthConfig) :
    ∃ stored, encryptOAuthConfig g nonces key cfg = .ok stored
      ∧ Stores g key cfg.clientSecret stored.clientSecret
      ∧ Stores g key cfg.accessToken stored.accessToken
      ∧ Stores g key cfg.refreshToken stored.refreshToken
      ∧ Stores g key cfg.codeVerifier stored.codeVerifier := by
  obtain ⟨clientSecret, h₁, hclient⟩ := encrypt_stores (g := g) hkey (nonces 1) cfg.clientSecret
  obtain ⟨accessToken, h₂, haccess⟩ := encrypt_stores (g := g) hkey (nonces 2) cfg.accessToken
  obtain ⟨refreshToken, h₃, hrefresh⟩ := encrypt_stores (g := g) hkey (nonces 3) cfg.refreshToken
  obtain ⟨codeVerifier, h₄, hcode⟩ := encrypt_stores (g := g) hkey (nonces 4) cfg.codeVerifier
  refine ⟨{ cfg with
    clientSecret := clientSecret, accessToken := accessToken, refreshToken := refreshToken
    codeVerifier := codeVerifier }, ?_, hclient, haccess, hrefresh, hcode⟩
  unfold encryptOAuthConfig
  rw [h₁, h₂, h₃, h₄]
  rfl

/-- The row that is stored. -/
theorem storedServer_stores (hkey : (deriveKey key).isSome) (nonces : Nat → Nonce) (srv : MCPServer) :
    ∃ row, storedServer g nonces key srv = .ok row ∧ row.key = srv.key
      ∧ List.Forall₂ (Stores g key) srv.secrets row.secrets := by
  obtain ⟨token, htoken, hauth⟩ := encrypt_stores (g := g) hkey (nonces 0) srv.authToken
  unfold storedServer
  rw [htoken]
  cases hcfg : srv.oauthConfig with
  | none =>
    refine ⟨_, rfl, rfl, ?_⟩
    unfold MCPServer.secrets
    rw [hcfg]
    exact List.Forall₂.cons hauth List.Forall₂.nil
  | some cfg =>
    obtain ⟨stored, hstored, hclient, haccess, hrefresh, hcode⟩ :=
      encryptOAuthConfig_stores (g := g) hkey nonces cfg
    simp only [marshalOAuthConfig, hstored, Except.map]
    refine ⟨_, rfl, rfl, ?_⟩
    unfold MCPServer.secrets
    rw [hcfg]
    exact .cons hauth (.cons hclient (.cons haccess (.cons hrefresh (.cons hcode .nil))))

variable (g key) in
/-- What `Get` makes of a stored secret. -/
def Reads (s v : Bytes) : Prop := ∀ x, decrypt g s key = (x, none) → v = x

/-- A bearer token that fails comes back as it is stored. -/
theorem decryptToken_fault {s : Bytes} (h : (decrypt g s key).2 ≠ none) : decryptToken g key s = s := by
  unfold decryptToken
  cases hd : decrypt g s key with
  | mk plain fault =>
    cases fault with
    | some err => rfl
    | none =>
      rw [hd] at h
      exact absurd rfl h

theorem readServer_reads (row : MCPServer) :
    List.Forall₂ (Reads g key) row.secrets (readServer g key row).secrets := by
  have hauth : Reads g key row.authToken (decryptToken g key row.authToken) := by
    intro x hx
    unfold decryptToken
    rw [hx]
  have hfield : ∀ s, Reads g key s (decrypt g s key).1 := by
    intro s x hx
    rw [hx]
  unfold MCPServer.secrets readServer
  cases row.oauthConfig with
  | none => exact .cons hauth .nil
  | some cfg =>
    exact .cons hauth (.cons (hfield _) (.cons (hfield _) (.cons (hfield _) (.cons (hfield _) .nil))))

/-! ## Rows that are written -/

theorem update_spec (hkey : (deriveKey key).isSome) {nonces : Nat → Nonce} {t t' : ServerTable}
    {srv : MCPServer} (h : t.update g nonces key srv = .ok t') (hthere : (t.find srv.key).isSome) :
    ∃ row, t'.find srv.key = some row ∧ List.Forall₂ (Stores g key) srv.secrets row.secrets := by
  obtain ⟨row, hstored, -, hstores⟩ := storedServer_stores (g := g) hkey nonces srv
  obtain ⟨old, hold⟩ := Option.isSome_iff_exists.mp hthere
  rw [ServerTable.update, hstored] at h
  cases h
  refine ⟨row.assign old, ?_, hstores⟩
  rw [Table.find_update, if_pos rfl, hold]
  rfl

theorem written_spec (hkey : (deriveKey key).isSome) {nonces : Nat → Nonce} {t t' : ServerTable}
    {srv : MCPServer} (h : Written g nonces key t srv t') :
    ∃ row, t'.find srv.key = some row ∧ List.Forall₂ (Stores g key) srv.secrets row.secrets := by
  rcases h with hcreate | ⟨hupdate, hthere⟩
  · obtain ⟨row, hstored, hrow, hstores⟩ := storedServer_stores (g := g) hkey nonces srv
    unfold ServerTable.create at hcreate
    simp only [hstored] at hcreate
    cases hinsert : t.insert row with
    | none =>
      simp only [hinsert] at hcreate
      cases hcreate
    | some t₁ =>
      simp only [hinsert] at hcreate
      cases hcreate
      refine ⟨row, ?_, hstores⟩
      rw [Table.find_insert hinsert, if_pos hrow.symm]
  · exact update_spec hkey hupdate hthere

theorem forall₂_comp {α β γ : Type} {P : α → β → Prop} {Q : β → γ → Prop} {S : α → γ → Prop}
    (h : ∀ a b c, P a b → Q b c → S a c) {l₁ : List α} {l₂ : List β} {l₃ : List γ}
    (h₁ : List.Forall₂ P l₁ l₂) (h₂ : List.Forall₂ Q l₂ l₃) : List.Forall₂ S l₁ l₃ := by
  induction h₁ generalizing l₃ with
  | nil =>
    cases h₂
    exact .nil
  | cons hab _ ih =>
    cases h₂ with
    | cons hbc hrest => exact .cons (h _ _ _ hab hbc) (ih hrest)

/-- What comes back of a write. -/
theorem get_written (hkey : (deriveKey key).isSome) {nonces : Nat → Nonce} {t t' : ServerTable}
    {srv : MCPServer} (h : Written g nonces key t srv t') :
    ∃ row got, t'.find srv.key = some row ∧ t'.get g key srv.workspaceID srv.name = some got
      ∧ List.Forall₂ (fun s v => isEncrypted s = false → v = s) srv.secrets got.secrets
      ∧ List.Forall₂ (fun s s' => isEncrypted s = true → s' = s) srv.secrets row.secrets := by
  obtain ⟨row, hrow, hstores⟩ := written_spec hkey h
  refine ⟨row, readServer g key row, hrow, ?_, ?_, hstores.imp fun _ _ hs => hs.kept⟩
  · exact congrArg (Option.map (readServer g key)) hrow
  · exact forall₂_comp (fun s s' v hs hv hplain => hv s (hs.plain hplain)) hstores (readServer_reads row)

/-- What an edit makes of the stored secrets. -/
theorem edited_spec (hkey : (deriveKey key).isSome) {nonces : Nat → Nonce} {t t' : ServerTable}
    {got : MCPServer} (h : Edited g nonces key t got t') :
    ∃ row row', t.find got.key = some row ∧ got = readServer g key row ∧ t'.find got.key = some row'
      ∧ List.Forall₂ (Stores g key) got.secrets row'.secrets := by
  obtain ⟨hget, url, description, enabled, hupdate⟩ := h
  obtain ⟨row, hrow, rfl⟩ := Option.map_eq_some_iff.mp hget
  obtain ⟨row', hrow', hstores⟩ := update_spec hkey hupdate (Option.isSome_iff_exists.mpr ⟨row, hrow⟩)
  exact ⟨row, row', hrow, rfl, hrow', hstores⟩

variable (g) in
/-- Of what is written, a secret without the prefix is read back, and one
with it is stored as it is. An edit leaves a secret that was decrypted to
a text without the prefix decryptable to it, and leaves in its place what
was not decrypted for its form, and a bearer token that failed. -/
theorem secrets_survive {key : Bytes} (hkey : (deriveKey key).isSome) (nonces : Nat → Nonce)
    (t : ServerTable) :
    (∀ srv t', Written g nonces key t srv t' →
      ∃ row got, t'.find srv.key = some row ∧ t'.get g key srv.workspaceID srv.name = some got
        ∧ List.Forall₂ (fun s v => isEncrypted s = false → v = s) srv.secrets got.secrets
        ∧ List.Forall₂ (fun s s' => isEncrypted s = true → s' = s) srv.secrets row.secrets)
    ∧ ∀ got t', Edited g nonces key t got t' →
        ∃ row row', t.find got.key = some row ∧ t'.find got.key = some row'
          ∧ List.Forall₂
              (fun s s' =>
                (∀ v, decrypt g s key = (v, none) → isEncrypted v = false → decrypt g s' key = (v, none))
                  ∧ (decrypt g s key = (s, none) → isEncrypted s = true → s' = s))
              row.secrets row'.secrets
          ∧ ((decrypt g row.authToken key).2 ≠ none → row'.authToken = row.authToken) := by
  refine ⟨fun srv t' hwritten => get_written hkey hwritten, fun got t' hedited => ?_⟩
  obtain ⟨row, row', hrow, rfl, hrow', hstores⟩ := edited_spec hkey hedited
  refine ⟨row, row', hrow, hrow', ?_, fun hfault => ?_⟩
  · refine forall₂_comp (fun s v s' hread hstored => ⟨fun x hx hplain => ?_, fun hs hprefix => ?_⟩)
      (readServer_reads row) hstores
    · obtain rfl : v = x := hread x hx
      exact hstored.plain hplain
    · obtain rfl : v = s := hread s hs
      exact hstored.kept hprefix
  · have hauth : Stores g key (decryptToken g key row.authToken) row'.authToken :=
      (List.forall₂_cons.mp hstores).1
    rw [decryptToken_fault hfault] at hauth
    exact hauth.kept (isEncrypted_of_fault hfault)

/-- An edit blanks a refresh token that could not be decrypted. -/
theorem edit_blanks_refreshToken {key : Bytes} (hkey : (deriveKey key).isSome) {nonces : Nat → Nonce}
    {t t' : ServerTable} {got row : MCPServer} {cfg : MCPOAuthConfig}
    (h : Edited g nonces key t got t') (hrow : t.find got.key = some row)
    (hcfg : row.oauthConfig = some cfg) (hfault : (decrypt g cfg.refreshToken key).2 ≠ none) :
    ∃ row', t'.find got.key = some row' ∧ row'.secrets[3]? = some [] := by
  obtain ⟨row₀, row', hrow₀, rfl, hrow', hstores⟩ := edited_spec hkey h
  obtain rfl : row₀ = row := Option.some.inj (hrow₀.symm.trans hrow)
  have hblank : (readServer g key row₀).secrets[3]? = some [] := by
    simp only [MCPServer.secrets, readServer, hcfg, Option.map_some, Option.elim_some,
      decryptOAuthConfig, List.getElem?_cons_succ, List.getElem?_cons_zero, decrypt_fault_nil hfault]
  refine ⟨row', hrow', ?_⟩
  obtain ⟨hlen, hat⟩ := List.forall₂_iff_get.mp hstores
  obtain ⟨hlt, hget⟩ := List.getElem?_eq_some_iff.mp hblank
  have hlt' : 3 < row'.secrets.length := hlen ▸ hlt
  rw [List.getElem?_eq_getElem hlt']
  exact congrArg some ((hat 3 hlt hlt').empty hget)

variable (g) in
/-- `Create` on an empty table. -/
theorem create_empty {key : Bytes} (hkey : (deriveKey key).isSome) (nonces : Nat → Nonce)
    (srv : MCPServer) :
    ∃ row t', List.Forall₂ (Stores g key) srv.secrets row.secrets ∧ t'.find srv.key = some row
      ∧ ServerTable.create g Table.empty nonces key srv = .ok t' := by
  obtain ⟨row, hstored, hrow, hstores⟩ := storedServer_stores (g := g) hkey nonces srv
  refine ⟨row, { rows := [row], unique := List.nodup_singleton _ }, hstores, ?_, ?_⟩
  · exact Table.find_eq_some_iff.mpr ⟨List.mem_singleton_self row, hrow⟩
  · unfold ServerTable.create
    rw [hstored]
    rfl

/-! ## A secret that looks encrypted -/

def letsKey : Bytes := ascii "12345678901234567890123456789012"

def zeroNonce : Nonce := { bytes := List.replicate 12 0, length_eq := rfl }

/-- An encrypted `x`. -/
def sealedX (g : Gcm) : Bytes :=
  aesPrefix ++ base64Encode (zeroNonce.bytes ++ g.sealText letsKey zeroNonce.bytes (ascii "x"))

/-- An encrypted text that is given as the token of a new server comes
back decrypted. -/
theorem sealed_token_is_opened : ¬ ∃ g, SecretsSurvive g := by
  rintro ⟨g, h⟩
  have hkey : (deriveKey letsKey).isSome := by decide
  let srv : MCPServer :=
    { workspaceID := defaultWorkspaceID, name := "jira", url := "https://jira.example"
      authToken := sealedX g }
  obtain ⟨row, t', hstores, hfind, hcreate⟩ := create_empty g hkey (fun _ => zeroNonce) srv
  have hprefix : isEncrypted (sealedX g) = true := isEncrypted_append _
  have htoken : row.authToken = sealedX g := (List.forall₂_cons.mp hstores).1.kept hprefix
  obtain ⟨got, hget, hsecrets⟩ := (h letsKey hkey (fun _ => zeroNonce) Table.empty).1 srv t'
    (Or.inl hcreate)
  obtain rfl : readServer g letsKey row = got := by
    have hread : t'.get g letsKey srv.workspaceID srv.name = some (readServer g letsKey row) :=
      congrArg (Option.map (readServer g letsKey)) hfind
    exact Option.some.inj (hread.symm.trans hget)
  have hopened : decryptToken g letsKey (sealedX g) = ascii "x" := by
    unfold decryptToken sealedX
    rw [decrypt_sealed (by decide) zeroNonce (ascii "x")]
  have hsame : decryptToken g letsKey row.authToken = sealedX g := (List.cons.inj hsecrets).1
  rw [htoken, hopened] at hsame
  rw [← hsame] at hprefix
  exact absurd hprefix (by decide)

/-- A cipher that writes the key behind the text. -/
def plainGcm : Gcm where
  sealText key _ plaintext := plaintext ++ key
  openText key _ ciphertext :=
    if ciphertext.drop (ciphertext.length - 32) = key then
      some (ciphertext.take (ciphertext.length - 32))
    else none
  open_seal key nonce plaintext hkey _ := by simp [hkey]

def jiraServer : MCPServer :=
  { workspaceID := defaultWorkspaceID, name := "jira", url := "https://jira.example"
    authToken := ascii "secret" }

/-- A token that is created and read. -/
theorem secrets_survive_create :
    ∃ t' got, Written plainGcm (fun _ => zeroNonce) letsKey Table.empty jiraServer t'
      ∧ t'.get plainGcm letsKey defaultWorkspaceID "jira" = some got
      ∧ got.authToken = ascii "secret" := by
  have hkey : (deriveKey letsKey).isSome := by decide
  obtain ⟨row, t', -, -, hcreate⟩ := create_empty plainGcm hkey (fun _ => zeroNonce) jiraServer
  obtain ⟨-, got, -, hget, hplain, -⟩ :=
    (secrets_survive plainGcm hkey (fun _ => zeroNonce) Table.empty).1 jiraServer t'
      (Or.inl hcreate)
  exact ⟨t', got, Or.inl hcreate, hget, (List.forall₂_cons.mp hplain).1 (by decide)⟩

end LendingClaw.Mcp
