/-
LendingClaw.Store.Sessions — the session store over MySQL
(`internal/store/types.go`, `internal/store/mysql/sessions.go`).

A session lives in two places: a row of `sessions`, and an entry of the
in-memory cache that all operations but `Delete` work on. `Save` writes
the entry over the row. An entry comes into the cache from the row
(`loadFromDB`) or, where `loadFromDB` gives nil, as a new empty session;
`loadFromDB` gives nil for a row that does not exist and for every query
or scan error alike.

Each operation is one atomic step, as the mutex makes it. Whether the
database serves a call is an input of the operation. The history column
is kept as the messages `json.Unmarshal` reads from it, and time stamps
are left out.
-/
import LendingClaw.Store.Workspace
import LendingClaw.Providers.Types
import LendingClaw.Lib.Table
import Mathlib.Data.List.AList

namespace LendingClaw.Store

open LendingClaw.Providers

/-- `store.DefaultSessionTitle`. -/
def defaultSessionTitle : String := "Cuộc trò chuyện mới"

/-- `store.SessionData`. -/
structure SessionData where
  key : String
  title : String
  createdBy : String
  agentID : String
  messages : List Message
  summary : String
  model : String
  provider : String
  channel : String
  inputTokens : Int
  outputTokens : Int
  compactionCount : Int
  lastPromptTokens : Int
  lastMessageCount : Int
  memoryFlushAt : Int
  extraMeta : AList (fun _ : String => String)
  deriving DecidableEq

/-- A value of the metadata object: a string, an integer, or anything
else JSON has. -/
inductive MetaValue where
  | str (s : String)
  | num (n : Int)
  | other
  deriving DecidableEq

abbrev Metadata := AList (fun _ : String => MetaValue)

/-- A row of `sessions`. -/
structure SessionRow where
  workspaceID : WorkspaceID
  sessionKey : String
  title : String
  kind : String
  createdBy : Option String
  history : List Message
  summary : Option String
  metadata : Option Metadata
  compactionCount : Int
  deriving DecidableEq

/-- The primary key. -/
def SessionRow.key (row : SessionRow) : WorkspaceID × String := (row.workspaceID, row.sessionKey)

abbrev SessionTable := Lib.Table SessionRow (WorkspaceID × String) SessionRow.key

/-- `nilStr`. -/
def nilStr (s : String) : Option String := if s = "" then none else some s

/-- `derefStr`. -/
def derefStr (s : Option String) : String := s.getD ""

/-! ## The metadata column -/

/-- The nearest float64 of an integer, ties to even: what the integer is
after a trip through a decoded JSON number. -/
def viaFloat64 (n : Int) : Int :=
  let m := n.natAbs
  if m ≤ 1 <<< 53 then n
  else
    let unit := 1 <<< (Nat.log2 m - 52)
    let q := m / unit
    let r := m % unit
    let rounded := if 2 * r < unit ∨ 2 * r = unit ∧ q % 2 = 0 then q else q + 1
    n.sign * Int.ofNat (rounded * unit)

def reservedMeta : List String :=
  ["model", "provider", "channel", "title", "input_tokens", "output_tokens", "agent_id"]

/-- `sessionMetadata`. -/
def sessionMetadata (data : SessionData) : Metadata :=
  let fields : Metadata :=
    (((((((∅ : Metadata).insert "model" (.str data.model)).insert "provider"
      (.str data.provider)).insert "channel" (.str data.channel)).insert "title"
      (.str data.title)).insert "input_tokens" (.num data.inputTokens)).insert "output_tokens"
      (.num data.outputTokens)).insert "agent_id" (.str data.agentID)
  data.extraMeta.entries.foldl
    (fun m p => if p.1 ∈ reservedMeta then m else m.insert p.1 (.str p.2)) fields

/-- `meta[k].(string)`. -/
def metaString (m : Metadata) (k : String) : Option String :=
  match m.lookup k with
  | some (.str s) => some s
  | _ => none

/-- `int64(meta[k].(float64))`. -/
def metaInt (m : Metadata) (k : String) : Option Int :=
  match m.lookup k with
  | some (.num n) => some (viaFloat64 n)
  | _ => none

/-- The string entries under the keys that are not reserved. -/
def metaExtra (m : Metadata) : AList (fun _ : String => String) :=
  m.entries.foldl
    (fun extra p =>
      if p.1 ∈ reservedMeta then extra
      else
        match p.2 with
        | .str s => extra.insert p.1 s
        | _ => extra)
    ∅

/-- The fields `loadFromDB` takes from the metadata object. -/
def withMetadata (data : SessionData) (m : Metadata) : SessionData :=
  { data with
    model := (metaString m "model").getD data.model
    provider := (metaString m "provider").getD data.provider
    channel := (metaString m "channel").getD data.channel
    agentID := (metaString m "agent_id").getD data.agentID
    title :=
      match metaString m "title" with
      | some v => if data.title = defaultSessionTitle ∧ v ≠ "" then v else data.title
      | none => data.title
    inputTokens := (metaInt m "input_tokens").getD data.inputTokens
    outputTokens := (metaInt m "output_tokens").getD data.outputTokens
    extraMeta := metaExtra m }

/-- The `SessionData` that `loadFromDB` builds from a row. -/
def SessionRow.load (row : SessionRow) : SessionData :=
  let data : SessionData :=
    { key := row.sessionKey
      title := if row.title = "" then defaultSessionTitle else row.title
      createdBy := derefStr row.createdBy
      agentID := ""
      messages := row.history
      summary := derefStr row.summary
      model := ""
      provider := ""
      channel := ""
      inputTokens := 0
      outputTokens := 0
      compactionCount := row.compactionCount
      lastPromptTokens := 0
      lastMessageCount := 0
      memoryFlushAt := 0
      extraMeta := ∅ }
  match row.metadata with
  | some m => withMetadata data m
  | none => data

/-! ## The store -/

structure MySQLSessionStore where
  db : SessionTable
  cache : AList (fun _ : String => SessionData)

/-- `NewMySQLSessionStore`. -/
def newMySQLSessionStore (db : SessionTable) : MySQLSessionStore := { db := db, cache := ∅ }

/-- `ck`: the cache key of a (workspace, session) pair. -/
def ck (workspaceID : WorkspaceID) (key : String) : String := Lib.nulKey workspaceID.val key

/-- The new session of `GetOrCreate` and `getOrInit`. -/
def newSession (key createdBy : String) : SessionData :=
  { key := key
    title := defaultSessionTitle
    createdBy := createdBy
    agentID := ""
    messages := []
    summary := ""
    model := ""
    provider := ""
    channel := ""
    inputTokens := 0
    outputTokens := 0
    compactionCount := 0
    lastPromptTokens := 0
    lastMessageCount := 0
    memoryFlushAt := 0
    extraMeta := ∅ }

/-- The row both of them insert. -/
def newSessionRow (workspaceID : WorkspaceID) (kind : String) (data : SessionData) : SessionRow :=
  { workspaceID := workspaceID
    sessionKey := data.key
    title := data.title
    kind := kind
    createdBy := nilStr data.createdBy
    history := []
    summary := none
    metadata := some (sessionMetadata data)
    compactionCount := 0 }

/-- The SET clause of `Save`. -/
def savedRow (snapshot : SessionData) (row : SessionRow) : SessionRow :=
  { row with
    title := snapshot.title
    history := snapshot.messages
    summary := nilStr snapshot.summary
    metadata := some (sessionMetadata snapshot)
    compactionCount := snapshot.compactionCount
    createdBy := row.createdBy.or (nilStr snapshot.createdBy) }

theorem savedRow_key (snapshot : SessionData) (row : SessionRow) :
    (savedRow snapshot row).key = row.key := rfl

namespace MySQLSessionStore

/-- The cache entry of a session. -/
def cached (s : MySQLSessionStore) (workspaceID : WorkspaceID) (key : String) :
    Option SessionData :=
  s.cache.lookup (ck workspaceID key)

def put (s : MySQLSessionStore) (workspaceID : WorkspaceID) (key : String)
    (data : SessionData) : MySQLSessionStore :=
  { s with cache := s.cache.insert (ck workspaceID key) data }

/-- `loadFromDB`: an error gives nil, as a missing row does. -/
def loadFromDB (s : MySQLSessionStore) (workspaceID : WorkspaceID) (key : String)
    (query : Fault) : Option SessionData :=
  match query with
  | some _ => none
  | none => (s.db.find (workspaceID, key)).map SessionRow.load

/-- `INSERT … ON DUPLICATE KEY UPDATE session_key = session_key`; the
result of the statement is not looked at. -/
def insertRow (s : MySQLSessionStore) (row : SessionRow) (exec : Fault) : MySQLSessionStore :=
  match exec with
  | some _ => s
  | none => { s with db := s.db.upsert row id (fun _ => rfl) }

/-- Cache a new session and insert its row. -/
def initSession (s : MySQLSessionStore) (workspaceID : WorkspaceID) (kind : String)
    (data : SessionData) (exec : Fault) : MySQLSessionStore :=
  (s.put workspaceID data.key data).insertRow (newSessionRow workspaceID kind data) exec

/-- The backfill of `GetOrCreate`. -/
def backfill (createdBy : String) (data : SessionData) : SessionData :=
  { data with
    createdBy := if data.createdBy = "" ∧ createdBy ≠ "" then createdBy else data.createdBy
    title := if data.title = "" then defaultSessionTitle else data.title }

/-- `GetOrCreate`. -/
def getOrCreate (s : MySQLSessionStore) (workspaceID : WorkspaceID)
    (key createdBy kind : String) (query exec : Fault) : MySQLSessionStore × SessionData :=
  let kind := if kind = "" then "user" else kind
  match s.cached workspaceID key with
  | some data => (s.put workspaceID key (backfill createdBy data), backfill createdBy data)
  | none =>
    match s.loadFromDB workspaceID key query with
    | some data => (s.put workspaceID key (backfill createdBy data), backfill createdBy data)
    | none =>
      let data := newSession key createdBy
      (s.initSession workspaceID kind data exec, data)

/-- `Get`. -/
def get (s : MySQLSessionStore) (workspaceID : WorkspaceID) (key : String) (query : Fault) :
    MySQLSessionStore × Option SessionData :=
  match s.cached workspaceID key with
  | some data => (s, some data)
  | none =>
    match s.loadFromDB workspaceID key query with
    | some data => (s.put workspaceID key data, some data)
    | none => (s, none)

/-- `getOrInit`. -/
def getOrInit (s : MySQLSessionStore) (workspaceID : WorkspaceID) (key : String)
    (query exec : Fault) : MySQLSessionStore × SessionData :=
  match s.cached workspaceID key with
  | some data => (s, data)
  | none =>
    match s.loadFromDB workspaceID key query with
    | some data => (s.put workspaceID key data, data)
    | none =>
      let data := newSession key ""
      (s.initSession workspaceID "user" data exec, data)

/-- `getOrInit`, and the change its caller makes to the session. -/
def withInit (s : MySQLSessionStore) (workspaceID : WorkspaceID) (key : String)
    (query exec : Fault) (f : SessionData → SessionData) : MySQLSessionStore :=
  let (s, data) := s.getOrInit workspaceID key query exec
  s.put workspaceID key (f data)

/-- The change an operation makes to a session that is cached. -/
def ifCached (s : MySQLSessionStore) (workspaceID : WorkspaceID) (key : String)
    (f : SessionData → SessionData) : MySQLSessionStore :=
  match s.cached workspaceID key with
  | some data => s.put workspaceID key (f data)
  | none => s

/-- `AddMessage`. -/
def addMessage (s : MySQLSessionStore) (workspaceID : WorkspaceID) (key : String)
    (msg : Message) (query exec : Fault) : MySQLSessionStore :=
  s.withInit workspaceID key query exec
    (fun data => { data with messages := data.messages ++ [msg] })

/-- `SetMessages`. -/
def setMessages (s : MySQLSessionStore) (workspaceID : WorkspaceID) (key : String)
    (msgs : List Message) (query exec : Fault) : MySQLSessionStore :=
  s.withInit workspaceID key query exec (fun data => { data with messages := msgs })

/-- `SetTitle`. -/
def setTitle (s : MySQLSessionStore) (workspaceID : WorkspaceID) (key title : String)
    (query exec : Fault) : MySQLSessionStore :=
  s.withInit workspaceID key query exec (fun data => { data with title := title })

/-- `GetHistory`: a copy of the messages; nil is the empty list. -/
def getHistory (s : MySQLSessionStore) (workspaceID : WorkspaceID) (key : String)
    (query : Fault) : MySQLSessionStore × List Message :=
  let (s, data) := s.get workspaceID key query
  (s, (data.map SessionData.messages).getD [])

/-- `GetSummary`. -/
def getSummary (s : MySQLSessionStore) (workspaceID : WorkspaceID) (key : String) : String :=
  ((s.cached workspaceID key).map SessionData.summary).getD ""

/-- `SetSummary`. -/
def setSummary (s : MySQLSessionStore) (workspaceID : WorkspaceID) (key summary : String) :
    MySQLSessionStore :=
  s.ifCached workspaceID key (fun data => { data with summary := summary })

/-- `UpdateMetadata`: a blank argument leaves its field. -/
def updateMetadata (s : MySQLSessionStore) (workspaceID : WorkspaceID)
    (key model provider channel : String) : MySQLSessionStore :=
  s.ifCached workspaceID key (fun data =>
    { data with
      model := if model ≠ "" then model else data.model
      provider := if provider ≠ "" then provider else data.provider
      channel := if channel ≠ "" then channel else data.channel })

/-- `AccumulateTokens`. -/
def accumulateTokens (s : MySQLSessionStore) (workspaceID : WorkspaceID) (key : String)
    (input output : Int) : MySQLSessionStore :=
  s.ifCached workspaceID key (fun data =>
    { data with
      inputTokens := data.inputTokens + input
      outputTokens := data.outputTokens + output })

/-- `IncrementCompaction`. -/
def incrementCompaction (s : MySQLSessionStore) (workspaceID : WorkspaceID) (key : String) :
    MySQLSessionStore :=
  s.ifCached workspaceID key (fun data =>
    { data with compactionCount := data.compactionCount + 1 })

end MySQLSessionStore

/-- The messages `TruncateHistory` leaves. -/
def keepLastMessages (keepLast : Int) (msgs : List Message) : List Message :=
  if keepLast ≤ 0 then []
  else if (msgs.length : Int) > keepLast then msgs.drop (msgs.length - keepLast.toNat)
  else msgs

namespace MySQLSessionStore

/-- `TruncateHistory`. -/
def truncateHistory (s : MySQLSessionStore) (workspaceID : WorkspaceID) (key : String)
    (keepLast : Int) : MySQLSessionStore :=
  s.ifCached workspaceID key (fun data =>
    { data with messages := keepLastMessages keepLast data.messages })

/-- `Reset`. -/
def reset (s : MySQLSessionStore) (workspaceID : WorkspaceID) (key : String) :
    MySQLSessionStore :=
  s.ifCached workspaceID key (fun data => { data with messages := [], summary := "" })

/-- `Delete`: first the entry, then the row. -/
def delete (s : MySQLSessionStore) (workspaceID : WorkspaceID) (key : String) (exec : Fault) :
    MySQLSessionStore × Fault :=
  let s := { s with cache := s.cache.erase (ck workspaceID key) }
  match exec with
  | some err => (s, some err)
  | none => ({ s with db := s.db.delete (fun row => row.key == (workspaceID, key)) }, none)

/-- `Save`: nothing for a session that is not cached. -/
def save (s : MySQLSessionStore) (workspaceID : WorkspaceID) (key : String) (exec : Fault) :
    MySQLSessionStore × Fault :=
  match s.cached workspaceID key with
  | none => (s, none)
  | some snapshot =>
    match exec with
    | some err => (s, some err)
    | none =>
      ({ s with db := s.db.update (workspaceID, key) (savedRow snapshot) (savedRow_key snapshot) },
        none)

/-- `GetCompactionCount`. -/
def getCompactionCount (s : MySQLSessionStore) (workspaceID : WorkspaceID) (key : String) : Int :=
  ((s.cached workspaceID key).map SessionData.compactionCount).getD 0

/-- `GetMemoryFlushAt`. -/
def getMemoryFlushAt (s : MySQLSessionStore) (workspaceID : WorkspaceID) (key : String) : Int :=
  ((s.cached workspaceID key).map SessionData.memoryFlushAt).getD 0

/-- `GetLastPromptTokens`. -/
def getLastPromptTokens (s : MySQLSessionStore) (workspaceID : WorkspaceID) (key : String) :
    Int × Int :=
  ((s.cached workspaceID key).map fun data =>
    (data.lastPromptTokens, data.lastMessageCount)).getD (0, 0)

/-- `SetLastPromptTokens`. -/
def setLastPromptTokens (s : MySQLSessionStore) (workspaceID : WorkspaceID) (key : String)
    (tokens msgCount : Int) : MySQLSessionStore :=
  s.ifCached workspaceID key (fun data =>
    { data with lastPromptTokens := tokens, lastMessageCount := msgCount })

/-- `SetMemoryFlushAt`. -/
def setMemoryFlushAt (s : MySQLSessionStore) (workspaceID : WorkspaceID) (key : String)
    (compactionCount : Int) : MySQLSessionStore :=
  s.ifCached workspaceID key (fun data => { data with memoryFlushAt := compactionCount })

/-- `SetSessionMetaValue`: the key "title" is the title itself. -/
def setSessionMetaValue (s : MySQLSessionStore) (workspaceID : WorkspaceID)
    (key metaKey value : String) : MySQLSessionStore :=
  s.ifCached workspaceID key (fun data =>
    if metaKey = "title" then { data with title := value }
    else { data with extraMeta := data.extraMeta.insert metaKey value })

/-- `GetSessionMetaValue`. -/
def getSessionMetaValue (s : MySQLSessionStore) (workspaceID : WorkspaceID)
    (key metaKey : String) : String :=
  match s.cached workspaceID key with
  | none => ""
  | some data =>
    if metaKey = "title" then data.title else (data.extraMeta.lookup metaKey).getD ""

/-! ## Operations -/

/-- One call of the store. The faults are those of the `loadFromDB` query
and of the INSERT, DELETE or UPDATE. -/
inductive Op where
  | getOrCreate (workspaceID : WorkspaceID) (key createdBy kind : String) (query exec : Fault)
  | get (workspaceID : WorkspaceID) (key : String) (query : Fault)
  | getHistory (workspaceID : WorkspaceID) (key : String) (query : Fault)
  | addMessage (workspaceID : WorkspaceID) (key : String) (msg : Message) (query exec : Fault)
  | setMessages (workspaceID : WorkspaceID) (key : String) (msgs : List Message)
      (query exec : Fault)
  | setTitle (workspaceID : WorkspaceID) (key title : String) (query exec : Fault)
  | setSummary (workspaceID : WorkspaceID) (key summary : String)
  | updateMetadata (workspaceID : WorkspaceID) (key model provider channel : String)
  | accumulateTokens (workspaceID : WorkspaceID) (key : String) (input output : Int)
  | incrementCompaction (workspaceID : WorkspaceID) (key : String)
  | truncateHistory (workspaceID : WorkspaceID) (key : String) (keepLast : Int)
  | reset (workspaceID : WorkspaceID) (key : String)
  | delete (workspaceID : WorkspaceID) (key : String) (exec : Fault)
  | save (workspaceID : WorkspaceID) (key : String) (exec : Fault)
  | setLastPromptTokens (workspaceID : WorkspaceID) (key : String) (tokens msgCount : Int)
  | setMemoryFlushAt (workspaceID : WorkspaceID) (key : String) (compactionCount : Int)
  | setSessionMetaValue (workspaceID : WorkspaceID) (key metaKey value : String)

def step (s : MySQLSessionStore) : Op → MySQLSessionStore
  | .getOrCreate w key createdBy kind query exec =>
    (s.getOrCreate w key createdBy kind query exec).1
  | .get w key query => (s.get w key query).1
  | .getHistory w key query => (s.getHistory w key query).1
  | .addMessage w key msg query exec => s.addMessage w key msg query exec
  | .setMessages w key msgs query exec => s.setMessages w key msgs query exec
  | .setTitle w key title query exec => s.setTitle w key title query exec
  | .setSummary w key summary => s.setSummary w key summary
  | .updateMetadata w key model provider channel => s.updateMetadata w key model provider channel
  | .accumulateTokens w key input output => s.accumulateTokens w key input output
  | .incrementCompaction w key => s.incrementCompaction w key
  | .truncateHistory w key keepLast => s.truncateHistory w key keepLast
  | .reset w key => s.reset w key
  | .delete w key exec => (s.delete w key exec).1
  | .save w key exec => (s.save w key exec).1
  | .setLastPromptTokens w key tokens msgCount => s.setLastPromptTokens w key tokens msgCount
  | .setMemoryFlushAt w key compactionCount => s.setMemoryFlushAt w key compactionCount
  | .setSessionMetaValue w key metaKey value => s.setSessionMetaValue w key metaKey value

end MySQLSessionStore

end LendingClaw.Store
