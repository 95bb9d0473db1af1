/-
LendingClaw.Store.RoundTrip — `Save` and a cold `loadFromDB`
(`internal/store/mysql/sessions.go`).

The columns of a saved row are read back one by one: the history through
the message codec, the counters through a decoded JSON number, the free
keys through the metadata object, into which and out of which the names
of the fixed fields are skipped. Every session in the cache has a row to
be saved to, as long as every INSERT is served.
-/
import LendingClaw.Lib.Merge
import LendingClaw.Lib.Runs
import LendingClaw.Providers.MessageJson
import LendingClaw.Store.SessionsTheorems

namespace LendingClaw.Store

open LendingClaw.Providers

/-! ## The metadata object -/

/-- The fields that `sessionMetadata` writes first. -/
def fixedMetadata (data : SessionData) : Metadata :=
  (((((((∅ : Metadata).insert "model" (.str data.model)).insert "provider"
    (.str data.provider)).insert "channel" (.str data.channel)).insert "title"
    (.str data.title)).insert "input_tokens" (.num data.inputTokens)).insert "output_tokens"
    (.num data.outputTokens)).insert "agent_id" (.str data.agentID)

/-- What either side keeps of an entry. -/
def unreserved {β γ : Type} (f : β → Option γ) (k : String) (v : β) : Option γ :=
  if k ∈ reservedMeta then none else f v

def MetaValue.string : MetaValue → Option String
  | .str s => some s
  | _ => none

theorem sessionMetadata_eq (data : SessionData) :
    sessionMetadata data
      = Lib.mergeInto (unreserved fun v => some (MetaValue.str v)) data.extraMeta
          (fixedMetadata data) := by
  unfold sessionMetadata Lib.mergeInto
  show List.foldl _ (fixedMetadata data) _ = _
  congr 1
  funext m p
  by_cases h : p.1 ∈ reservedMeta
  · simp [unreserved, h]
  · simp [unreserved, h]

theorem metaExtra_eq (m : Metadata) :
    metaExtra m = Lib.mergeInto (unreserved MetaValue.string) m ∅ := by
  unfold metaExtra Lib.mergeInto
  congr 1
  funext extra p
  by_cases h : p.1 ∈ reservedMeta
  · simp [unreserved, h]
  · cases hv : p.2 with
    | _ => simp [unreserved, h, MetaValue.string]

/-- The name of a fixed field reads the field, whatever the free keys are. -/
theorem lookup_sessionMetadata_reserved (data : SessionData) {k : String}
    (h : k ∈ reservedMeta) :
    (sessionMetadata data).lookup k = (fixedMetadata data).lookup k := by
  rw [sessionMetadata_eq, Lib.lookup_mergeInto]
  cases data.extraMeta.lookup k with
  | none => rfl
  | some v => simp [unreserved, h]

theorem lookup_fixedMetadata_free (data : SessionData) {k : String} (h : k ∉ reservedMeta) :
    (fixedMetadata data).lookup k = none := by
  simp only [reservedMeta, List.mem_cons, List.not_mem_nil, or_false, not_or] at h
  obtain ⟨h1, h2, h3, h4, h5, h6, h7⟩ := h
  rw [fixedMetadata, AList.lookup_insert_ne h7, AList.lookup_insert_ne h6,
    AList.lookup_insert_ne h5, AList.lookup_insert_ne h4, AList.lookup_insert_ne h3,
    AList.lookup_insert_ne h2, AList.lookup_insert_ne h1]
  rfl

/-- The free keys come back; a free key under a reserved name does not. -/
theorem lookup_metaExtra_sessionMetadata (data : SessionData) (k : String) :
    (metaExtra (sessionMetadata data)).lookup k
      = if k ∈ reservedMeta then none else data.extraMeta.lookup k := by
  rw [metaExtra_eq, Lib.lookup_mergeInto]
  by_cases h : k ∈ reservedMeta
  · rw [if_pos h]
    cases (sessionMetadata data).lookup k with
    | none => rfl
    | some v => simp [unreserved, h]
  · rw [if_neg h, sessionMetadata_eq, Lib.lookup_mergeInto, lookup_fixedMetadata_free data h]
    cases data.extraMeta.lookup k with
    | none => rfl
    | some v => simp [unreserved, h, MetaValue.string]

/-- An integer of at most 2^53 is a float64. -/
theorem viaFloat64_exact {n : Int} (h : n.natAbs ≤ 1 <<< 53) : viaFloat64 n = n := by
  show (if n.natAbs ≤ 1 <<< 53 then n else _) = n
  exact if_pos h

/-! ## A saved row -/

/-- The row as it is read again, the history through its JSON column. -/
def SessionRow.reread (row : SessionRow) : SessionRow :=
  { row with history := unmarshalHistory (marshalHistory row.history) }

@[simp] theorem SessionRow.reread_eq (row : SessionRow) : row.reread = row := by
  rw [SessionRow.reread, unmarshalHistory_marshalHistory]

/-- What is saved of a session is the same in both. -/
structure SameSession (data data' : SessionData) : Prop where
  title : data'.title = data.title
  messages : data'.messages = data.messages
  summary : data'.summary = data.summary
  model : data'.model = data.model
  provider : data'.provider = data.provider
  channel : data'.channel = data.channel
  agentID : data'.agentID = data.agentID
  inputTokens : data'.inputTokens = data.inputTokens
  outputTokens : data'.outputTokens = data.outputTokens
  compactionCount : data'.compactionCount = data.compactionCount

/-- A session the columns can hold: a title, and counters that a JSON
number keeps. -/
structure Storable (data : SessionData) : Prop where
  title : data.title ≠ ""
  inputTokens : data.inputTokens.natAbs ≤ 1 <<< 53
  outputTokens : data.outputTokens.natAbs ≤ 1 <<< 53

@[simp] theorem derefStr_nilStr (s : String) : derefStr (nilStr s) = s := by
  unfold derefStr nilStr
  split
  · rename_i h
    exact h.symm
  · rfl

theorem metaString_sessionMetadata (data : SessionData) {k v : String}
    (hk : k ∈ reservedMeta) (hv : (fixedMetadata data).lookup k = some (.str v)) :
    metaString (sessionMetadata data) k = some v := by
  rw [metaString, lookup_sessionMetadata_reserved data hk, hv]

theorem metaInt_sessionMetadata (data : SessionData) {k : String} {n : Int}
    (hk : k ∈ reservedMeta) (hv : (fixedMetadata data).lookup k = some (.num n))
    (hn : n.natAbs ≤ 1 <<< 53) : metaInt (sessionMetadata data) k = some n := by
  simp only [metaInt, lookup_sessionMetadata_reserved data hk, hv, viaFloat64_exact hn]

theorem sameSession_load_savedRow {data : SessionData} (h : Storable data) (row : SessionRow) :
    SameSession data (savedRow data row).load := by
  have hload : (savedRow data row).load = withMetadata
      { (savedRow data row).load with
        title := if data.title = "" then defaultSessionTitle else data.title
        model := "", provider := "", channel := "", agentID := "", inputTokens := 0
        outputTokens := 0, extraMeta := ∅ }
      (sessionMetadata data) := rfl
  have hmodel : metaString (sessionMetadata data) "model" = some data.model :=
    metaString_sessionMetadata data (by decide) rfl
  have hprovider : metaString (sessionMetadata data) "provider" = some data.provider :=
    metaString_sessionMetadata data (by decide) rfl
  have hchannel : metaString (sessionMetadata data) "channel" = some data.channel :=
    metaString_sessionMetadata data (by decide) rfl
  have hagent : metaString (sessionMetadata data) "agent_id" = some data.agentID :=
    metaString_sessionMetadata data (by decide) rfl
  have htitle : metaString (sessionMetadata data) "title" = some data.title :=
    metaString_sessionMetadata data (by decide) rfl
  have hin : metaInt (sessionMetadata data) "input_tokens" = some data.inputTokens :=
    metaInt_sessionMetadata data (by decide) rfl h.inputTokens
  have hout : metaInt (sessionMetadata data) "output_tokens" = some data.outputTokens :=
    metaInt_sessionMetadata data (by decide) rfl h.outputTokens
  rw [hload]
  exact
    { title := by simp [withMetadata, htitle, h.title]
      messages := rfl
      summary := derefStr_nilStr data.summary
      model := by simp [withMetadata, hmodel]
      provider := by simp [withMetadata, hprovider]
      channel := by simp [withMetadata, hchannel]
      agentID := by simp [withMetadata, hagent]
      inputTokens := by simp [withMetadata, hin]
      outputTokens := by simp [withMetadata, hout]
      compactionCount := rfl }

theorem extraMeta_load_savedRow (data : SessionData) (row : SessionRow) (k : String) :
    (savedRow data row).load.extraMeta.lookup k
      = if k ∈ reservedMeta then none else data.extraMeta.lookup k :=
  lookup_metaExtra_sessionMetadata data k

/-- A loaded session has no free key under a reserved name. -/
theorem extraMeta_load_reserved (row : SessionRow) {k : String} (hk : k ∈ reservedMeta) :
    row.load.extraMeta.lookup k = none := by
  unfold SessionRow.load
  cases row.metadata with
  | none => rfl
  | some m =>
    show (metaExtra m).lookup k = none
    rw [metaExtra_eq, Lib.lookup_mergeInto]
    cases m.lookup k with
    | none => rfl
    | some v => simp [unreserved, hk]

namespace MySQLSessionStore

/-! ## Every cached session has a row -/

def RowsExist (s : MySQLSessionStore) : Prop :=
  ∀ w key, (s.cached w key).isSome → (s.db.find (w, key)).isSome

theorem rowsExist_new (db : SessionTable) : RowsExist (newMySQLSessionStore db) := by
  intro w key h
  cases h

section
variable {s : MySQLSessionStore} {w : WorkspaceID} {key : String}

theorem RowsExist.put (h : RowsExist s) (hrow : (s.db.find (w, key)).isSome)
    (data : SessionData) : RowsExist (s.put w key data) := by
  intro w' key' hc
  by_cases hk : (w', key') = (w, key)
  · cases hk
    exact hrow
  · rw [cached_put_other s w' w key' key data hk] at hc
    exact h w' key' hc

theorem RowsExist.ifCached (h : RowsExist s) (f : SessionData → SessionData) :
    RowsExist (s.ifCached w key f) := by
  unfold MySQLSessionStore.ifCached
  cases hc : s.cached w key with
  | none => exact h
  | some data => exact h.put (h w key (by rw [hc]; rfl)) (f data)

theorem find_of_loadFromDB {query : Fault} {data : SessionData}
    (h : s.loadFromDB w key query = some data) : (s.db.find (w, key)).isSome := by
  cases query with
  | some err => cases h
  | none =>
    obtain ⟨row, hrow, -⟩ := Option.map_eq_some_iff.mp h
    rw [hrow]
    rfl

/-- The new session and its row. -/
theorem RowsExist.initSession (h : RowsExist s) (kind createdBy : String) :
    RowsExist (s.initSession w kind (newSession key createdBy) none) := by
  intro w' key' hc
  simp only [MySQLSessionStore.initSession, insertRow, db_put, Lib.Table.find_upsert]
  split
  · rfl
  · rename_i hk
    have hne : (w', key') ≠ (w, key) := hk
    rw [MySQLSessionStore.initSession, cached_insertRow] at hc
    exact h w' key' (by rwa [← cached_put_other s w' w key' key (newSession key createdBy) hne])

theorem find_initSession (s : MySQLSessionStore) (w : WorkspaceID) (key kind createdBy : String) :
    ((s.initSession w kind (newSession key createdBy) none).db.find (w, key)).isSome := by
  simp only [initSession, insertRow, db_put, Lib.Table.find_upsert]
  split
  · rfl
  · rename_i hk
    exact absurd rfl hk

theorem RowsExist.getOrCreate (h : RowsExist s) (createdBy kind : String) (query : Fault) :
    RowsExist (s.getOrCreate w key createdBy kind query none).1 := by
  unfold MySQLSessionStore.getOrCreate
  cases hc : s.cached w key with
  | some data => exact h.put (h w key (by rw [hc]; rfl)) _
  | none =>
    cases hl : s.loadFromDB w key query with
    | some data => exact h.put (find_of_loadFromDB hl) _
    | none => exact h.initSession _ createdBy

theorem RowsExist.get (h : RowsExist s) (query : Fault) : RowsExist (s.get w key query).1 := by
  unfold MySQLSessionStore.get
  cases s.cached w key with
  | some data => exact h
  | none =>
    cases hl : s.loadFromDB w key query with
    | some data => exact h.put (find_of_loadFromDB hl) data
    | none => exact h

theorem RowsExist.withInit (h : RowsExist s) (query : Fault) (f : SessionData → SessionData) :
    RowsExist (s.withInit w key query none f) := by
  show RowsExist ((s.getOrInit w key query none).1.put w key
    (f (s.getOrInit w key query none).2))
  unfold getOrInit
  cases hc : s.cached w key with
  | some data => exact h.put (h w key (by rw [hc]; rfl)) _
  | none =>
    cases hl : s.loadFromDB w key query with
    | some data =>
      exact (h.put (find_of_loadFromDB hl) data).put (find_of_loadFromDB hl) _
    | none => exact (h.initSession "user" "").put (find_initSession s w key "user" "") _

theorem RowsExist.delete (h : RowsExist s) (exec : Fault) : RowsExist (s.delete w key exec).1 := by
  intro w' key' hc
  have hne : (w', key') ≠ (w, key) := by
    rintro ⟨⟩
    cases exec with
    | _ => simp [MySQLSessionStore.delete, cached] at hc
  have hsame : (s.delete w key exec).1.cached w' key' = s.cached w' key' := by
    cases exec with
    | _ => exact AList.lookup_erase_ne (ck_ne hne)
  rw [hsame] at hc
  have hrow := h w' key' hc
  cases exec with
  | some err => exact hrow
  | none =>
    obtain ⟨row, hfind⟩ := Option.isSome_iff_exists.mp hrow
    have hkey : row.key = (w', key') := Lib.Table.find_key hfind
    simp only [MySQLSessionStore.delete, Lib.Table.find_delete, hfind]
    simp [Option.filter, hkey, hne]

theorem RowsExist.save (h : RowsExist s) (exec : Fault) : RowsExist (s.save w key exec).1 := by
  unfold MySQLSessionStore.save
  cases s.cached w key with
  | none => exact h
  | some snapshot =>
    cases exec with
    | some err => exact h
    | none =>
      intro w' key' hc
      have hrow := h w' key' hc
      simp only [Lib.Table.find_update]
      split
      · rename_i hk
        cases hk
        simpa using hrow
      · exact hrow

/-- The INSERT of a new session's row is served. -/
def Op.InsertServed : Op → Prop
  | .getOrCreate _ _ _ _ _ exec => exec = none
  | .addMessage _ _ _ _ exec => exec = none
  | .setMessages _ _ _ _ exec => exec = none
  | .setTitle _ _ _ _ exec => exec = none
  | _ => True

theorem RowsExist.step (h : RowsExist s) (op : Op) (hop : op.InsertServed) :
    RowsExist (s.step op) := by
  cases op with
  | getOrCreate w key createdBy kind query exec =>
    cases hop
    exact h.getOrCreate createdBy kind query
  | get w key query => exact h.get query
  | getHistory w key query => exact h.get query
  | addMessage w key msg query exec =>
    cases hop
    exact h.withInit query _
  | setMessages w key msgs query exec =>
    cases hop
    exact h.withInit query _
  | setTitle w key title query exec =>
    cases hop
    exact h.withInit query _
  | delete w key exec => exact h.delete exec
  | save w key exec => exact h.save exec
  | _ => exact h.ifCached _

/-! ## Save and load -/

/-- The session after a `Save`, in the cache of a new process. -/
def coldStart (s : MySQLSessionStore) (w : WorkspaceID) (key : String) : MySQLSessionStore :=
  let db := (s.save w key none).1.db
  match (db.find (w, key)).map fun row => row.reread.load with
  | some data => (newMySQLSessionStore db).put w key data
  | none => newMySQLSessionStore db

/-- The history codec of the column is what the store takes it for. -/
theorem coldStart_eq_get (s : MySQLSessionStore) (w : WorkspaceID) (key : String) :
    s.coldStart w key
      = ((newMySQLSessionStore (s.save w key none).1.db).get w key none).1 := by
  have hcold : (newMySQLSessionStore (s.save w key none).1.db).cached w key = none := rfl
  simp only [coldStart, MySQLSessionStore.get, hcold, loadFromDB, SessionRow.reread_eq]
  cases hrow : (s.save w key none).1.db.find (w, key) with
  | none => simp [newMySQLSessionStore, hrow]
  | some row => simp [newMySQLSessionStore, hrow]

/-- The session is the same after a `Save` and a cold load, and so is
what `GetSessionMetaValue` returns for the keys named. -/
def RoundTrips (s : MySQLSessionStore) (w : WorkspaceID) (key : String)
    (metaKeys : String → Prop) : Prop :=
  ∀ data, s.cached w key = some data →
    (∃ data', (s.coldStart w key).cached w key = some data' ∧ SameSession data data')
      ∧ ∀ k, metaKeys k →
        (s.coldStart w key).getSessionMetaValue w key k = s.getSessionMetaValue w key k

/-- The names of the fixed fields that are not the title. -/
def fieldNames : List String :=
  ["model", "provider", "channel", "input_tokens", "output_tokens", "agent_id"]

theorem mem_reservedMeta {k : String} : k ∈ reservedMeta ↔ k = "title" ∨ k ∈ fieldNames := by
  simp only [reservedMeta, fieldNames, List.mem_cons, List.not_mem_nil, or_false]
  tauto

theorem cached_coldStart (h : RowsExist s) {data : SessionData}
    (hc : s.cached w key = some data) :
    ∃ row, (s.coldStart w key).cached w key = some (savedRow data row).load := by
  obtain ⟨row, hrow⟩ := Option.isSome_iff_exists.mp (h w key (by rw [hc]; rfl))
  refine ⟨row, ?_⟩
  simp [coldStart, MySQLSessionStore.save, hc, Lib.Table.find_update, hrow]

theorem getSessionMetaValue_coldStart (h : RowsExist s) {data : SessionData}
    (hc : s.cached w key = some data) (hdata : Storable data) {k : String}
    (hk : k ∉ fieldNames) :
    (s.coldStart w key).getSessionMetaValue w key k = s.getSessionMetaValue w key k := by
  obtain ⟨row, hcold⟩ := cached_coldStart h hc
  simp only [getSessionMetaValue, hcold, hc]
  by_cases htitle : k = "title"
  · rw [if_pos htitle, if_pos htitle]
    exact (sameSession_load_savedRow hdata row).title
  · have hfree : k ∉ reservedMeta := by
      intro hmem
      exact (mem_reservedMeta.mp hmem).elim htitle hk
    rw [if_neg htitle, if_neg htitle, extraMeta_load_savedRow, if_neg hfree]

/-- A cold session has no free key under the name of a fixed field. -/
theorem getSessionMetaValue_coldStart_field (s : MySQLSessionStore) (w : WorkspaceID)
    (key : String) {k : String} (hk : k ∈ fieldNames) :
    (s.coldStart w key).getSessionMetaValue w key k = "" := by
  have htitle : k ≠ "title" := by
    rintro rfl
    revert hk
    decide
  have hres : k ∈ reservedMeta := mem_reservedMeta.mpr (Or.inr hk)
  unfold coldStart
  cases hrow : (s.save w key none).1.db.find (w, key) with
  | none => simp [hrow, newMySQLSessionStore, getSessionMetaValue, cached]
  | some row => simp [hrow, getSessionMetaValue, htitle, extraMeta_load_reserved row hres]

/-- A session with its row goes through a `Save` and a cold load, but for
the free keys under the names of fixed fields. -/
theorem RowsExist.roundTrips (h : RowsExist s)
    (hdata : ∀ data, s.cached w key = some data → Storable data) :
    RoundTrips s w key (fun k => k ∉ fieldNames) := by
  intro data hc
  obtain ⟨row, hcold⟩ := cached_coldStart h hc
  refine ⟨⟨_, hcold, sameSession_load_savedRow (hdata data hc) row⟩, ?_⟩
  intro k hk
  rw [getSessionMetaValue_coldStart h hc (hdata data hc) hk]

end

end MySQLSessionStore

end LendingClaw.Store
