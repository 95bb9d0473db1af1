/-
LendingClaw.Store.SessionsTheorems — a stored conversation and failed
reads.

`history` is what the store holds of one session: the cached messages,
or the row's. `intended` is what an operation is meant to make of it.
The two agree at every operation (`step_history`) but one kind: an
operation that caches the session when the read of its row fails. There
the empty session takes the row's place, and the next `Save` writes it.
`ReadServed` excludes exactly that.
-/
import LendingClaw.Store.Sessions
import LendingClaw.Lib.Runs

namespace LendingClaw.Store

open LendingClaw.Providers

namespace MySQLSessionStore

/-! ## Cache and table -/

theorem ck_inj {w w' : WorkspaceID} {key key' : String} (h : ck w key = ck w' key') :
    w = w' ∧ key = key' :=
  WorkspaceID.nulKey_inj h

theorem ck_ne {w w' : WorkspaceID} {key key' : String} (h : (w, key) ≠ (w', key')) :
    ck w key ≠ ck w' key' := by
  intro hc
  obtain ⟨rfl, rfl⟩ := ck_inj hc
  exact h rfl

section
variable (s : MySQLSessionStore) (w w' : WorkspaceID) (key key' : String) (data : SessionData)

@[simp] theorem cached_put_self : (s.put w key data).cached w key = some data := by
  simp [put, cached]

theorem cached_put_other (h : (w, key) ≠ (w', key')) :
    (s.put w' key' data).cached w key = s.cached w key := by
  simp [put, cached, AList.lookup_insert_ne (ck_ne h)]

@[simp] theorem db_put : (s.put w key data).db = s.db := rfl

@[simp] theorem cached_insertRow (row : SessionRow) (exec : Fault) :
    (s.insertRow row exec).cached w key = s.cached w key := by
  cases exec <;> rfl

/-- The history column of a session; a missing row counts as empty. -/
def storedHistory : List Message := ((s.db.find (w, key)).map SessionRow.history).getD []

/-- What the store holds of a session. -/
def history : List Message :=
  match s.cached w key with
  | some data => data.messages
  | none => s.storedHistory w key

/-- The insertion of an empty row changes no stored history. -/
@[simp] theorem storedHistory_insertRow (kind : String) (exec : Fault) :
    (s.insertRow (newSessionRow w' kind data) exec).storedHistory w key
      = s.storedHistory w key := by
  cases exec with
  | some err => rfl
  | none =>
    simp only [storedHistory, insertRow, Lib.Table.find_upsert]
    split
    · rename_i hk
      cases s.db.find (w, key) <;> simp [newSessionRow]
    · rfl

theorem find_insertRow_isSome (row : SessionRow) (exec : Fault)
    (h : (s.db.find (w, key)).isSome) : ((s.insertRow row exec).db.find (w, key)).isSome := by
  cases exec with
  | some err => exact h
  | none =>
    simp only [insertRow, Lib.Table.find_upsert]
    split
    · rfl
    · exact h

theorem messages_load (row : SessionRow) : row.load.messages = row.history := by
  unfold SessionRow.load
  cases row.metadata <;> rfl

/-- The frame of one session: its entry and its stored history. -/
theorem history_congr {s s' : MySQLSessionStore} (hc : s'.cached w key = s.cached w key)
    (hs : s'.storedHistory w key = s.storedHistory w key) :
    s'.history w key = s.history w key := by
  simp only [history, hc, hs]

/-! ## Opening a session -/

/-- The messages of the session that `GetOrCreate` and `getOrInit` put
into the cache. -/
def opened (query : Fault) : List Message :=
  match s.cached w key with
  | some data => data.messages
  | none => ((s.loadFromDB w key query).map SessionData.messages).getD []

/-- Opening shows the session as it is, if the read is served where one
is needed and there is something to read. -/
theorem opened_served {query : Fault}
    (h : s.cached w key = none → query ≠ none → s.storedHistory w key = []) :
    s.opened w key query = s.history w key := by
  unfold opened history
  cases hc : s.cached w key with
  | some data => rfl
  | none =>
    cases query with
    | some err => simp [loadFromDB, h hc (by simp)]
    | none =>
      simp only [loadFromDB, storedHistory]
      cases s.db.find (w, key) <;> simp [messages_load]

theorem opened_failed {query : Fault} (hc : s.cached w key = none) (hq : query ≠ none) :
    s.opened w key query = [] := by
  cases query with
  | none => exact absurd rfl hq
  | some err => simp [opened, hc, loadFromDB]

theorem getOrInit_messages (query exec : Fault) :
    (s.getOrInit w key query exec).2.messages = s.opened w key query := by
  unfold getOrInit opened
  cases s.cached w key with
  | some data => rfl
  | none => cases s.loadFromDB w key query <;> rfl

theorem withInit_history (query exec : Fault) (f : SessionData → SessionData) :
    (s.withInit w key query exec f).history w key
      = (f (s.getOrInit w key query exec).2).messages := by
  simp [withInit, history]

theorem getOrCreate_history (createdBy kind : String) (query exec : Fault) :
    (s.getOrCreate w key createdBy kind query exec).1.history w key
      = s.opened w key query := by
  unfold getOrCreate opened history
  cases s.cached w key with
  | some data => simp [backfill]
  | none =>
    cases s.loadFromDB w key query with
    | some data => simp [backfill]
    | none =>
      have hkey : (newSession key createdBy).key = key := rfl
      simp only [initSession, cached_insertRow, hkey, cached_put_self]
      rfl

end

section
variable {s : MySQLSessionStore} {w w' : WorkspaceID} {key key' : String}

/-! ## The other sessions -/

theorem history_put_other (h : (w, key) ≠ (w', key')) (data : SessionData) :
    (s.put w' key' data).history w key = s.history w key :=
  history_congr w key (cached_put_other s w w' key key' data h) rfl

theorem history_initSession_other (h : (w, key) ≠ (w', key')) (kind createdBy : String)
    (exec : Fault) :
    (s.initSession w' kind (newSession key' createdBy) exec).history w key
      = s.history w key := by
  refine history_congr w key ?_ ?_
  · rw [initSession, cached_insertRow]
    exact cached_put_other s w w' key key' _ h
  · rw [initSession, storedHistory_insertRow]
    rfl

theorem history_getOrInit_other (h : (w, key) ≠ (w', key')) (query exec : Fault) :
    (s.getOrInit w' key' query exec).1.history w key = s.history w key := by
  unfold getOrInit
  cases s.cached w' key' with
  | some data => rfl
  | none =>
    cases s.loadFromDB w' key' query with
    | some data => exact history_put_other h data
    | none => exact history_initSession_other h "user" "" exec

theorem history_withInit_other (h : (w, key) ≠ (w', key')) (query exec : Fault)
    (f : SessionData → SessionData) :
    (s.withInit w' key' query exec f).history w key = s.history w key := by
  simp only [withInit]
  rw [history_put_other h, history_getOrInit_other h]

theorem history_getOrCreate_other (h : (w, key) ≠ (w', key')) (createdBy kind : String)
    (query exec : Fault) :
    (s.getOrCreate w' key' createdBy kind query exec).1.history w key = s.history w key := by
  unfold getOrCreate
  cases s.cached w' key' with
  | some data => exact history_put_other h _
  | none =>
    cases s.loadFromDB w' key' query with
    | some data => exact history_put_other h _
    | none => exact history_initSession_other h _ createdBy exec

theorem history_ifCached_other (h : (w, key) ≠ (w', key')) (f : SessionData → SessionData) :
    (s.ifCached w' key' f).history w key = s.history w key := by
  unfold ifCached
  cases s.cached w' key' with
  | some data => exact history_put_other h _
  | none => rfl

theorem history_delete_other (h : (w, key) ≠ (w', key')) (exec : Fault) :
    (s.delete w' key' exec).1.history w key = s.history w key := by
  have hc : (s.cache.erase (ck w' key')).lookup (ck w key) = s.cache.lookup (ck w key) :=
    AList.lookup_erase_ne (ck_ne h)
  unfold delete
  cases exec with
  | some err => exact history_congr w key hc rfl
  | none =>
    refine history_congr w key hc ?_
    simp only [storedHistory, Lib.Table.find_delete]
    cases hf : s.db.find (w, key) with
    | none => rfl
    | some row =>
      have hk : row.key = (w, key) := Lib.Table.find_key hf
      rw [Option.filter_some, hk]
      simp [h]

theorem history_save_other (h : (w, key) ≠ (w', key')) (exec : Fault) :
    (s.save w' key' exec).1.history w key = s.history w key := by
  unfold save
  cases s.cached w' key' with
  | none => rfl
  | some snapshot =>
    cases exec with
    | some err => rfl
    | none =>
      refine history_congr w key rfl ?_
      simp [storedHistory, Lib.Table.find_update, h]

/-! ## The session itself -/

theorem history_get (query : Fault) : (s.get w key query).1.history w key = s.history w key := by
  unfold get
  cases hc : s.cached w key with
  | some data => rfl
  | none =>
    cases query with
    | some err => rfl
    | none =>
      cases hf : s.db.find (w, key) with
      | none => simp [loadFromDB, hf]
      | some row => simp [loadFromDB, hf, history, hc, storedHistory, messages_load]

theorem history_get_other (h : (w, key) ≠ (w', key')) (query : Fault) :
    (s.get w' key' query).1.history w key = s.history w key := by
  unfold get
  cases s.cached w' key' with
  | some data => rfl
  | none =>
    cases s.loadFromDB w' key' query with
    | some data => exact history_put_other h data
    | none => rfl

theorem history_ifCached (f : SessionData → SessionData) :
    (s.ifCached w key f).history w key
      = ((s.cached w key).map (fun data => (f data).messages)).getD (s.history w key) := by
  unfold ifCached
  cases hc : s.cached w key with
  | some data => simp [history]
  | none => rfl

/-- A change that leaves the messages alone. -/
theorem history_ifCached_same {f : SessionData → SessionData}
    (hf : ∀ data, (f data).messages = data.messages) :
    (s.ifCached w key f).history w key = s.history w key := by
  rw [history_ifCached]
  cases hc : s.cached w key with
  | some data => simp [hf, history, hc]
  | none => rfl

theorem history_save (exec : Fault) : (s.save w key exec).1.history w key = s.history w key := by
  unfold save
  cases hc : s.cached w key with
  | none => rfl
  | some snapshot =>
    cases exec with
    | some err => rfl
    | none =>
      have hc' : ∀ db, ({ s with db := db } : MySQLSessionStore).cached w key = some snapshot :=
        fun _ => hc
      simp only [history, hc, hc']

theorem history_delete (exec : Fault) :
    (s.delete w key exec).1.history w key
      = if exec = none then [] else s.storedHistory w key := by
  have hc : ∀ db, ({ db := db, cache := s.cache.erase (ck w key) } :
      MySQLSessionStore).cached w key = none := fun _ => AList.lookup_erase ..
  cases exec with
  | some err => simp [delete, history, hc, storedHistory]
  | none =>
    simp only [delete, history, hc, storedHistory, Lib.Table.find_delete]
    cases hf : s.db.find (w, key) with
    | none => rfl
    | some row =>
      have hk : row.key = (w, key) := Lib.Table.find_key hf
      rw [Option.filter_some, hk]
      simp

/-- What `Save` leaves in the row. -/
theorem save_find :
    ((s.save w key none).1.db.find (w, key)).map SessionRow.history
      = (s.db.find (w, key)).map (fun _ => s.history w key) := by
  unfold save history
  cases hc : s.cached w key with
  | none =>
    cases hf : s.db.find (w, key) with
    | none => simp
    | some row => simp [hf, storedHistory]
  | some snapshot =>
    simp only [Lib.Table.find_update, if_true]
    cases s.db.find (w, key) <;> simp [savedRow]

/-! ## A cached session -/

/-- The session is cached with these messages. -/
def Holds (s : MySQLSessionStore) (w : WorkspaceID) (key : String) (msgs : List Message) :
    Prop :=
  ∃ data, s.cached w key = some data ∧ data.messages = msgs

theorem holds_put (s : MySQLSessionStore) (w : WorkspaceID) (key : String)
    (data : SessionData) : (s.put w key data).Holds w key data.messages :=
  ⟨data, cached_put_self s w key data, rfl⟩

theorem Holds.history {msgs : List Message} (h : s.Holds w key msgs) :
    s.history w key = msgs := by
  obtain ⟨data, hc, hm⟩ := h
  simp only [MySQLSessionStore.history, hc, hm]

theorem Holds.ifCached {msgs : List Message} (h : s.Holds w key msgs)
    {f : SessionData → SessionData} {g : List Message → List Message}
    (hf : ∀ data, (f data).messages = g data.messages) :
    (s.ifCached w key f).Holds w key (g msgs) := by
  obtain ⟨data, hc, hm⟩ := h
  refine ⟨f data, ?_, ?_⟩
  · simp [MySQLSessionStore.ifCached, hc]
  · rw [hf, hm]

theorem Holds.addMessage {msgs : List Message} (h : s.Holds w key msgs) (msg : Message)
    (query exec : Fault) : (s.addMessage w key msg query exec).Holds w key (msgs ++ [msg]) := by
  obtain ⟨data, hc, hm⟩ := h
  refine ⟨{ data with messages := data.messages ++ [msg] }, ?_, ?_⟩
  · simp [MySQLSessionStore.addMessage, withInit, getOrInit, hc]
  · simp [hm]

theorem Holds.getHistory {msgs : List Message} (h : s.Holds w key msgs) (query : Fault) :
    s.getHistory w key query = (s, msgs) := by
  obtain ⟨data, hc, hm⟩ := h
  simp [MySQLSessionStore.getHistory, get, hc, hm]

theorem Holds.save {msgs : List Message} (h : s.Holds w key msgs) (exec : Fault) :
    (s.save w key exec).1.Holds w key msgs := by
  obtain ⟨data, hc, hm⟩ := h
  refine ⟨data, ?_, hm⟩
  unfold MySQLSessionStore.save
  rw [hc]
  cases exec with
  | some err => exact hc
  | none => exact hc

/-! ## Runs -/

/-- The session an operation is about. -/
def Op.target : Op → WorkspaceID × String
  | .getOrCreate w key .. | .get w key _ | .getHistory w key _ | .addMessage w key ..
  | .setMessages w key .. | .setTitle w key .. | .setSummary w key _
  | .updateMetadata w key .. | .accumulateTokens w key .. | .incrementCompaction w key
  | .truncateHistory w key _ | .reset w key | .delete w key _ | .save w key _
  | .setLastPromptTokens w key .. | .setMemoryFlushAt w key _
  | .setSessionMetaValue w key .. => (w, key)

/-- What an operation is meant to make of the messages of its session.
`TruncateHistory` and `Reset` work on cached sessions only; a `Delete`
that the database refuses still drops the cached copy. -/
def Op.intended (s : MySQLSessionStore) (msgs : List Message) : Op → List Message
  | .addMessage _ _ msg _ _ => msgs ++ [msg]
  | .setMessages _ _ msgs' _ _ => msgs'
  | .truncateHistory w key keepLast =>
    if (s.cached w key).isSome then keepLastMessages keepLast msgs else msgs
  | .reset w key => if (s.cached w key).isSome then [] else msgs
  | .delete w key exec => if exec = none then [] else s.storedHistory w key
  | _ => msgs

/-- The operation does not cache the session over a failed read, or there
is nothing stored to miss. -/
def ReadServed (s : MySQLSessionStore) : Op → Prop
  | .getOrCreate w key _ _ query _ | .addMessage w key _ query _ | .setTitle w key _ query _ =>
    s.cached w key = none → query ≠ none → s.storedHistory w key = []
  | _ => True

theorem step_other (op : Op) (h : (w, key) ≠ op.target) :
    (step s op).history w key = s.history w key := by
  cases op with
  | getOrCreate w' key' createdBy kind query exec =>
    exact history_getOrCreate_other h createdBy kind query exec
  | get w' key' query => exact history_get_other h query
  | getHistory w' key' query => exact history_get_other h query
  | addMessage w' key' msg query exec => exact history_withInit_other h query exec _
  | setMessages w' key' msgs query exec => exact history_withInit_other h query exec _
  | setTitle w' key' title query exec => exact history_withInit_other h query exec _
  | delete w' key' exec => exact history_delete_other h exec
  | save w' key' exec => exact history_save_other h exec
  | _ => exact history_ifCached_other h _

/-- The step lemma: every operation does what it is meant to do. -/
theorem step_history (op : Op) (hw : op.target = (w, key)) (hs : ReadServed s op) :
    (step s op).history w key = op.intended s (s.history w key) := by
  cases op with
  | getOrCreate w' key' createdBy kind query exec =>
    cases hw
    exact (getOrCreate_history s w key createdBy kind query exec).trans (opened_served s w key hs)
  | get w' key' query =>
    cases hw
    exact history_get query
  | getHistory w' key' query =>
    cases hw
    exact history_get query
  | addMessage w' key' msg query exec =>
    cases hw
    simp only [step, addMessage, withInit_history, getOrInit_messages, Op.intended,
      opened_served s w key hs]
  | setMessages w' key' msgs query exec =>
    cases hw
    simp only [step, setMessages, withInit_history, Op.intended]
  | setTitle w' key' title query exec =>
    cases hw
    simp only [step, setTitle, withInit_history, getOrInit_messages, Op.intended,
      opened_served s w key hs]
  | truncateHistory w' key' keepLast =>
    cases hw
    simp only [step, truncateHistory, history_ifCached, Op.intended]
    cases hc : s.cached w key <;> simp [history, hc]
  | reset w' key' =>
    cases hw
    simp only [step, reset, history_ifCached, Op.intended]
    cases hc : s.cached w key <;> simp [history, hc]
  | delete w' key' exec =>
    cases hw
    exact history_delete exec
  | save w' key' exec =>
    cases hw
    exact history_save exec
  | setSessionMetaValue w' key' metaKey value =>
    cases hw
    refine history_ifCached_same fun data => ?_
    split <;> rfl
  | _ =>
    cases hw
    exact history_ifCached_same fun _ => rfl

theorem history_uncached (h : s.cached w key = none) :
    s.history w key = s.storedHistory w key := by
  simp only [history, h]

theorem find_of_storedHistory (h : s.storedHistory w key ≠ []) :
    (s.db.find (w, key)).isSome := by
  unfold storedHistory at h
  cases hf : s.db.find (w, key) with
  | none => simp [hf] at h
  | some row => rfl

/-- Opening a session keeps its row, whatever happens to the query. -/
theorem find_getOrCreate (createdBy kind : String) (query exec : Fault)
    (h : (s.db.find (w, key)).isSome) :
    ((s.getOrCreate w key createdBy kind query exec).1.db.find (w, key)).isSome := by
  unfold getOrCreate
  cases s.cached w key with
  | some data => exact h
  | none =>
    cases s.loadFromDB w key query with
    | some data => exact h
    | none => exact find_insertRow_isSome _ w key _ exec h

theorem find_withInit (query exec : Fault) (f : SessionData → SessionData)
    (h : (s.db.find (w, key)).isSome) :
    ((s.withInit w key query exec f).db.find (w, key)).isSome := by
  simp only [withInit, db_put]
  unfold getOrInit
  cases s.cached w key with
  | some data => exact h
  | none =>
    cases s.loadFromDB w key query with
    | some data => exact h
    | none => exact find_insertRow_isSome _ w key _ exec h

/-- An operation that misses `ReadServed` loses the stored messages. -/
theorem step_lost (op : Op) (hw : op.target = (w, key)) (hs : ¬ ReadServed s op) :
    ((step s op).db.find (w, key)).isSome
      ∧ (step s op).history w key ≠ op.intended s (s.history w key) := by
  cases op with
  | getOrCreate w' key' createdBy kind query exec =>
    cases hw
    simp only [ReadServed, Classical.not_imp] at hs
    obtain ⟨hc, hq, hne⟩ := hs
    refine ⟨find_getOrCreate createdBy kind query exec (find_of_storedHistory hne), ?_⟩
    simp only [step, getOrCreate_history, opened_failed s w key hc hq, Op.intended,
      history_uncached hc]
    exact Ne.symm hne
  | addMessage w' key' msg query exec =>
    cases hw
    simp only [ReadServed, Classical.not_imp] at hs
    obtain ⟨hc, hq, hne⟩ := hs
    refine ⟨find_withInit query exec _ (find_of_storedHistory hne), ?_⟩
    simp only [step, addMessage, withInit_history, getOrInit_messages,
      opened_failed s w key hc hq, Op.intended, history_uncached hc]
    simpa using Ne.symm hne
  | setTitle w' key' title query exec =>
    cases hw
    simp only [ReadServed, Classical.not_imp] at hs
    obtain ⟨hc, hq, hne⟩ := hs
    refine ⟨find_withInit query exec _ (find_of_storedHistory hne), ?_⟩
    simp only [step, setTitle, withInit_history, getOrInit_messages,
      opened_failed s w key hc hq, Op.intended,
      history_uncached hc]
    exact Ne.symm hne
  | _ => exact absurd trivial hs

/-- The store, and the messages session `(w, key)` is meant to have. -/
structure Traced where
  store : MySQLSessionStore
  intended : List Message

/-- A new store over the table. -/
def traced (db : SessionTable) (w : WorkspaceID) (key : String) : Traced :=
  { store := newMySQLSessionStore db
    intended := (newMySQLSessionStore db).storedHistory w key }

def track (w : WorkspaceID) (key : String) (t : Traced) (op : Op) : Traced :=
  { store := step t.store op
    intended := if op.target = (w, key) then op.intended t.store t.intended else t.intended }

/-- A `Save` issued now leaves the messages the session is meant to have. -/
def SaveKeeps (w : WorkspaceID) (key : String) (t : Traced) : Prop :=
  ∀ row, (t.store.save w key none).1.db.find (w, key) = some row → row.history = t.intended

/-- The invariant: the store holds the messages the session is meant to have. -/
def Faithful (w : WorkspaceID) (key : String) (t : Traced) : Prop :=
  t.store.history w key = t.intended

/-- `Save` shows the row what the store holds, and adds no row. -/
theorem saveKeeps_iff (t : Traced) :
    SaveKeeps w key t ↔ ((t.store.db.find (w, key)).isSome → Faithful w key t) := by
  have hsave : ((t.store.save w key none).1.db.find (w, key)).map SessionRow.history
      = (t.store.db.find (w, key)).map (fun _ => t.store.history w key) := save_find
  unfold SaveKeeps Faithful
  cases hf : t.store.db.find (w, key) with
  | none =>
    rw [hf, Option.map_none, Option.map_eq_none_iff] at hsave
    simp [hsave]
  | some row =>
    rw [hf, Option.map_some, Option.map_eq_some_iff] at hsave
    obtain ⟨row', hrow', hh⟩ := hsave
    simp [hrow', hh]

theorem Faithful.next {t : Traced} (h : Faithful w key t) (op : Op)
    (hs : op.target = (w, key) → ReadServed t.store op) : Faithful w key (track w key t op) := by
  unfold Faithful at h ⊢
  by_cases hw : op.target = (w, key)
  · simp only [track, if_pos hw, ← h]
    exact step_history op hw (hs hw)
  · simp only [track, if_neg hw, ← h]
    exact step_other op (Ne.symm hw)

theorem Faithful.lost {t : Traced} (h : Faithful w key t) (op : Op)
    (hs : ¬ (op.target = (w, key) → ReadServed t.store op)) :
    ¬ SaveKeeps w key (track w key t op) := by
  rw [Classical.not_imp] at hs
  obtain ⟨hrow, hne⟩ := step_lost op hs.1 hs.2
  rw [saveKeeps_iff]
  intro hkeeps
  have hfaith := hkeeps hrow
  simp only [Faithful, track, if_pos hs.1] at hfaith
  rw [← h] at hfaith
  exact hne hfaith

/-- Along every run over every table, at every point a `Save` of the
session would store its messages as the operations intend them, if and
only if no operation cached the session over a failed read of messages
that are stored. -/
theorem save_keeps_history_iff (w : WorkspaceID) (key : String) (db : SessionTable)
    (ops : List Op) :
    Lib.Always (SaveKeeps w key) (track w key) (traced db w key) ops ↔
      Lib.Along (fun t op => op.target = (w, key) → ReadServed t.store op) (track w key)
        (traced db w key) ops :=
  Lib.always_iff_along (fun _ op h hs => Faithful.next h op hs)
    (fun t h => (saveKeeps_iff t).mpr fun _ => h) (fun _ op h hs => Faithful.lost h op hs) ops
    (traced db w key) rfl

end

/-! ### A read that fails once -/

/-- One session with one message. -/
def greetedTable : SessionTable :=
  { rows :=
      [{ workspaceID := defaultWorkspaceID
         sessionKey := "s1"
         title := "Greeting"
         kind := "user"
         createdBy := none
         history := [textMessage .user "hello"]
         summary := none
         metadata := none
         compactionCount := 0 }]
    unique := by simp }

/-- The read of `GetOrCreate` fails, the run goes on, and its `Save`
leaves the new message alone in the row. -/
theorem failed_read_drops_history :
    ¬ SaveKeeps defaultWorkspaceID "s1"
      (Lib.run (track defaultWorkspaceID "s1") (traced greetedTable defaultWorkspaceID "s1")
        [.getOrCreate defaultWorkspaceID "s1" "alice" "user" (some "driver: bad connection") none,
          .addMessage defaultWorkspaceID "s1" (textMessage .user "are you there?") none none]) := by
  unfold SaveKeeps
  decide

end MySQLSessionStore

end LendingClaw.Store
