/-
LendingClaw.Store.ConcurrentSaves — `Save` in its two atomic steps, on
one session.

`Save` copies the cached session under the read lock, releases the lock
and executes the UPDATE with the copy. Concurrent runs and background
summarizers change the session and start their own Saves in between, so
an UPDATE may be executed after that of a newer copy. The law is that
once all Saves have returned the row shows the newest copy; it holds of
every schedule in which UPDATEs of the session come in the order of
their copies.
-/
import LendingClaw.Store.SessionsTheorems
import LendingClaw.Lib.Snapshots

namespace LendingClaw.Store

open LendingClaw.Providers MySQLSessionStore

/-! ## Schedules -/

/-- A change of the session by a concurrent run or summarizer. -/
inductive Mutation where
  | addMessage (msg : Message) (query exec : Fault)
  | setSummary (summary : String)
  | truncateHistory (keepLast : Int)
  | setTitle (title : String) (query exec : Fault)
  | accumulateTokens (input output : Int)
  | incrementCompaction

/-- The call of the store. -/
def Mutation.op (w : WorkspaceID) (key : String) : Mutation → Op
  | .addMessage msg query exec => .addMessage w key msg query exec
  | .setSummary summary => .setSummary w key summary
  | .truncateHistory keepLast => .truncateHistory w key keepLast
  | .setTitle title query exec => .setTitle w key title query exec
  | .accumulateTokens input output => .accumulateTokens w key input output
  | .incrementCompaction => .incrementCompaction w key

/-- What it does to the cached session. -/
def Mutation.change : Mutation → SessionData → SessionData
  | .addMessage msg _ _ => fun data => { data with messages := data.messages ++ [msg] }
  | .setSummary summary => fun data => { data with summary := summary }
  | .truncateHistory keepLast =>
    fun data => { data with messages := keepLastMessages keepLast data.messages }
  | .setTitle title _ _ => fun data => { data with title := title }
  | .accumulateTokens input output => fun data =>
    { data with
      inputTokens := data.inputTokens + input
      outputTokens := data.outputTokens + output }
  | .incrementCompaction => fun data => { data with compactionCount := data.compactionCount + 1 }

/-- The store with the Saves under way. `kept` records, for each Save, the
messages of its snapshot that no truncation has removed since, and
`returned` the Saves that have returned without error. -/
structure Saving where
  store : MySQLSessionStore
  saves : Lib.Snapshots SessionData := {}
  kept : List (Nat × List Message) := []
  returned : List Nat := []

/-- One step of a schedule. A Save that finds no cached session returns at
once. `update` is the UPDATE of the Save with that ticket. -/
inductive SaveStep where
  | mutate (m : Mutation)
  | snapshot
  | update (ticket : Nat) (exec : Fault)

/-- The messages a change leaves of a recorded list. -/
def Mutation.keeps (m : Mutation) (left msgs : List Message) : List Message :=
  match m with
  | .truncateHistory _ => msgs.filter (fun msg => msg ∈ left)
  | _ => msgs

/-- The UPDATE of `Save`. -/
def MySQLSessionStore.updateRow (s : MySQLSessionStore) (w : WorkspaceID) (key : String)
    (snapshot : SessionData) : MySQLSessionStore :=
  { s with db := s.db.update (w, key) (savedRow snapshot) (savedRow_key snapshot) }

def Saving.step (w : WorkspaceID) (key : String) (t : Saving) : SaveStep → Saving
  | .mutate m =>
    let store := MySQLSessionStore.step t.store (m.op w key)
    { t with
      store := store
      kept := t.kept.map (fun p => (p.1, m.keeps (store.history w key) p.2)) }
  | .snapshot =>
    match t.store.cached w key with
    | none => t
    | some data =>
      { t with
        saves := t.saves.take data
        kept := (t.saves.next, data.messages) :: t.kept }
  | .update ticket exec =>
    match t.saves.copy ticket with
    | none => t
    | some snapshot =>
      match exec with
      | some _ => { t with saves := t.saves.fail ticket }
      | none =>
        { t with
          store := t.store.updateRow w key snapshot
          saves := t.saves.write ticket snapshot
          returned := ticket :: t.returned }

/-- The row shows a snapshot, in the columns that `Save` sets. -/
def SessionRow.Shows (row : SessionRow) (data : SessionData) : Prop :=
  row.title = data.title ∧ row.history = data.messages ∧ row.summary = nilStr data.summary
    ∧ row.metadata = some (sessionMetadata data) ∧ row.compactionCount = data.compactionCount

/-- No update is lost: once every started Save has returned without error,
the row shows the newest snapshot, and every message that a returned Save
had in its snapshot and that was not truncated since. -/
def NoUpdateLost (w : WorkspaceID) (key : String) (t : Saving) : Prop :=
  t.saves.Settled → ∀ data, t.saves.latest = some data →
    ∃ row, t.store.db.find (w, key) = some row ∧ row.Shows data
      ∧ ∀ p ∈ t.kept, p.1 ∈ t.returned → ∀ msg ∈ p.2, msg ∈ row.history

/-- An UPDATE that is served finds the session's row, and no newer
snapshot has been written before it. -/
def UpdatesInOrder (w : WorkspaceID) (key : String) (t : Saving) : SaveStep → Prop
  | .update ticket none =>
    (t.saves.copy ticket).isSome → (t.store.db.find (w, key)).isSome ∧ t.saves.InOrder ticket
  | _ => True

/-! ## What a change does -/

section
variable {w : WorkspaceID} {key : String}

/-- A cached session is changed in place. -/
theorem cached_mutation {s : MySQLSessionStore} {data : SessionData} (m : Mutation)
    (hc : s.cached w key = some data) :
    (MySQLSessionStore.step s (m.op w key)).cached w key = some (m.change data) := by
  cases m <;>
    simp [Mutation.op, Mutation.change, MySQLSessionStore.step, addMessage, setTitle, setSummary,
      truncateHistory, accumulateTokens, incrementCompaction, withInit, getOrInit, ifCached, hc]

/-- No change touches a row that exists. -/
theorem find_mutation {s : MySQLSessionStore} {row : SessionRow} (m : Mutation)
    (hrow : s.db.find (w, key) = some row) :
    (MySQLSessionStore.step s (m.op w key)).db.find (w, key) = some row := by
  have hinit : ∀ (query exec : Fault) (f : SessionData → SessionData),
      (s.withInit w key query exec f).db.find (w, key) = some row := by
    intro query exec f
    simp only [withInit, db_put]
    unfold getOrInit
    cases s.cached w key with
    | some data => exact hrow
    | none =>
      cases s.loadFromDB w key query with
      | some data => exact hrow
      | none =>
        cases exec with
        | some err => exact hrow
        | none =>
          simp only [initSession, insertRow, db_put, Lib.Table.find_upsert]
          split
          · simp [hrow]
          · exact hrow
  have hcached : ∀ f : SessionData → SessionData,
      (s.ifCached w key f).db.find (w, key) = some row := by
    intro f
    unfold ifCached
    cases s.cached w key <;> exact hrow
  cases m with
  | addMessage msg query exec => exact hinit query exec _
  | setTitle title query exec => exact hinit query exec _
  | _ => exact hcached _

/-- What a change keeps of a recorded list is still in the session. -/
theorem Mutation.keeps_subset {m : Mutation} {data : SessionData} {msgs : List Message}
    (h : msgs ⊆ data.messages) :
    m.keeps (m.change data).messages msgs ⊆ (m.change data).messages := by
  intro msg hmsg
  cases m with
  | truncateHistory keepLast =>
    rw [Mutation.keeps, List.mem_filter] at hmsg
    simpa using hmsg.2
  | addMessage msg' query exec =>
    have hin := h hmsg
    simp [Mutation.change, hin]
  | _ => exact h hmsg

theorem Mutation.keeps_sub {m : Mutation} {left msgs : List Message} :
    m.keeps left msgs ⊆ msgs := by
  cases m with
  | truncateHistory keepLast => exact List.filter_subset_self _
  | _ => exact List.Subset.refl _

end

/-! ## Runs -/

/-- No Save has started yet. -/
def Saving.start (store : MySQLSessionStore) : Saving := { store := store }

/-- The invariant. -/
structure Saving.Inv (w : WorkspaceID) (key : String) (t : Saving) : Prop where
  tickets : t.saves.Tickets
  shown : ∀ i data, t.saves.shown = some (i, data) →
    ∃ row, t.store.db.find (w, key) = some row ∧ row.Shows data
  kept : ∀ p ∈ t.kept, ∃ data latest, t.store.cached w key = some data ∧ p.2 ⊆ data.messages
    ∧ t.saves.latest = some latest ∧ p.2 ⊆ latest.messages

section
variable {w : WorkspaceID} {key : String} {t : Saving}

theorem Saving.inv_start (store : MySQLSessionStore) : (Saving.start store).Inv w key where
  tickets := Lib.Snapshots.tickets_init
  shown := by simp [Saving.start]
  kept := by simp [Saving.start]

theorem Saving.Inv.mutate (h : t.Inv w key) (m : Mutation) :
    (t.step w key (.mutate m)).Inv w key where
  tickets := h.tickets
  shown := by
    intro i data hs
    obtain ⟨row, hrow, hshows⟩ := h.shown i data hs
    exact ⟨row, find_mutation m hrow, hshows⟩
  kept := by
    intro p hp
    obtain ⟨q, hq, rfl⟩ := List.mem_map.mp hp
    obtain ⟨data, latest, hc, hsub, hl, hlsub⟩ := h.kept q hq
    have hc' := cached_mutation m hc
    refine ⟨m.change data, latest, hc', ?_, hl, ?_⟩
    · have hist : (MySQLSessionStore.step t.store (m.op w key)).history w key
          = (m.change data).messages := by simp [history, hc']
      simp only [hist]
      exact Mutation.keeps_subset hsub
    · exact List.Subset.trans Mutation.keeps_sub hlsub

theorem Saving.Inv.snapshot (h : t.Inv w key) : (t.step w key .snapshot).Inv w key := by
  unfold Saving.step
  cases hc : t.store.cached w key with
  | none => exact h
  | some data =>
    constructor
    · exact h.tickets.take data
    · exact h.shown
    · intro p hp
      simp only [List.mem_cons] at hp
      rcases hp with rfl | hp
      · exact ⟨data, data, hc, List.Subset.refl _, rfl, List.Subset.refl _⟩
      · -- what was kept is in the session, hence in the new snapshot
        obtain ⟨data', latest, hc', hsub, -, -⟩ := h.kept p hp
        rw [hc] at hc'
        cases hc'
        exact ⟨data, data, hc, hsub, rfl, hsub⟩

/-- The row an UPDATE leaves shows its snapshot. -/
theorem shows_updateRow {s : MySQLSessionStore} {snapshot : SessionData}
    (hrow : (s.db.find (w, key)).isSome) :
    ∃ row, (s.updateRow w key snapshot).db.find (w, key) = some row ∧ row.Shows snapshot := by
  obtain ⟨row, hrow⟩ := Option.isSome_iff_exists.mp hrow
  refine ⟨savedRow snapshot row, ?_, rfl, rfl, rfl, rfl, rfl⟩
  simp [updateRow, Lib.Table.find_update, hrow]

theorem Saving.Inv.update (h : t.Inv w key) (ticket : Nat) (exec : Fault)
    (hok : UpdatesInOrder w key t (.update ticket exec)) :
    (t.step w key (.update ticket exec)).Inv w key := by
  simp only [Saving.step]
  cases hcopy : t.saves.copy ticket with
  | none => exact h
  | some snapshot =>
    cases exec with
    | some err => exact ⟨h.tickets.fail ticket, h.shown, h.kept⟩
    | none =>
      obtain ⟨hrow, horder⟩ := hok (by simp [hcopy])
      constructor
      · exact h.tickets.write hcopy horder
      · intro i data hs
        simp only [Lib.Snapshots.write, Option.some.injEq, Prod.mk.injEq] at hs
        obtain ⟨-, rfl⟩ := hs
        exact shows_updateRow hrow
      · exact h.kept

theorem Saving.inv_step (t : Saving) (a : SaveStep) (h : t.Inv w key)
    (hok : UpdatesInOrder w key t a) : (t.step w key a).Inv w key := by
  cases a with
  | mutate m => exact h.mutate m
  | snapshot => exact h.snapshot
  | update ticket exec => exact h.update ticket exec hok

theorem Saving.Inv.noUpdateLost (h : t.Inv w key) : NoUpdateLost w key t := by
  intro hs data hl
  obtain ⟨i, hi⟩ := h.tickets.settled hs hl
  obtain ⟨row, hrow, hshows⟩ := h.shown i data hi
  refine ⟨row, hrow, hshows, ?_⟩
  intro p hp _ msg hmsg
  obtain ⟨-, latest, -, -, hl', hsub⟩ := h.kept p hp
  rw [hl] at hl'
  cases hl'
  rw [hshows.2.1]
  exact hsub hmsg

end

/-- Concurrent Saves of a session lose no update in any schedule whose
UPDATEs find the row and come in the order of their snapshots. -/
theorem no_update_lost_in_order (w : WorkspaceID) (key : String) (store : MySQLSessionStore)
    (steps : List SaveStep)
    (horder : Lib.Along (UpdatesInOrder w key) (Saving.step w key) (Saving.start store) steps) :
    Lib.Always (NoUpdateLost w key) (Saving.step w key) (Saving.start store) steps :=
  Lib.always_of_along Saving.inv_step (fun _ h => h.noUpdateLost) steps (Saving.start store)
    (Saving.inv_start store) horder

/-! ### Two Saves that overtake -/

/-- The greeted session, opened by a run. -/
def greetedStore : MySQLSessionStore :=
  ((newMySQLSessionStore greetedTable).getOrCreate defaultWorkspaceID "s1" "alice" "user"
    none none).1

/-- A summarizer takes its snapshot, a run adds a message and saves, and
then the summarizer's UPDATE is executed. -/
def overtaken : List SaveStep :=
  [.snapshot, .mutate (.addMessage (textMessage .user "are you there?") none none), .snapshot,
    .update 1 none, .update 0 none]

/-- Both Saves have returned, and the message is not in the row. -/
theorem overtaken_save_loses_message :
    ¬ NoUpdateLost defaultWorkspaceID "s1"
      (Lib.run (Saving.step defaultWorkspaceID "s1") (Saving.start greetedStore) overtaken) := by
  intro h
  obtain ⟨row, hrow, -, hkept⟩ := h ⟨by decide, by decide⟩ _ rfl
  have hin := hkept (1, [textMessage .user "hello", textMessage .user "are you there?"])
    (by decide) (by decide) (textMessage .user "are you there?") (by decide)
  have hmissing : ∀ row', (Lib.run (Saving.step defaultWorkspaceID "s1")
      (Saving.start greetedStore) overtaken).store.db.find (defaultWorkspaceID, "s1") = some row' →
      textMessage .user "are you there?" ∉ row'.history := by decide
  exact hmissing row hrow hin

/-- The law for the schedule with the UPDATEs in order. -/
theorem no_update_lost_in_order_greeted :
    Lib.Always (NoUpdateLost defaultWorkspaceID "s1") (Saving.step defaultWorkspaceID "s1")
      (Saving.start greetedStore)
      [.snapshot, .mutate (.addMessage (textMessage .user "are you there?") none none), .snapshot,
        .update 0 none, .update 1 none] :=
  no_update_lost_in_order defaultWorkspaceID "s1" greetedStore _
    ⟨trivial, trivial, trivial, fun _ => ⟨by decide, by
      intro i data h
      cases h⟩, fun _ => ⟨by decide, by
      intro i data h
      cases h
      exact Nat.zero_le _⟩, trivial⟩

end LendingClaw.Store
