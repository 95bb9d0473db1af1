/-
LendingClaw.Store.ConcurrentDelete — `Delete` in its two atomic steps,
against the calls of a run in progress on the same session.

`Delete` drops the cache entry, releases the lock and executes the DELETE.
A read in between loads the row that is about to go, and from then on the
cache serves a session without a row: no later call of the store inserts
one, and `Save` updates zero rows. A schedule is the calls before the
first step, between the two, and after the second.
-/
import LendingClaw.Store.SessionsTheorems

namespace LendingClaw.Store

open LendingClaw.Providers MySQLSessionStore

/-! ## Schedules -/

/-- A call of the run on the session. -/
inductive SessionCall where
  | get (query : Fault)
  | getHistory (query : Fault)
  | addMessage (msg : Message) (query exec : Fault)
  | save (exec : Fault)
  deriving DecidableEq

def SessionCall.op (w : WorkspaceID) (key : String) : SessionCall → Op
  | .get query => .get w key query
  | .getHistory query => .getHistory w key query
  | .addMessage msg query exec => .addMessage w key msg query exec
  | .save exec => .save w key exec

/-- The store, and the messages of the last `Save` that was served. -/
structure Deleting where
  store : MySQLSessionStore
  saved : Option (List Message) := none

def Deleting.call (w : WorkspaceID) (key : String) (t : Deleting) (c : SessionCall) : Deleting :=
  { store := step t.store (c.op w key)
    saved :=
      match c, t.store.cached w key with
      | .save none, some data => some data.messages
      | _, _ => t.saved }

/-- The first step of `Delete`. -/
def Deleting.evict (w : WorkspaceID) (key : String) (t : Deleting) : Deleting :=
  { t with store := { t.store with cache := t.store.cache.erase (ck w key) } }

/-- The second: the DELETE. -/
def Deleting.remove (w : WorkspaceID) (key : String) (t : Deleting) : Deleting :=
  { t with store := { t.store with db := t.store.db.delete (fun row => row.key == (w, key)) } }

/-- What a schedule leaves once all calls have returned. -/
def Deleting.schedule (w : WorkspaceID) (key : String) (t : Deleting)
    (before between after : List SessionCall) : Deleting :=
  Lib.run (Deleting.call w key)
    ((Lib.run (Deleting.call w key)
      ((Lib.run (Deleting.call w key) t before).evict w key) between).remove w key) after

/-- Without calls in between, the two steps are `Delete`. -/
theorem delete_eq_steps (s : MySQLSessionStore) (w : WorkspaceID) (key : String) :
    (s.delete w key none).1 = (((Deleting.mk s none).evict w key).remove w key).store := rfl

/-- Cache and table agree: the session is in neither, or it is in both and
the row holds the messages of the last `Save`. -/
def DeleteAgrees (w : WorkspaceID) (key : String) (t : Deleting) : Prop :=
  (t.store.cached w key = none ∧ t.store.db.find (w, key) = none)
    ∨ ∃ data row, t.store.cached w key = some data ∧ t.store.db.find (w, key) = some row
      ∧ ∀ msgs, t.saved = some msgs → row.history = msgs

/-- The session of a run in progress: cached, with its row. -/
structure LiveSession (w : WorkspaceID) (key : String) where
  store : MySQLSessionStore
  data : SessionData
  row : SessionRow
  cached : store.cached w key = some data
  stored : store.db.find (w, key) = some row

/-- Between the two steps of `Delete`: the call does not load the row. -/
def SessionCall.LeavesUncached : SessionCall → Prop
  | .get query | .getHistory query => query ≠ none
  | .addMessage .. => False
  | .save _ => True

/-- The INSERT of the first `AddMessage`, and the calls after it. -/
def firstAdd : List SessionCall → Option (Fault × List SessionCall)
  | [] => none
  | .addMessage _ _ exec :: rest => some (exec, rest)
  | _ :: rest => firstAdd rest

/-- After the DELETE: if a message is added, the INSERT of the new row is
served, and a `Save` follows (or there is nothing it would have to
replace). -/
def Recreates (saved : Option (List Message)) (after : List SessionCall) : Prop :=
  ∀ exec rest, firstAdd after = some (exec, rest) →
    exec = none ∧ (.save none ∈ rest ∨ saved.getD [] = [])

/-! ## What a call does to the two copies -/

section
variable {w : WorkspaceID} {key : String} {s : MySQLSessionStore}

/-- A cached session stays cached, and only a served `Save` touches the
row. -/
theorem call_cached {data : SessionData} (c : SessionCall) (hc : s.cached w key = some data) :
    (∃ data', (step s (c.op w key)).cached w key = some data')
      ∧ (step s (c.op w key)).db.find (w, key)
          = if c = .save none then (s.db.find (w, key)).map (savedRow data)
            else s.db.find (w, key) := by
  cases c with
  | get query => simp [SessionCall.op, step, MySQLSessionStore.get, hc]
  | getHistory query => simp [SessionCall.op, step, getHistory, MySQLSessionStore.get, hc]
  | addMessage msg query exec =>
    simp [SessionCall.op, step, addMessage, withInit, getOrInit, hc]
  | save exec =>
    simp only [SessionCall.op, step, save, hc]
    cases exec with
    | some err => simp [hc]
    | none =>
      refine ⟨⟨data, hc⟩, ?_⟩
      simp [Lib.Table.find_update]

/-- A call that leaves the session uncached leaves everything. -/
theorem call_leavesUncached (c : SessionCall) (hc : s.cached w key = none)
    (h : c.LeavesUncached) : step s (c.op w key) = s := by
  cases c with
  | get query =>
    cases query with
    | none => exact absurd rfl h
    | some err => simp [SessionCall.op, step, MySQLSessionStore.get, hc, loadFromDB]
  | getHistory query =>
    cases query with
    | none => exact absurd rfl h
    | some err => simp [SessionCall.op, step, getHistory, MySQLSessionStore.get, hc, loadFromDB]
  | addMessage msg query exec => exact absurd h id
  | save exec => simp [SessionCall.op, step, save, hc]

/-- Any other call caches the session that has a row. -/
theorem call_recaches (c : SessionCall) (hc : s.cached w key = none)
    (hrow : (s.db.find (w, key)).isSome) (h : ¬ c.LeavesUncached) :
    ∃ data, (step s (c.op w key)).cached w key = some data := by
  obtain ⟨row, hrow⟩ := Option.isSome_iff_exists.mp hrow
  cases c with
  | get query =>
    cases query with
    | some err => exact absurd (by simp [SessionCall.LeavesUncached]) h
    | none => simp [SessionCall.op, step, MySQLSessionStore.get, hc, loadFromDB, hrow]
  | getHistory query =>
    cases query with
    | some err => exact absurd (by simp [SessionCall.LeavesUncached]) h
    | none => simp [SessionCall.op, step, getHistory, MySQLSessionStore.get, hc, loadFromDB, hrow]
  | addMessage msg query exec => simp [SessionCall.op, step, addMessage, withInit]
  | save exec => exact absurd trivial h

/-- With neither copy left, only `AddMessage` does anything. -/
theorem call_absent (c : SessionCall) (hc : s.cached w key = none)
    (hrow : s.db.find (w, key) = none) (h : ∀ msg query exec, c ≠ .addMessage msg query exec) :
    step s (c.op w key) = s := by
  cases c with
  | get query => cases query <;> simp [SessionCall.op, step, MySQLSessionStore.get, hc, loadFromDB, hrow]
  | getHistory query =>
    cases query <;> simp [SessionCall.op, step, getHistory, MySQLSessionStore.get, hc, loadFromDB, hrow]
  | addMessage msg query exec => exact absurd rfl (h msg query exec)
  | save exec => simp [SessionCall.op, step, save, hc]

/-- It caches a new session, and its row is there if the INSERT is
served. -/
theorem addMessage_absent (msg : Message) (query exec : Fault) (hc : s.cached w key = none)
    (hrow : s.db.find (w, key) = none) :
    (∃ data, (s.addMessage w key msg query exec).cached w key = some data)
      ∧ (s.addMessage w key msg query exec).db.find (w, key)
          = if exec = none then some (newSessionRow w "user" (newSession key "")) else none := by
  have hload : s.loadFromDB w key query = none := by
    cases query <;> simp [loadFromDB, hrow]
  simp only [addMessage, withInit, getOrInit, hc, hload, initSession]
  refine ⟨⟨_, cached_put_self _ w key _⟩, ?_⟩
  cases exec with
  | some err => simp [insertRow, hrow]
  | none =>
    have hkey : (newSessionRow w "user" (newSession key "")).key = (w, key) := rfl
    simp [insertRow, Lib.Table.find_upsert, hkey, hrow]

end

/-! ## The phases of a schedule -/

section
variable {w : WorkspaceID} {key : String} {t : Deleting}

/-- Cached, with a row. -/
def Deleting.Live (w : WorkspaceID) (key : String) (t : Deleting) : Prop :=
  (∃ data, t.store.cached w key = some data) ∧ ∃ row, t.store.db.find (w, key) = some row

/-- A row, and no cache entry: between the steps of `Delete`. -/
def Deleting.Evicted (w : WorkspaceID) (key : String) (t : Deleting) : Prop :=
  t.store.cached w key = none ∧ ∃ row, t.store.db.find (w, key) = some row

/-- Neither. -/
def Deleting.Absent (w : WorkspaceID) (key : String) (t : Deleting) : Prop :=
  t.store.cached w key = none ∧ t.store.db.find (w, key) = none

/-- Cached without a row. -/
def Deleting.Orphan (w : WorkspaceID) (key : String) (t : Deleting) : Prop :=
  (∃ data, t.store.cached w key = some data) ∧ t.store.db.find (w, key) = none

theorem Deleting.Live.call (h : t.Live w key) (c : SessionCall) : (t.call w key c).Live w key := by
  obtain ⟨⟨data, hc⟩, row, hrow⟩ := h
  obtain ⟨hc', hfind⟩ := call_cached c hc
  refine ⟨hc', ?_⟩
  simp only [Deleting.call, hfind, hrow]
  split <;> simp

theorem Deleting.Live.run (cs : List SessionCall) :
    ∀ {t : Deleting}, t.Live w key → (Lib.run (Deleting.call w key) t cs).Live w key := by
  induction cs with
  | nil => intro t h; exact h
  | cons c cs ih => intro t h; exact ih (h.call c)

/-- Nothing gives an orphan its row back. -/
theorem Deleting.Orphan.run (cs : List SessionCall) :
    ∀ {t : Deleting}, t.Orphan w key → (Lib.run (Deleting.call w key) t cs).Orphan w key := by
  induction cs with
  | nil => intro t h; exact h
  | cons c cs ih =>
    intro t h
    obtain ⟨⟨data, hc⟩, hrow⟩ := h
    obtain ⟨hc', hfind⟩ := call_cached c hc
    apply ih
    refine ⟨hc', ?_⟩
    simp only [Deleting.call, hfind, hrow]
    split <;> rfl

theorem Deleting.Live.evict (h : t.Live w key) : (t.evict w key).Evicted w key :=
  ⟨AList.lookup_erase .., h.2⟩

theorem find_remove (t : Deleting) : (t.remove w key).store.db.find (w, key) = none := by
  simp only [Deleting.remove, Lib.Table.find_delete]
  cases hf : t.store.db.find (w, key) with
  | none => rfl
  | some row =>
    have hk : row.key = (w, key) := Lib.Table.find_key hf
    rw [Option.filter_some, hk]
    simp

theorem call_same (c : SessionCall) (hc : t.store.cached w key = none)
    (hs : step t.store (c.op w key) = t.store) : t.call w key c = t := by
  unfold Deleting.call
  rw [hs, hc]
  cases c with
  | save exec => cases exec <;> rfl
  | _ => rfl

/-- Calls that leave the session uncached leave the whole state. -/
theorem Deleting.Evicted.run_same (cs : List SessionCall) (h : t.Evicted w key)
    (hcs : ∀ c ∈ cs, c.LeavesUncached) : Lib.run (Deleting.call w key) t cs = t := by
  induction cs with
  | nil => rfl
  | cons c cs ih =>
    have hsame := call_same c h.1 (call_leavesUncached c h.1 (hcs c List.mem_cons_self))
    rw [Lib.run_cons, hsame]
    exact ih (fun c' hc' => hcs c' (List.mem_cons_of_mem _ hc'))

/-- One call that does not caches the session again, for good. -/
theorem Deleting.Evicted.run_live (cs : List SessionCall) (h : t.Evicted w key)
    (hcs : ¬ ∀ c ∈ cs, c.LeavesUncached) : (Lib.run (Deleting.call w key) t cs).Live w key := by
  induction cs with
  | nil => exact absurd (by simp) hcs
  | cons c cs ih =>
    rw [Lib.run_cons]
    by_cases hc : c.LeavesUncached
    · rw [call_same c h.1 (call_leavesUncached c h.1 hc)]
      apply ih
      intro hall
      apply hcs
      intro c' hc'
      rcases List.mem_cons.mp hc' with rfl | hc'
      · exact hc
      · exact hall c' hc'
    · apply Deleting.Live.run
      have hrow : (t.store.db.find (w, key)).isSome := Option.isSome_iff_exists.mpr h.2
      refine ⟨call_recaches c h.1 hrow hc, ?_⟩
      cases c with
      | addMessage msg query exec =>
        exact Option.isSome_iff_exists.mp (find_withInit query exec _ hrow)
      | get query =>
        simp only [Deleting.call, SessionCall.op, step, MySQLSessionStore.get, h.1]
        cases t.store.loadFromDB w key query <;> exact h.2
      | getHistory query =>
        simp only [Deleting.call, SessionCall.op, step, MySQLSessionStore.getHistory,
          MySQLSessionStore.get, h.1]
        cases t.store.loadFromDB w key query <;> exact h.2
      | save exec => exact absurd trivial hc

/-- After the DELETE, what counts is the first `AddMessage`. -/
theorem Deleting.Absent.run (cs : List SessionCall) (h : t.Absent w key) :
    match firstAdd cs with
    | none => Lib.run (Deleting.call w key) t cs = t
    | some (exec, rest) =>
      ∃ t' : Deleting, Lib.run (Deleting.call w key) t cs = Lib.run (Deleting.call w key) t' rest
        ∧ t'.saved = t.saved ∧ (∃ data, t'.store.cached w key = some data)
        ∧ (t'.store.db.find (w, key)).map SessionRow.history
            = if exec = none then some [] else none := by
  induction cs with
  | nil => rfl
  | cons c cs ih =>
    rw [Lib.run_cons]
    cases c with
    | addMessage msg query exec =>
      obtain ⟨hc, hfind⟩ := addMessage_absent msg query exec h.1 h.2
      refine ⟨_, rfl, rfl, hc, ?_⟩
      simp only [Deleting.call, SessionCall.op, step, hfind]
      split <;> rfl
    | get query =>
      rw [call_same _ h.1 (call_absent _ h.1 h.2 (by simp))]
      exact ih
    | getHistory query =>
      rw [call_same _ h.1 (call_absent _ h.1 h.2 (by simp))]
      exact ih
    | save exec =>
      rw [call_same _ h.1 (call_absent _ h.1 h.2 (by simp))]
      exact ih

/-- In a live session the row is what the last served `Save` wrote, or
what it was. -/
theorem Deleting.Live.run_row (cs : List SessionCall) :
    ∀ {t : Deleting} {data : SessionData} {row : SessionRow},
      t.store.cached w key = some data → t.store.db.find (w, key) = some row →
      ∃ data' row', (Lib.run (Deleting.call w key) t cs).store.cached w key = some data'
        ∧ (Lib.run (Deleting.call w key) t cs).store.db.find (w, key) = some row'
        ∧ (if .save none ∈ cs then (Lib.run (Deleting.call w key) t cs).saved = some row'.history
          else (Lib.run (Deleting.call w key) t cs).saved = t.saved ∧ row'.history = row.history) := by
  induction cs with
  | nil => intro t data row hc hrow; exact ⟨data, row, hc, hrow, by simp⟩
  | cons c cs ih =>
    intro t data row hc hrow
    obtain ⟨⟨data', hc'⟩, hfind⟩ := call_cached c hc
    by_cases hsave : c = .save none
    · subst hsave
      rw [if_pos rfl, hrow] at hfind
      obtain ⟨data'', row'', h1, h2, h3⟩ := ih (t := t.call w key (.save none)) hc' hfind
      refine ⟨data'', row'', h1, h2, ?_⟩
      rw [if_pos List.mem_cons_self]
      split at h3
      · exact h3
      · rw [Lib.run_cons, h3.1, h3.2]
        simp [Deleting.call, hc, savedRow]
    · rw [if_neg hsave, hrow] at hfind
      obtain ⟨data'', row'', h1, h2, h3⟩ := ih (t := t.call w key c) hc' hfind
      refine ⟨data'', row'', h1, h2, ?_⟩
      have hsaved : (t.call w key c).saved = t.saved := by
        cases c with
        | save exec =>
          cases exec with
          | none => exact absurd rfl hsave
          | some err => rfl
        | _ => rfl
      have hmem : .save none ∈ c :: cs ↔ .save none ∈ cs := by
        simp [Ne.symm hsave]
      simp only [hmem]
      rw [hsaved] at h3
      exact h3

/-! ## The exact condition -/

/-- Where the row outlived the cache until the DELETE, the end is decided
by the first `AddMessage` after it. -/
theorem deleteAgrees_of_absent (after : List SessionCall) (h : t.Absent w key) :
    DeleteAgrees w key (Lib.run (Deleting.call w key) t after) ↔ Recreates t.saved after := by
  have hrun := h.run after
  unfold Recreates
  cases hf : firstAdd after with
  | none =>
    simp only [hf] at hrun
    rw [hrun]
    exact iff_of_true (Or.inl h) (by simp)
  | some p =>
    obtain ⟨exec, rest⟩ := p
    simp only [hf] at hrun
    obtain ⟨t', hrun, hsaved, ⟨data, hc⟩, hrow⟩ := hrun
    rw [hrun]
    cases exec with
    | some err =>
      simp only [reduceCtorEq, if_false, Option.map_eq_none_iff] at hrow
      obtain ⟨⟨data', hc'⟩, hrow'⟩ := Deleting.Orphan.run rest (t := t') ⟨⟨data, hc⟩, hrow⟩
      refine iff_of_false ?_ ?_
      · intro hagree
        rcases hagree with ⟨hnone, -⟩ | ⟨-, row, -, hsome, -⟩
        · rw [hnone] at hc'
          cases hc'
        · rw [hrow'] at hsome
          cases hsome
      · intro hrec
        cases (hrec (some err) rest rfl).1
    | none =>
      simp only [if_true, Option.map_eq_some_iff] at hrow
      obtain ⟨row, hrow, hempty⟩ := hrow
      obtain ⟨data', row', hc', hrow', hhist⟩ := Deleting.Live.run_row rest hc hrow
      have hfinal : DeleteAgrees w key (Lib.run (Deleting.call w key) t' rest) ↔
          ∀ msgs, (Lib.run (Deleting.call w key) t' rest).saved = some msgs →
            row'.history = msgs := by
        constructor
        · intro hagree
          rcases hagree with ⟨hnone, -⟩ | ⟨-, row'', -, hsome, hmsgs⟩
          · rw [hnone] at hc'
            cases hc'
          · rw [hrow'] at hsome
            cases hsome
            exact hmsgs
        · intro hmsgs
          exact Or.inr ⟨data', row', hc', hrow', hmsgs⟩
      rw [hfinal]
      by_cases hin : .save none ∈ rest
      · rw [if_pos hin] at hhist
        refine iff_of_true ?_ ?_
        · intro msgs hs
          rw [hhist] at hs
          exact Option.some.inj hs
        · intro exec' rest' he
          cases he
          exact ⟨rfl, Or.inl hin⟩
      · rw [if_neg hin] at hhist
        rw [hhist.1, hhist.2, hempty, hsaved]
        constructor
        · intro hmsgs exec' rest' he
          cases he
          refine ⟨rfl, Or.inr ?_⟩
          cases hsv : t.saved with
          | none => rfl
          | some msgs => exact (hmsgs msgs hsv).symm
        · intro hrec msgs hs
          obtain ⟨-, hor⟩ := hrec none rest rfl
          rw [hs] at hor
          simpa [hin] using hor.symm

end

/-- Cache and table agree after a schedule exactly when no call between
the two steps of `Delete` loads the row again, and a session created anew
after them gets its row and is saved. -/
theorem delete_agrees_iff (w : WorkspaceID) (key : String) (live : LiveSession w key)
    (before between after : List SessionCall) :
    DeleteAgrees w key ((Deleting.mk live.store none).schedule w key before between after) ↔
      (∀ c ∈ between, c.LeavesUncached)
        ∧ Recreates (Lib.run (Deleting.call w key) ⟨live.store, none⟩ before).saved after := by
  unfold Deleting.schedule
  have hlive : (Lib.run (Deleting.call w key) ⟨live.store, none⟩ before).Live w key :=
    Deleting.Live.run before ⟨⟨live.data, live.cached⟩, live.row, live.stored⟩
  generalize Lib.run (Deleting.call w key) ⟨live.store, none⟩ before = t at hlive
  have hevicted := hlive.evict
  by_cases hb : ∀ c ∈ between, c.LeavesUncached
  · rw [hevicted.run_same between hb]
    have habsent : ((t.evict w key).remove w key).Absent w key :=
      ⟨hevicted.1, find_remove _⟩
    rw [deleteAgrees_of_absent after habsent]
    exact (and_iff_right hb).symm
  · -- the session is cached when the row goes, and stays an orphan
    obtain ⟨hc, -⟩ := hevicted.run_live between hb
    obtain ⟨⟨data, hc'⟩, hrow⟩ := Deleting.Orphan.run after
      (t := (Lib.run (Deleting.call w key) (t.evict w key) between).remove w key)
      ⟨hc, find_remove _⟩
    refine iff_of_false ?_ (fun h => hb h.1)
    intro hagree
    rcases hagree with ⟨hnone, -⟩ | ⟨-, row, -, hsome, -⟩
    · rw [hnone] at hc'
      cases hc'
    · rw [hrow] at hsome
      cases hsome

/-! ### A read between the two steps -/

/-- The greeted session, opened by a run. -/
def greetedSession : LiveSession defaultWorkspaceID "s1" where
  store := ((newMySQLSessionStore greetedTable).getOrCreate defaultWorkspaceID "s1" "alice" "user"
    none none).1
  data := _
  row := _
  cached := rfl
  stored := rfl

/-- `GetHistory` comes between the two steps; the message that is then
added and saved without error has no row. -/
theorem read_during_delete_orphans :
    ¬ DeleteAgrees defaultWorkspaceID "s1"
      ((Deleting.mk greetedSession.store none).schedule defaultWorkspaceID "s1" []
        [.getHistory none]
        [.addMessage (textMessage .user "are you there?") none none, .save none]) := by
  intro h
  rcases h with ⟨hnone, -⟩ | ⟨-, row, -, hsome, -⟩
  · exact absurd hnone (by decide)
  · have hmissing : (((Deleting.mk greetedSession.store none).schedule defaultWorkspaceID "s1" []
        [.getHistory none]
        [.addMessage (textMessage .user "are you there?") none none,
          .save none]).store.db.find (defaultWorkspaceID, "s1")) = none := by decide
    rw [hmissing] at hsome
    cases hsome

end LendingClaw.Store
