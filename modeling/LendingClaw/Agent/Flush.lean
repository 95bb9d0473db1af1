/-
LendingClaw.Agent.Flush — the messages of a run on their way into the
session (`internal/agent/loop.go`, step 6 of `runLoop`).

A run ends with a loop of `AddMessage` calls, one for each pending
message, each under its own lock. Any number of runs of one session
flush, truncate, save and read at the same time; a schedule is any
interleaving of these calls. A run's messages stay together in every
schedule in which no other run adds a message, and nobody replaces the
history, between the first and the last of its calls.
-/
import LendingClaw.Store.SessionsTheorems

namespace LendingClaw.Agent

open LendingClaw.Providers LendingClaw.Store

/-! ## Tool calls and their results -/

/-- The list goes on with one tool result for each call of `a`. -/
def Answered (a : Message) (rest : List Message) : Prop :=
  ∃ results after, rest = results ++ after ∧ (∀ r ∈ results, r.role = .tool)
    ∧ (results.map Message.toolCallID).Perm (a.toolCalls.map ToolCall.id)

/-- Every assistant message with tool calls is directly followed by its
tool results. -/
def ResultsFollow : List Message → Prop
  | [] => True
  | a :: rest => (a.role = .assistant → a.toolCalls ≠ [] → Answered a rest) ∧ ResultsFollow rest

theorem Answered.append {a : Message} {rest : List Message} (h : Answered a rest)
    (more : List Message) : Answered a (rest ++ more) := by
  obtain ⟨results, after, rfl, hrole, hperm⟩ := h
  exact ⟨results, after ++ more, by simp, hrole, hperm⟩

theorem ResultsFollow.append {xs ys : List Message} (hx : ResultsFollow xs)
    (hy : ResultsFollow ys) : ResultsFollow (xs ++ ys) := by
  induction xs with
  | nil => exact hy
  | cons a xs ih =>
    obtain ⟨ha, hxs⟩ := hx
    exact ⟨fun hr hc => (ha hr hc).append ys, ih hxs⟩

theorem ResultsFollow.drop {xs : List Message} (h : ResultsFollow xs) (n : Nat) :
    ResultsFollow (xs.drop n) := by
  induction n generalizing xs with
  | zero => exact h
  | succ n ih =>
    cases xs with
    | nil => exact h
    | cons a xs => exact ih h.2

theorem ResultsFollow.flatten {blocks : List (List Message)}
    (h : ∀ b ∈ blocks, ResultsFollow b) : ResultsFollow blocks.flatten := by
  induction blocks with
  | nil => trivial
  | cons b blocks ih =>
    rw [List.flatten_cons]
    exact (h b List.mem_cons_self).append (ih (fun b' hb' => h b' (List.mem_cons_of_mem _ hb')))

/-! ## Schedules -/

/-- A call on the session. The run with a number adds its next pending
message. -/
inductive FlushStep where
  | flush (run : Nat) (query exec : Fault)
  | getHistory (query : Fault)
  | truncateHistory (keepLast : Int)
  | setMessages (msgs : List Message) (query exec : Fault)
  | save (exec : Fault)

/-- The store, and how many messages each run has flushed. The rest
records what the session was given since the start or the last
`SetMessages`: the list it began with, the runs completed, all messages
in order, and how many of the first ones truncations took away. -/
structure Flushing where
  store : MySQLSessionStore
  progress : Nat → Nat
  base : List Message
  completed : List Nat
  given : List Message
  dropped : Nat

section
variable (w : WorkspaceID) (key : String) (pendingMsgs : Nat → List Message)

def Flushing.step (t : Flushing) : FlushStep → Flushing
  | .flush run query exec =>
    match (pendingMsgs run)[t.progress run]? with
    | none => t
    | some msg =>
      { t with
        store := t.store.addMessage w key msg query exec
        progress := fun j => if j = run then t.progress run + 1 else t.progress j
        completed :=
          if t.progress run + 1 = (pendingMsgs run).length then t.completed ++ [run]
          else t.completed
        given := t.given ++ [msg] }
  | .getHistory query => { t with store := (t.store.getHistory w key query).1 }
  | .truncateHistory keepLast =>
    let store := t.store.truncateHistory w key keepLast
    { t with
      store := store
      dropped := t.dropped
        + ((t.store.history w key).length - (store.history w key).length) }
  | .setMessages msgs query exec =>
    { t with
      store := t.store.setMessages w key msgs query exec
      base := msgs
      completed := []
      given := msgs
      dropped := 0 }
  | .save exec => { t with store := (t.store.save w key exec).1 }

/-- The run has flushed some of its messages and not all. -/
def MidFlush (t : Flushing) (run : Nat) : Prop :=
  0 < t.progress run ∧ t.progress run < (pendingMsgs run).length

/-- The history is what the session was given, less what was truncated;
each completed run is one contiguous part of it; and with no flush under
way it is the concatenation of whole runs, in which tool results follow
their calls if they do in each run. -/
def RunsContiguous (t : Flushing) : Prop :=
  t.store.history w key = t.given.drop t.dropped
    ∧ (∀ run ∈ t.completed, pendingMsgs run <:+: t.given)
    ∧ ((∀ run, ¬ MidFlush pendingMsgs t run) →
      t.given = t.base ++ (t.completed.map pendingMsgs).flatten
      ∧ (ResultsFollow t.base → (∀ run, ResultsFollow (pendingMsgs run)) →
          ResultsFollow (t.store.history w key)))

/-- While a run is in the middle of its flush, no other run adds a message
and nobody replaces the history. -/
def FlushesApart (t : Flushing) : FlushStep → Prop
  | .flush run _ _ => ∀ other, other ≠ run → ¬ MidFlush pendingMsgs t other
  | .setMessages .. => ∀ run, ¬ MidFlush pendingMsgs t run
  | _ => True

end

/-! ## The invariant -/

/-- A session that a run has opened. -/
structure OpenSession (w : WorkspaceID) (key : String) where
  store : MySQLSessionStore
  data : SessionData
  cached : store.cached w key = some data

/-- No run has flushed anything yet. -/
def Flushing.start {w : WorkspaceID} {key : String} (s : OpenSession w key) : Flushing :=
  { store := s.store
    progress := fun _ => 0
    base := s.data.messages
    completed := []
    given := s.data.messages
    dropped := 0 }

structure Flushing.Inv (w : WorkspaceID) (key : String) (pendingMsgs : Nat → List Message)
    (t : Flushing) : Prop where
  cached : t.store.Holds w key (t.given.drop t.dropped)
  inRange : t.dropped ≤ t.given.length
  shape : ∃ part, t.given = t.base ++ (t.completed.map pendingMsgs).flatten ++ part
    ∧ ((part = [] ∧ ∀ run, ¬ MidFlush pendingMsgs t run)
      ∨ ∃ run, MidFlush pendingMsgs t run ∧ part = (pendingMsgs run).take (t.progress run)
        ∧ ∀ other, other ≠ run → ¬ MidFlush pendingMsgs t other)

section
variable {w : WorkspaceID} {key : String} {pendingMsgs : Nat → List Message} {t : Flushing}

theorem Flushing.inv_start (s : OpenSession w key) : (Flushing.start s).Inv w key pendingMsgs where
  cached := ⟨s.data, s.cached, rfl⟩
  inRange := Nat.zero_le _
  shape := ⟨[], by simp [Flushing.start], Or.inl ⟨rfl, by simp [MidFlush, Flushing.start]⟩⟩

/-- What the truncation leaves is what it drops the beginning of. -/
theorem keepLastMessages_eq_drop (keepLast : Int) (msgs : List Message) :
    keepLastMessages keepLast msgs
      = msgs.drop (msgs.length - (keepLastMessages keepLast msgs).length) := by
  unfold keepLastMessages
  split
  · simp
  · split
    · rw [List.length_drop]
      congr 1
      omega
    · simp

/-- Before the next message of a run that flushes alone, the session ends
with the ones it has flushed. -/
theorem Flushing.Inv.alone (h : t.Inv w key pendingMsgs) {run : Nat}
    (hnext : t.progress run < (pendingMsgs run).length)
    (halone : ∀ other, other ≠ run → ¬ MidFlush pendingMsgs t other) :
    t.given = t.base ++ (t.completed.map pendingMsgs).flatten
      ++ (pendingMsgs run).take (t.progress run) := by
  obtain ⟨part, hgiven, hpart⟩ := h.shape
  rcases hpart with ⟨rfl, hquiet⟩ | ⟨run', hmid, rfl, -⟩
  · have hzero : t.progress run = 0 := by
      by_contra hne
      exact hquiet run ⟨by omega, hnext⟩
    rw [hgiven, hzero, List.take_zero]
  · have hrun : run' = run := by
      by_contra hne
      exact halone run' hne hmid
    rw [hgiven, hrun]

theorem Flushing.Inv.flush (h : t.Inv w key pendingMsgs) (run : Nat) (query exec : Fault)
    (hok : FlushesApart pendingMsgs t (.flush run query exec)) :
    (t.step w key pendingMsgs (.flush run query exec)).Inv w key pendingMsgs := by
  simp only [Flushing.step]
  cases hmsg : (pendingMsgs run)[t.progress run]? with
  | none => exact h
  | some msg =>
    have hlt : t.progress run < (pendingMsgs run).length :=
      (List.getElem?_eq_some_iff.mp hmsg).1
    have hgiven := h.alone hlt hok
    have htake : (pendingMsgs run).take (t.progress run + 1)
        = (pendingMsgs run).take (t.progress run) ++ [msg] := by
      rw [List.take_add_one, hmsg]
      rfl
    have hother : ∀ other, other ≠ run → ¬ MidFlush pendingMsgs
        { t with progress := fun j => if j = run then t.progress run + 1 else t.progress j }
        other := by
      intro other hne hmid
      simp only [MidFlush, if_neg hne] at hmid
      exact hok other hne hmid
    constructor
    · rw [List.drop_append_of_le_length h.inRange]
      exact h.cached.addMessage msg query exec
    · simp only [List.length_append, List.length_singleton]
      exact Nat.le_succ_of_le h.inRange
    · by_cases hlast : t.progress run + 1 = (pendingMsgs run).length
      · -- the run is complete: what it flushed is all of its messages
        have hall : (pendingMsgs run).take (t.progress run) ++ [msg] = pendingMsgs run := by
          rw [← htake, hlast, List.take_length]
        refine ⟨[], ?_, Or.inl ⟨rfl, ?_⟩⟩
        · simp only [if_pos hlast, hgiven, List.map_append, List.map_cons, List.map_nil,
            List.flatten_append, List.flatten_cons, List.flatten_nil, List.append_nil,
            List.append_assoc, hall]
        · intro other hmid
          by_cases hne : other = run
          · subst hne
            simp only [MidFlush, if_true] at hmid
            omega
          · exact hother other hne hmid
      · refine ⟨_, ?_, Or.inr ⟨run, ?_, rfl, hother⟩⟩
        · simp only [if_neg hlast, if_true, htake, hgiven, List.append_assoc]
        · simp only [MidFlush, if_true]
          omega

theorem Flushing.Inv.truncateHistory (h : t.Inv w key pendingMsgs) (keepLast : Int) :
    (t.step w key pendingMsgs (.truncateHistory keepLast)).Inv w key pendingMsgs := by
  have hholds : (t.store.truncateHistory w key keepLast).Holds w key
      (keepLastMessages keepLast (t.given.drop t.dropped)) := h.cached.ifCached (fun _ => rfl)
  have hlen : (keepLastMessages keepLast (t.given.drop t.dropped)).length
      ≤ (t.given.drop t.dropped).length := by
    have heq := congrArg List.length
      (keepLastMessages_eq_drop keepLast (t.given.drop t.dropped))
    rw [List.length_drop] at heq
    omega
  constructor
  · simp only [Flushing.step, h.cached.history, hholds.history]
    rw [← List.drop_drop, ← keepLastMessages_eq_drop]
    exact hholds
  · simp only [Flushing.step, h.cached.history, hholds.history]
    have hin := h.inRange
    rw [List.length_drop] at hlen ⊢
    omega
  · exact h.shape

theorem Flushing.Inv.setMessages (h : t.Inv w key pendingMsgs) (msgs : List Message)
    (query exec : Fault) (hok : FlushesApart pendingMsgs t (.setMessages msgs query exec)) :
    (t.step w key pendingMsgs (.setMessages msgs query exec)).Inv w key pendingMsgs where
  cached := by
    obtain ⟨data, hc, -⟩ := h.cached
    exact ⟨{ data with messages := msgs }, by
      simp [Flushing.step, MySQLSessionStore.setMessages, MySQLSessionStore.withInit,
        MySQLSessionStore.getOrInit, hc], rfl⟩
  inRange := Nat.zero_le _
  shape := ⟨[], by simp [Flushing.step], Or.inl ⟨rfl, hok⟩⟩

theorem Flushing.inv_step (t : Flushing) (a : FlushStep) (h : t.Inv w key pendingMsgs)
    (hok : FlushesApart pendingMsgs t a) :
    (t.step w key pendingMsgs a).Inv w key pendingMsgs := by
  cases a with
  | flush run query exec => exact h.flush run query exec hok
  | getHistory query =>
    have hget : (t.store.getHistory w key query).1 = t.store := by rw [h.cached.getHistory]
    simp only [Flushing.step, hget]
    exact h
  | truncateHistory keepLast => exact h.truncateHistory keepLast
  | setMessages msgs query exec => exact h.setMessages msgs query exec hok
  | save exec => exact ⟨h.cached.save exec, h.inRange, h.shape⟩

theorem Flushing.Inv.runsContiguous (h : t.Inv w key pendingMsgs) :
    RunsContiguous w key pendingMsgs t := by
  obtain ⟨part, hgiven, hpart⟩ := h.shape
  refine ⟨h.cached.history, ?_, ?_⟩
  · intro run hrun
    have hin : pendingMsgs run <:+: (t.completed.map pendingMsgs).flatten :=
      List.infix_of_mem_flatten (List.mem_map_of_mem hrun)
    rw [hgiven, List.append_assoc]
    exact (hin.trans (List.prefix_append _ part).isInfix).trans
      (List.suffix_append t.base _).isInfix
  · intro hquiet
    have hwhole : t.given = t.base ++ (t.completed.map pendingMsgs).flatten := by
      rcases hpart with ⟨rfl, -⟩ | ⟨run, hmid, -⟩
      · rw [hgiven, List.append_nil]
      · exact absurd hmid (hquiet run)
    refine ⟨hwhole, ?_⟩
    intro hbase hruns
    rw [h.cached.history, hwhole]
    apply ResultsFollow.drop
    apply hbase.append
    apply ResultsFollow.flatten
    intro b hb
    obtain ⟨run, -, rfl⟩ := List.mem_map.mp hb
    exact hruns run

end

/-- A new session. -/
def freshSession : OpenSession defaultWorkspaceID "s1" where
  store := ((newMySQLSessionStore Lib.Table.empty).getOrCreate defaultWorkspaceID "s1" "alice"
    "user" none none).1
  data := newSession "s1" "alice"
  cached := rfl

/-- Each of two runs answers one message. -/
def twoRuns : Nat → List Message
  | 0 => [textMessage .user "what is the rate?", textMessage .assistant "4%"]
  | 1 => [textMessage .user "and the fee?", textMessage .assistant "none"]
  | _ => []

end LendingClaw.Agent
