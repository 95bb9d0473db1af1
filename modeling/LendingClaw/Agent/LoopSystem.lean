/-
LendingClaw.Agent.LoopSystem — the system message in the requests of a
run.

Until a compaction replaces the list, a request is the first one with
the later messages of the turn behind it. A compacted list begins with
its summary, a user message, and nothing puts the system message back:
`system_kept_iff` is an equivalence, up to compactions that no further
request follows.
-/
import LendingClaw.Agent.Loop

namespace LendingClaw.Agent

open LendingClaw.Providers

/-! ## The law and its condition -/

/-- The request starts with the system message, has it nowhere else, and
ends with messages of the current turn. -/
def SystemKept (r : RunInput) (sent : Sent) : Prop :=
  sent.request.messages.head? = some r.systemMessage
    ∧ sent.request.messages.count r.systemMessage = 1
    ∧ ∃ recent, recent ≠ [] ∧ recent <:+ sent.turn ∧ recent <:+ sent.request.messages

/-- The iteration replaces the list by a compacted one, and goes on to
tool calls that do not end the loop. -/
def CompactsAndGoesOn (l : Loop) (st : LoopState) (turn : Turn) : Prop :=
  st.ended = none ∧ ∃ resp, turn.resp = .ok resp
    ∧ l.TriesCompaction st resp ∧ compactSplit st.messages ≠ none ∧ turn.compaction ≠ none
    ∧ resp.toolCalls ≠ []
    ∧ (l.execute st.loopDetector turn.forLLM resp.toolCalls).critical = none

/-! ## The first request -/

/-- The pipeline has as many copies of the system message as the history
it starts from. -/
theorem count_pipeline (l : Loop) (r : RunInput) :
    (l.pipeline r).count r.systemMessage
      = (limitHistoryTurns r.history r.historyLimit).count r.systemMessage := by
  have hfilter : ∀ msgs : List Message,
      (msgs.filter (fun m => m.role ≠ .tool)).count r.systemMessage
        = msgs.count r.systemMessage := fun msgs => List.count_filter rfl
  rw [← hfilter, Loop.pipeline, sanitizeHistory, sanitizeFrom_others, pruneContextMessages_others,
    hfilter]

theorem count_others {r : RunInput} {msgs : List Message} (h : ∀ m ∈ msgs, m.role ≠ .system) :
    msgs.count r.systemMessage = 0 := by
  rw [List.count_eq_zero]
  exact fun hin => h _ hin rfl

theorem count_buildMessages (l : Loop) (r : RunInput) :
    (l.buildMessages r).count r.systemMessage
      = 1 + (limitHistoryTurns r.history r.historyLimit).count r.systemMessage := by
  have hsummary : (summaryMessages r.summary).count r.systemMessage = 0 :=
    count_others (background_roles _ _ _)
  have hmemory : (memoryMessages r.memoryBlock).count r.systemMessage = 0 :=
    count_others (background_roles _ _ _)
  have hlast : [textMessage .user r.message].count r.systemMessage = 0 :=
    count_others (by simp [textMessage])
  simp only [Loop.buildMessages, List.count_append, hsummary, hmemory, hlast, count_pipeline,
    List.count_singleton_self, Nat.add_zero]

/-! ## One iteration -/

/-- What the loop is about to send. -/
def LoopState.next (st : LoopState) : Sent :=
  { request := { messages := st.messages, maxTokens := 16384 }, turn := st.pendingMsgs }

/-- The system message is kept so far, the next request included. -/
def KeptSoFar (r : RunInput) (st : LoopState) : Prop :=
  (∀ sent ∈ st.requests, SystemKept r sent) ∧ (st.ended = none → SystemKept r st.next)

/-- No compaction so far: the list is the first one, with the later
messages of the turn behind it. -/
structure Uncompacted (l : Loop) (r : RunInput) (st : LoopState) : Prop where
  sent : ∀ sent ∈ st.requests, SystemKept r sent
  grown : st.ended = none → ∃ rest, st.messages = l.buildMessages r ++ rest
    ∧ st.pendingMsgs = textMessage .user r.message :: rest ∧ ∀ m ∈ rest, m.role ≠ .system

/-- No copy of the system message in what is left of the history. -/
def NoCopy (r : RunInput) : Prop :=
  r.systemMessage ∉ limitHistoryTurns r.history r.historyLimit

section
variable {l : Loop} {r : RunInput} {st : LoopState} {turn : Turn}

theorem Uncompacted.keptSoFar (hcopy : NoCopy r) (h : Uncompacted l r st) : KeptSoFar r st := by
  refine ⟨h.sent, ?_⟩
  intro hended
  obtain ⟨rest, hmessages, hpending, hroles⟩ := h.grown hended
  refine ⟨?_, ?_, st.pendingMsgs, ?_, List.suffix_refl _, ?_⟩
  · simp [LoopState.next, hmessages, Loop.buildMessages]
  · show st.messages.count r.systemMessage = 1
    rw [hmessages, List.count_append, count_buildMessages, count_others hroles,
      List.count_eq_zero.mpr hcopy]
  · rw [hpending]
    exact List.cons_ne_nil _ _
  · show st.pendingMsgs <:+ st.messages
    rw [hmessages, hpending, Loop.buildMessages, List.append_assoc]
    exact List.suffix_append _ _

/-- What an iteration sends was the next request before it. -/
theorem requests_kept_iff : (∀ sent ∈ (l.iterate st turn).requests, SystemKept r sent)
    ↔ KeptSoFar r st := by
  by_cases hended : st.ended = none
  · rw [iterate_requests hended]
    constructor
    · intro h
      refine ⟨fun sent hin => h sent (List.mem_append_left _ hin), fun _ => ?_⟩
      exact h st.next (List.mem_append_right _ List.mem_cons_self)
    · intro h sent hsent
      rcases List.mem_append.mp hsent with hsent | hsent
      · exact h.1 sent hsent
      · cases List.mem_singleton.mp hsent
        exact h.2 hended
  · rw [iterate_ended hended]
    exact ⟨fun h => ⟨h, fun hnone => absurd hnone hended⟩, fun h => h.1⟩

theorem execute_roles (s : ToolLoopState) (forLLM : Nat → String) (calls : List ToolCall) :
    ∀ m ∈ (l.execute s forLLM calls).msgs, m.role ≠ .system := by
  intro m hm hsystem
  rw [execute_eq] at hm
  rcases collect_roles calls 0 s m hm with hrole | hrole
  · rw [hrole] at hsystem
    cases hsystem
  · rw [hrole] at hsystem
    cases hsystem

theorem compactMessagesInPlace_isSome {messages : List Message} {reply : Option String}
    (hsplit : compactSplit messages ≠ none) (hreply : reply ≠ none) :
    ∃ compacted, compactMessagesInPlace l.sanitize messages reply = some compacted := by
  obtain ⟨splitIdx, hsplit⟩ := Option.ne_none_iff_exists'.mp hsplit
  obtain ⟨content, rfl⟩ := Option.ne_none_iff_exists'.mp hreply
  rw [compactMessagesInPlace, hsplit]
  exact ⟨_, rfl⟩

/-- The list after an attempt to compact: as before, or compacted. -/
theorem compact_messages (l : Loop) (st : LoopState) (resp : ChatResponse) (reply : Option String) :
    (l.compact st resp reply).messages = st.messages
      ∨ (l.TriesCompaction st resp ∧ compactSplit st.messages ≠ none ∧ reply ≠ none) := by
  rw [Loop.compact]
  by_cases htries : l.TriesCompaction st resp
  · rw [if_pos htries]
    cases hcompacted : compactMessagesInPlace l.sanitize st.messages reply with
    | none => exact Or.inl rfl
    | some compacted =>
      obtain ⟨content, splitIdx, hsplit, hreply, -⟩ := compact_eq hcompacted
      refine Or.inr ⟨htries, ?_, ?_⟩
      · rw [hsplit]
        exact Option.some_ne_none _
      · rw [hreply]
        exact Option.some_ne_none _
  · rw [if_neg htries]
    exact Or.inl rfl

theorem Uncompacted.iterate (hcopy : NoCopy r) (h : Uncompacted l r st)
    (hok : ¬ CompactsAndGoesOn l st turn) : Uncompacted l r (l.iterate st turn) := by
  by_cases hended : st.ended = none
  · refine ⟨requests_kept_iff.mpr (h.keptSoFar hcopy), ?_⟩
    intro hnext
    obtain ⟨resp, hresp, hne, hcritical⟩ := calls_of_goes_on hended hnext
    obtain ⟨hlist, hturn, -⟩ := iterate_calls (l := l) hended hresp hne
    obtain ⟨rest, hmessages, hpending, hroles⟩ := h.grown hended
    have hsame : (l.compact st.send resp turn.compaction).messages = st.messages := by
      rcases compact_messages l st.send resp turn.compaction with hsame | hdone
      · exact hsame
      · obtain ⟨htries, hsplit, hreply⟩ := hdone
        exact absurd ⟨hended, resp, hresp, htries, hsplit, hreply, hne, hcritical⟩ hok
    refine ⟨rest ++ assistantMessage resp
      :: (l.execute st.loopDetector turn.forLLM resp.toolCalls).msgs, ?_, ?_, ?_⟩
    · rw [hlist, hsame, hmessages, List.append_assoc]
    · rw [hturn, hpending, List.cons_append]
    · intro m hm
      rcases List.mem_append.mp hm with hm | hm
      · exact hroles m hm
      · cases hm with
        | head => exact (by decide : Role.assistant ≠ Role.system)
        | tail _ hm => exact execute_roles _ _ _ m hm
  · rw [iterate_ended hended]
    exact h

/-- After a compaction the next request has lost the system message. -/
theorem not_keptSoFar_of_compacts (h : CompactsAndGoesOn l st turn) :
    ¬ KeptSoFar r (l.iterate st turn) := by
  obtain ⟨hended, resp, hresp, htries, hsplit, hreply, hne, hcritical⟩ := h
  obtain ⟨compacted, hcompacted⟩ := compactMessagesInPlace_isSome (l := l) hsplit hreply
  obtain ⟨content, hhead⟩ := compact_head hcompacted
  obtain ⟨hlist, -, hnext⟩ := iterate_calls (l := l) hended hresp hne
  have hcompact : (l.compact st.send resp turn.compaction).messages = compacted := by
    have htries' : l.TriesCompaction st.send resp := htries
    rw [Loop.compact, if_pos htries']
    show (compactMessagesInPlace l.sanitize st.messages turn.compaction).getD _ = _
    rw [hcompacted]
    rfl
  rintro ⟨-, hkept⟩
  have hfirst := (hkept (hnext.trans (Option.map_eq_none_iff.mpr hcritical))).1
  simp only [LoopState.next, hlist, hcompact, List.head?_append, hhead] at hfirst
  cases hfirst

/-! ## Whole runs -/

theorem uncompacted_start (l : Loop) (r : RunInput) : Uncompacted l r (l.start r) where
  sent := fun _ hsent => nomatch hsent
  grown := fun _ => ⟨[], (List.append_nil _).symm, rfl, fun _ hm => nomatch hm⟩

/-- Without a copy in the history, the compactions decide. -/
theorem kept_iff_uncompacted (hcopy : NoCopy r) (env : Nat → Turn) :
    (∀ sent ∈ (l.runLoop r env).requests, SystemKept r sent)
      ↔ Lib.Along (fun st turn => ¬ CompactsAndGoesOn l st turn) l.iterate (l.start r)
        (turns env (l.maxIterations - 1)) := by
  have hstep : ∀ st turn, Uncompacted l r st → ¬ CompactsAndGoesOn l st turn →
      Uncompacted l r (l.iterate st turn) := fun st turn h hok => h.iterate hcopy hok
  have hkept : ∀ st, Uncompacted l r st → KeptSoFar r st := fun st h => h.keptSoFar hcopy
  have hlost : ∀ st turn, Uncompacted l r st → ¬ ¬ CompactsAndGoesOn l st turn →
      ¬ KeptSoFar r (l.iterate st turn) :=
    fun st turn _ hbad => not_keptSoFar_of_compacts (not_not.mp hbad)
  have hstay : ∀ st turn, ¬ KeptSoFar r st → ¬ KeptSoFar r (l.iterate st turn) :=
    fun st turn hbad h => hbad (requests_kept_iff.mp h.1)
  have hrun : ∀ n, KeptSoFar r (Lib.run l.iterate (l.start r) (turns env n))
      ↔ Lib.Along (fun st turn => ¬ CompactsAndGoesOn l st turn) l.iterate (l.start r)
        (turns env n) :=
    fun n => Lib.run_iff_along hstep hkept hlost hstay (fun _ h => h) (turns env n) (l.start r)
      (uncompacted_start l r)
  obtain ⟨n, hn⟩ := Nat.exists_eq_succ_of_ne_zero (Nat.pos_iff_ne_zero.mp l.iterates)
  rw [Loop.runLoop, hn, turns_last, Lib.run_append, Lib.run_cons, Lib.run_nil, requests_kept_iff]
  exact hrun n

end

/-- Every request of a run keeps the system message exactly when the
history has no copy of it and no iteration before the last compacts the
list and goes on. -/
theorem system_kept_iff (l : Loop) (r : RunInput) (env : Nat → Turn) :
    (∀ sent ∈ (l.runLoop r env).requests, SystemKept r sent)
      ↔ NoCopy r ∧ Lib.Along (fun st turn => ¬ CompactsAndGoesOn l st turn) l.iterate (l.start r)
        (turns env (l.maxIterations - 1)) := by
  constructor
  · intro h
    have hcopy : NoCopy r := by
      obtain ⟨sent, hsent, hfirst⟩ := first_request l r env
      have hcount := (h sent hsent).2.1
      rw [hfirst, count_buildMessages] at hcount
      exact List.count_eq_zero.mp (by omega)
    exact ⟨hcopy, (kept_iff_uncompacted hcopy env).mp h⟩
  · rintro ⟨hcopy, huncompacted⟩
    exact (kept_iff_uncompacted hcopy env).mpr huncompacted

/-! ### A compaction in the first iteration -/

/-- The third question of a session. -/
def thirdQuestion : RunInput :=
  { firstMessage with
    history :=
      [textMessage .user "Hello.", textMessage .assistant "Hello, how can I help?",
        textMessage .user "What is the rate?", textMessage .assistant "4%."] }

/-- The first response fills the context window and calls a tool. -/
def fullWindowEnv : Nat → Turn
  | 0 =>
    { resp := .ok
        { content := ""
          toolCalls := [{ id := "c1", name := "list_loans", arguments := { json := "\x7b\x7d" } }]
          finishReason := "tool_calls"
          usage := some
            { promptTokens := 150000
              completionTokens := 20
              totalTokens := 150020
              cacheCreationTokens := 0
              cacheReadTokens := 0 } }
      compaction := some "The user asked for the rate: 4%."
      forLLM := fun _ => "no loans" }
  | _ =>
    { resp := .ok { content := "None.", toolCalls := [], finishReason := "stop", usage := none }
      compaction := none
      forLLM := fun _ => "" }

/-- The second request begins with the summary. -/
theorem compaction_loses_system :
    ¬ ∀ sent ∈ (defaultLoop.runLoop thirdQuestion fullWindowEnv).requests,
      SystemKept thirdQuestion sent := by
  intro h
  have hcopy : NoCopy thirdQuestion := by
    rw [NoCopy]
    decide
  have hcompacts := (kept_iff_uncompacted hcopy fullWindowEnv).mp h
  rw [show defaultLoop.maxIterations - 1 = 18 + 1 from rfl, turns_succ] at hcompacts
  apply hcompacts.1
  refine ⟨rfl, _, rfl, ?_, ?_, ?_, ?_, ?_⟩
  · decide
  · decide
  · decide
  · decide
  · decide

end LendingClaw.Agent
