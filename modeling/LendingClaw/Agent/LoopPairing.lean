/-
LendingClaw.Agent.LoopPairing — tool calls and results in the requests of
a run.

Every way the list grows or shrinks keeps it paired, but one: when a
response has several calls and the loop detector speaks up before the
last of them, a warning or the end of the run cuts the results short.
Nothing repairs that, so `requests_paired_iff` is an equivalence.
-/
import LendingClaw.Agent.Loop

namespace LendingClaw.Agent

open LendingClaw.Providers

/-! ## The law and its condition -/

/-- Every request, and what the run flushes, is paired. -/
def ProtocolWellFormed (l : Loop) (st : LoopState) : Prop :=
  (∀ sent ∈ st.requests, Paired sent.request.messages)
    ∧ (∀ req ∈ st.compactions, Paired req.messages)
    ∧ ∀ msgs ∈ l.flushed st, Paired msgs

/-- In an iteration with several calls, the detector is silent on all but
the last. -/
def QuietGuard (l : Loop) (st : LoopState) (turn : Turn) : Prop :=
  st.ended = none → ∀ resp, turn.resp = .ok resp →
    QuietBefore l.hashes turn.forLLM resp.toolCalls 0 st.loopDetector

/-! ## The first request -/

/-- Only messages that are no results matter, and pruning keeps them. -/
theorem distinctIds_filter (msgs : List Message) :
    DistinctIds (msgs.filter (fun m => m.role ≠ .tool)) ↔ DistinctIds msgs := by
  constructor
  · intro h m hm hcalling
    exact h m (List.mem_filter.mpr ⟨hm, by simpa using hcalling.not_tool⟩) hcalling
  · intro h m hm hcalling
    exact h m (List.mem_filter.mp hm).1 hcalling

theorem distinctIds_prune (msgs : List Message) (contextWindow : Int) (cfg : PruningConfig) :
    DistinctIds (pruneContextMessages msgs contextWindow cfg) ↔ DistinctIds msgs := by
  rw [← distinctIds_filter, pruneContextMessages_others, distinctIds_filter]

/-- The first request is paired exactly when the history has no repeated
id. -/
theorem buildMessages_paired_iff (l : Loop) (r : RunInput) :
    Paired (l.buildMessages r) ↔ DistinctIds (limitHistoryTurns r.history r.historyLimit) := by
  have hsystem : Paired [r.systemMessage] := paired_textMessage (by decide) _
  have hsummary : Paired (summaryMessages r.summary) := background_paired _ _ _
  have hmemory : Paired (memoryMessages r.memoryBlock) := background_paired _ _ _
  have hfirst := (hsystem.append hsummary).append hmemory
  have hlast : Paired [textMessage .user r.message] := paired_textMessage (by decide) _
  rw [← distinctIds_prune _ l.contextWindow l.pruningCfg]
  constructor
  · intro h
    have hall := h.counts
    simp only [Loop.buildMessages, resultCount_append _ [textMessage .user r.message],
      callCount_append _ [textMessage .user r.message], resultCount_append _ (l.pipeline r),
      callCount_append _ (l.pipeline r), hfirst.counts, hlast.counts] at hall
    apply distinctIds_of_sanitized
    show resultCount (l.pipeline r) = callCount (l.pipeline r)
    omega
  · intro h
    exact (hfirst.append (sanitizeHistory_paired r.order h)).append hlast

/-! ## One iteration -/

/-- Paired so far: what was sent, and what is there to be sent or
flushed. -/
structure LoopPaired (st : LoopState) : Prop where
  requests : ∀ sent ∈ st.requests, Paired sent.request.messages
  compactions : ∀ req ∈ st.compactions, Paired req.messages
  messages : Paired st.messages
  pendingMsgs : Paired st.pendingMsgs

theorem LoopPaired.send {st : LoopState} (h : LoopPaired st) : LoopPaired st.send where
  requests := by
    intro sent hsent
    rcases List.mem_append.mp hsent with hsent | hsent
    · exact h.requests sent hsent
    · cases List.mem_singleton.mp hsent
      exact h.messages
  compactions := h.compactions
  messages := h.messages
  pendingMsgs := h.pendingMsgs

theorem LoopPaired.compact {l : Loop} {st : LoopState} (h : LoopPaired st) (resp : ChatResponse)
    (reply : Option String) : LoopPaired (l.compact st resp reply) := by
  rw [Loop.compact]
  split
  · constructor
    · exact h.requests
    · intro req hreq
      rcases List.mem_append.mp hreq with hreq | hreq
      · exact h.compactions req hreq
      · obtain ⟨splitIdx, -, rfl⟩ := Option.map_eq_some_iff.mp (Option.mem_toList.mp hreq)
        exact paired_textMessage (by decide) _
    · cases hcompacted : compactMessagesInPlace l.sanitize st.messages reply with
      | none => exact h.messages
      | some compacted => exact compact_paired h.messages hcompacted
    · exact h.pendingMsgs
  · exact h

/-- The results of all calls, behind their calls. -/
theorem collect_paired {h : ToolHashes} {forLLM : Nat → String} {resp : ChatResponse}
    {s : ToolLoopState} (hne : resp.toolCalls ≠ [])
    (hquiet : QuietBefore h forLLM resp.toolCalls 0 s) :
    Paired (assistantMessage resp :: (collect h forLLM resp.toolCalls 0 s).msgs) := by
  obtain ⟨results, rest, hmsgs, htool, hids, hrest⟩ := collect_quiet hquiet
  have hpaired : Paired rest := by
    clear hmsgs
    induction rest with
    | nil => exact Paired.nil
    | cons m rest ih =>
      obtain ⟨msg, rfl⟩ := hrest m List.mem_cons_self
      exact (paired_textMessage (by decide) msg).append
        (ih fun m' hm' => hrest m' (List.mem_cons_of_mem _ hm'))
  rw [hmsgs]
  exact Paired.calls ⟨rfl, hne⟩ htool (List.Perm.of_eq hids) hpaired

theorem LoopPaired.act {l : Loop} {st : LoopState} (h : LoopPaired st) {resp : ChatResponse}
    {forLLM : Nat → String}
    (hquiet : QuietBefore l.hashes forLLM resp.toolCalls 0 st.loopDetector) :
    LoopPaired (l.act st resp forLLM) := by
  rw [Loop.act]
  by_cases hnil : resp.toolCalls = []
  · rw [if_pos hnil]
    exact ⟨h.requests, h.compactions, h.messages, h.pendingMsgs⟩
  · rw [if_neg hnil, execute_eq]
    have hblock := collect_paired hnil hquiet
    exact ⟨h.requests, h.compactions, h.messages.append hblock, h.pendingMsgs.append hblock⟩

theorem LoopPaired.iterate (l : Loop) (st : LoopState) (turn : Turn) (h : LoopPaired st)
    (hquiet : QuietGuard l st turn) : LoopPaired (l.iterate st turn) := by
  by_cases hended : st.ended = none
  · cases hresp : turn.resp with
    | error err =>
      obtain ⟨text, heq⟩ := iterate_error (l := l) hended hresp
      rw [heq]
      have hsend := h.send
      exact ⟨hsend.requests, hsend.compactions, hsend.messages, hsend.pendingMsgs⟩
    | ok resp =>
      rw [iterate_ok hended hresp]
      apply (h.send.compact resp turn.compaction).act
      rw [(compact_frame l st.send resp turn.compaction).2.2.1]
      exact hquiet hended resp hresp
  · rw [iterate_ended hended]
    exact h

theorem LoopPaired.wellFormed {l : Loop} {st : LoopState} (h : LoopPaired st) :
    ProtocolWellFormed l st := by
  refine ⟨h.requests, h.compactions, ?_⟩
  intro msgs hmsgs
  rcases flushed_cases l st with ⟨hnone, -⟩ | ⟨content, hsome⟩
  · rw [hnone] at hmsgs
    cases hmsgs
  · rw [hsome] at hmsgs
    cases hmsgs
    exact h.pendingMsgs.append (paired_textMessage (by decide) content)

/-! ## Results cut short -/

/-- A list that stays unpaired, whatever is added behind it but results. -/
def Broken (msgs : List Message) : Prop :=
  ∀ more : List Message, (∀ m ∈ more.head?, m.role ≠ .tool) → ¬ Paired (msgs ++ more)

/-- A bad request is out, or one is to be sent and a bad list flushed. -/
def LoopBroken (st : LoopState) : Prop :=
  (∃ sent ∈ st.requests, ¬ Paired sent.request.messages)
    ∨ (Broken st.messages ∧ Broken st.pendingMsgs ∧ ∀ err, st.ended ≠ some (.error err))

theorem collect_broken {h : ToolHashes} {forLLM : Nat → String} {resp : ChatResponse}
    {s : ToolLoopState} (hloud : ¬ QuietBefore h forLLM resp.toolCalls 0 s)
    (msgs : List Message) :
    Broken (msgs ++ assistantMessage resp :: (collect h forLLM resp.toolCalls 0 s).msgs) := by
  obtain ⟨results, rest, hmsgs, hlen, hhead⟩ := collect_loud hloud
  have hne : resp.toolCalls ≠ [] := by
    intro hnil
    rw [hnil] at hlen
    exact absurd hlen (Nat.not_lt_zero _)
  intro more hmore
  rw [hmsgs, List.append_assoc, List.cons_append, List.append_assoc]
  apply not_paired_of_stop ⟨rfl, hne⟩ hlen
  cases rest with
  | nil => exact hmore
  | cons m rest => exact hhead

theorem LoopBroken.of_loud (l : Loop) (st : LoopState) (turn : Turn)
    (hloud : ¬ QuietGuard l st turn) : LoopBroken (l.iterate st turn) := by
  rw [QuietGuard] at hloud
  push Not at hloud
  obtain ⟨hended, resp, hresp, hloud⟩ := hloud
  have hne : resp.toolCalls ≠ [] := by
    intro hnil
    rw [hnil] at hloud
    exact hloud trivial
  obtain ⟨hlist, hpending, hnext⟩ := iterate_calls (l := l) hended hresp hne
  rw [execute_eq] at hlist hpending
  right
  rw [hlist, hpending]
  refine ⟨collect_broken hloud _, collect_broken hloud _, ?_⟩
  intro err herr
  obtain ⟨msg, -, hmsg⟩ := Option.map_eq_some_iff.mp (hnext.symm.trans herr)
  cases hmsg

theorem LoopBroken.iterate (l : Loop) (st : LoopState) (turn : Turn) (h : LoopBroken st) :
    LoopBroken (l.iterate st turn) := by
  by_cases hended : st.ended = none
  · left
    rw [iterate_requests hended]
    rcases h with ⟨sent, hsent, hbad⟩ | ⟨hmessages, -, -⟩
    · exact ⟨sent, List.mem_append_left _ hsent, hbad⟩
    · refine ⟨_, List.mem_append_right _ List.mem_cons_self, ?_⟩
      have hnow := hmessages [] (by simp)
      rwa [List.append_nil] at hnow
  · rw [iterate_ended hended]
    exact h

theorem LoopBroken.not_wellFormed (l : Loop) (st : LoopState) (h : LoopBroken st) :
    ¬ ProtocolWellFormed l st := by
  rintro ⟨hrequests, -, hflushed⟩
  rcases h with ⟨sent, hsent, hbad⟩ | ⟨-, hpending, herr⟩
  · exact hbad (hrequests sent hsent)
  · rcases flushed_cases l st with ⟨-, err, hended⟩ | ⟨content, hsome⟩
    · exact herr err hended
    · exact hpending [textMessage .assistant content] (by simp [textMessage]) (hflushed _ hsome)

/-! ## Whole runs -/

theorem start_paired {l : Loop} {r : RunInput}
    (h : DistinctIds (limitHistoryTurns r.history r.historyLimit)) : LoopPaired (l.start r) where
  requests := fun _ hsent => nomatch hsent
  compactions := fun _ hreq => nomatch hreq
  messages := (buildMessages_paired_iff l r).mpr h
  pendingMsgs := paired_textMessage (by decide) _

/-- From a paired start, the guard decides. -/
theorem wellFormed_iff_quiet {l : Loop} {r : RunInput} (h : LoopPaired (l.start r))
    (env : Nat → Turn) : ProtocolWellFormed l (l.runLoop r env)
      ↔ Lib.Along (QuietGuard l) l.iterate (l.start r) (turns env l.maxIterations) :=
  Lib.run_iff_along (LoopPaired.iterate l) (fun _ h => h.wellFormed)
    (fun st turn _ hloud => LoopBroken.of_loud l st turn hloud) (LoopBroken.iterate l)
    (LoopBroken.not_wellFormed l) (turns env l.maxIterations) (l.start r) h

/-- A run is well formed to the provider exactly when its history has no
repeated call id and the detector never cuts results short. -/
theorem requests_paired_iff (l : Loop) (r : RunInput) (env : Nat → Turn) :
    ProtocolWellFormed l (l.runLoop r env)
      ↔ DistinctIds (limitHistoryTurns r.history r.historyLimit)
        ∧ Lib.Along (QuietGuard l) l.iterate (l.start r) (turns env l.maxIterations) := by
  constructor
  · intro h
    have hdistinct : DistinctIds (limitHistoryTurns r.history r.historyLimit) := by
      obtain ⟨sent, hsent, hfirst⟩ := first_request l r env
      rw [← buildMessages_paired_iff l r, ← hfirst]
      exact h.1 sent hsent
    exact ⟨hdistinct, (wellFormed_iff_quiet (start_paired hdistinct) env).mp h⟩
  · rintro ⟨hdistinct, hquiet⟩
    exact (wellFormed_iff_quiet (start_paired hdistinct) env).mpr hquiet

/-- What such a run flushes has its results behind its calls, as the
session is asked to keep it. -/
theorem flushed_resultsFollow {l : Loop} {r : RunInput} {env : Nat → Turn}
    (hdistinct : DistinctIds (limitHistoryTurns r.history r.historyLimit))
    (hquiet : Lib.Along (QuietGuard l) l.iterate (l.start r) (turns env l.maxIterations)) :
    ∀ msgs ∈ l.flushed (l.runLoop r env), ResultsFollow msgs := by
  have h := (wellFormed_iff_quiet (start_paired hdistinct) env).mpr hquiet
  intro msgs hmsgs
  exact (h.2.2 msgs hmsgs).resultsFollow

/-! ### Four times the same call -/

/-- The default loop, with the digests of the one call made. -/
def fourCallsLoop : Loop :=
  { defaultLoop with
    hashes :=
      { hashToolCall := fun _ _ => "ecb2da07268226f627737ee69f4326aa"
        hashResult := fun _ => "81ae2a38261324a602e2f01d949344d4" } }

/-- One call, under four ids. -/
def fourCalls : ChatResponse :=
  { content := ""
    toolCalls := ["c1", "c2", "c3", "c4"].map fun id =>
      { id := id, name := "list_loans", arguments := { json := "\x7b\x7d" } }
    finishReason := "tool_calls"
    usage := none }

/-- They all give the same result, and then the model answers. -/
def fourCallsEnv : Nat → Turn
  | 0 => { resp := .ok fourCalls, compaction := none, forLLM := fun _ => "no loans" }
  | _ =>
    { resp := .ok { content := "None.", toolCalls := [], finishReason := "stop", usage := none }
      compaction := none
      forLLM := fun _ => "" }

/-- The warning about the third call stands between its result and that
of the fourth. -/
theorem four_calls_unpaired :
    ¬ ProtocolWellFormed fourCallsLoop (fourCallsLoop.runLoop firstMessage fourCallsEnv) := by
  intro h
  have hstart : LoopPaired (fourCallsLoop.start firstMessage) :=
    start_paired fun m hm => nomatch hm
  have hquiet := (wellFormed_iff_quiet hstart fourCallsEnv).mp h
  rw [show fourCallsLoop.maxIterations = 19 + 1 from rfl, turns_succ] at hquiet
  obtain ⟨-, -, hthird, -⟩ := hquiet.1 rfl fourCalls rfl
  revert hthird
  decide +kernel

end LendingClaw.Agent
