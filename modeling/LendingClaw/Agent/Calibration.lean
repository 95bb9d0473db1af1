/-
LendingClaw.Agent.Calibration — the token estimate of `maybeSummarize`
over the runs of a session (`internal/agent/loop.go`,
`EstimateTokensWithCalibration` in `internal/agent/history.go`).

`SetLastPromptTokens` is given the length of the prompt, and the estimate
takes it for a place in the history of the session. The prompt has a
system message, the summary and the recalled memory in front, and may
have lost messages of the history. Beside the store, the state keeps what
the last prompt was made of: how many messages the history had, with
those of the run so far.
-/
import LendingClaw.Agent.MemoryFlush
import LendingClaw.Agent.WholeTurns

namespace LendingClaw.Agent

open LendingClaw.Providers LendingClaw.Store

/-! ## The estimate -/

/-- `tokenEstimate` of `maybeSummarize`. -/
def tokenEstimate (s : MySQLSessionStore) (w : WorkspaceID) (key : String) : Int :=
  let (s, history) := s.getHistory w key none
  let (lastTokens, lastCount) := s.getLastPromptTokens w key
  estimateTokensWithCalibration history lastTokens lastCount

/-- It decides whether there is something to summarize. -/
theorem maybeSummarize_estimate (cfg : LoopConfig) (w : WorkspaceID) (key : String)
    (sys : Compacting) (flushQuery : Fault)
    (hshort : (sys.store.getHistory w key none).2.length ≤ 50)
    (hestimate : tokenEstimate sys.store w key ≤ cfg.threshold) :
    sys.maybeSummarize cfg w key none flushQuery
      = { sys with store := (sys.store.getHistory w key none).1 } := by
  unfold Compacting.maybeSummarize
  exact if_pos ⟨hshort, hestimate⟩

/-! ## Runs -/

/-- A response with its usage: what is stored, and how many messages the
current turn had when the call was made. -/
structure Report where
  promptTokens : Int
  msgCount : Nat
  turnLength : Nat
  deriving DecidableEq

/-- What an iteration reports. -/
def LoopState.report (st : LoopState) (turn : Turn) : Option Report :=
  match st.ended, turn.resp with
  | none, .ok resp =>
    resp.usage.map fun usage =>
      { promptTokens := usage.promptTokens
        msgCount := st.messages.length
        turnLength := st.pendingMsgs.length }
  | _, _ => none

/-- A run, the store, and the last report of the run. -/
structure Reporting where
  st : LoopState
  store : MySQLSessionStore
  last : Option Report

section
variable (l : Loop) (w : WorkspaceID) (key : String)

/-- An iteration with its `SetLastPromptTokens`. -/
def Loop.iterateReporting (x : Reporting) (turn : Turn) : Reporting :=
  { st := l.iterate x.st turn
    store :=
      match x.st.report turn with
      | some report => x.store.setLastPromptTokens w key report.promptTokens report.msgCount
      | none => x.store
    last := (x.st.report turn).or x.last }

/-- The history and the summary of a run are those of the session. -/
def sessionInput (s : MySQLSessionStore) (r : RunInput) : RunInput :=
  { r with history := (s.getHistory w key none).2, summary := s.getSummary w key }

/-- The iterations of a run on a session. -/
def Loop.runReporting (s : MySQLSessionStore) (r : RunInput) (env : Nat → Turn) : Reporting :=
  Lib.run (l.iterateReporting w key)
    { st := l.start (sessionInput w key s r), store := s, last := none }
    (turns env l.maxIterations)

/-- Step 6 of a run. -/
def flushMessages (s : MySQLSessionStore) (msgs : List Message) : MySQLSessionStore :=
  Lib.run (fun s msg => s.addMessage w key msg none none) s msgs

/-! ## The session -/

/-- A calibration that is good for the history of the session: the tokens
of a prompt, and how many messages there were when it was made. -/
structure Calibration where
  tokens : Int
  covered : Nat

structure Calibrating where
  store : MySQLSessionStore
  valid : Option Calibration

/-- A run, up to its check; and the two steps of a compaction. -/
inductive SessionOp where
  | run (r : RunInput) (env : Nat → Turn)
  | setSummary (summary : String)
  | truncateHistory (keepLast : Int)

/-- A report of a completed run is good for the session, if it reports any
tokens. -/
def Report.calibration (report : Report) (before : Nat) : Option Calibration :=
  if report.promptTokens > 0 then
    some { tokens := report.promptTokens, covered := before + report.turnLength }
  else none

/-- A failed run leaves its report in the store, and none of the messages
that were in its prompt. A truncation takes messages away that were. -/
def Loop.calibrate (s : Calibrating) : SessionOp → Calibrating
  | .run r env =>
    let x := l.runReporting w key s.store r env
    match l.flushed x.st with
    | none =>
      { store := x.store
        valid := match x.last with
          | some _ => none
          | none => s.valid }
    | some msgs =>
      { store := flushMessages w key x.store msgs
        valid := match x.last with
          | some report => report.calibration (s.store.history w key).length
          | none => s.valid }
  | .setSummary summary => { s with store := s.store.setSummary w key summary }
  | .truncateHistory keepLast =>
    { store := s.store.truncateHistory w key keepLast
      valid :=
        if keepLastMessages keepLast (s.store.history w key) = s.store.history w key then s.valid
        else none }

/-- The estimate as it should be: the tokens of the last prompt, and the
messages that came after it. -/
def Calibrating.expected (s : Calibrating) : Int :=
  match s.valid with
  | some calibration =>
    calibration.tokens + estimateTokens ((s.store.history w key).drop calibration.covered)
  | none => estimateTokens (s.store.history w key)

/-- The check after a completed run counts every message once. -/
def CountsOnce (s : Calibrating) : SessionOp → Prop
  | .run r env =>
    (l.flushed (l.runReporting w key s.store r env).st).isSome →
      tokenEstimate (l.calibrate w key s (.run r env)).store w key
        = (l.calibrate w key s (.run r env)).expected w key
  | _ => True

/-! ## The condition -/

/-- Between two places there are only messages of less than four bytes. -/
def ShortBetween (msgs : List Message) (i j : Nat) : Prop :=
  ∀ m ∈ (msgs.take (max i j)).drop (min i j), m.content.utf8ByteSize < 4

/-- A completed run that reports tokens: the prompt is no longer than the
history then is, and the count is off by short messages at most. One that
reports none: the store has no count left that could be taken for a place
in this history. -/
def CountFits (s : Calibrating) : SessionOp → Prop
  | .run r env =>
    let x := l.runReporting w key s.store r env
    match l.flushed x.st with
    | none => True
    | some msgs =>
      let history := s.store.history w key
      match x.last with
      | some report =>
        report.promptTokens > 0 → report.msgCount ≤ (history ++ msgs).length
          ∧ ShortBetween (history ++ msgs) report.msgCount (history.length + report.turnLength)
      | none =>
        s.valid = none →
          (s.store.getLastPromptTokens w key).1 ≤ 0
            ∨ (s.store.getLastPromptTokens w key).2 > (history ++ msgs).length
  | _ => True

instance (msgs : List Message) (i j : Nat) : Decidable (ShortBetween msgs i j) :=
  inferInstanceAs (Decidable (∀ m ∈ _, _))

instance (s : Calibrating) (op : SessionOp) : Decidable (CountsOnce l w key s op) :=
  match op with
  | .run _ _ => inferInstanceAs (Decidable (_ → _))
  | .setSummary _ => .isTrue trivial
  | .truncateHistory _ => .isTrue trivial

end

/-! ## Short messages -/

theorem estimateTokens_append (a b : List Message) :
    estimateTokens (a ++ b) = estimateTokens a + estimateTokens b := by
  simp [estimateTokens]

theorem estimateTokens_short {msgs : List Message} (h : ∀ m ∈ msgs, m.content.utf8ByteSize < 4) :
    estimateTokens msgs = 0 := by
  induction msgs with
  | nil => rfl
  | cons m msgs ih =>
    have hm := h m List.mem_cons_self
    have hrest := ih fun m' hm' => h m' (List.mem_cons_of_mem m hm')
    rw [← List.singleton_append, estimateTokens_append, hrest]
    simp [estimateTokens]
    omega

/-- Short messages between two places count nothing. -/
theorem estimateTokens_drop {msgs : List Message} {i j : Nat} (h : ShortBetween msgs i j) :
    estimateTokens (msgs.drop i) = estimateTokens (msgs.drop j) := by
  have hcut : estimateTokens (msgs.drop (min i j)) = estimateTokens (msgs.drop (max i j)) := by
    have hle : min i j ≤ max i j := Nat.le_trans (Nat.min_le_left i j) (Nat.le_max_left i j)
    have hsplit : msgs.drop (min i j)
        = (msgs.take (max i j)).drop (min i j) ++ msgs.drop (max i j) := by
      rw [List.drop_take, ← Nat.add_sub_cancel' hle, Nat.add_sub_cancel_left,
        List.drop_take_append_drop]
    rw [hsplit, estimateTokens_append, estimateTokens_short h, Nat.zero_add]
  rcases Nat.le_total i j with hij | hji
  · rwa [Nat.min_eq_left hij, Nat.max_eq_right hij] at hcut
  · rw [Nat.min_eq_right hji, Nat.max_eq_left hji] at hcut
    exact hcut.symm

/-- Messages that come later are not between. -/
theorem ShortBetween.append {msgs : List Message} {i j : Nat} (h : ShortBetween msgs i j)
    (hi : i ≤ msgs.length) (hj : j ≤ msgs.length) (more : List Message) :
    ShortBetween (msgs ++ more) i j := by
  intro m hm
  rw [List.take_append_of_le_length (Nat.max_le.mpr ⟨hi, hj⟩)] at hm
  exact h m hm

/-! ## A run in the store -/

section
variable {l : Loop} {w : WorkspaceID} {key : String}

/-- The session with the counts of the last report. -/
def withReport (data : SessionData) : Option Report → SessionData
  | none => data
  | some report =>
    { data with lastPromptTokens := report.promptTokens, lastMessageCount := report.msgCount }

/-- The store holds the last report, and it is one of a prompt that was
not empty. -/
structure ReportInv (w : WorkspaceID) (key : String) (data : SessionData) (x : Reporting) :
    Prop where
  cached : x.store.cached w key = some (withReport data x.last)
  messages : x.st.messages ≠ []
  report : ∀ report ∈ x.last,
    0 < report.msgCount ∧ report.turnLength ≤ x.st.pendingMsgs.length

theorem compact_messages_ne_nil {st : LoopState} (h : st.messages ≠ []) (resp : ChatResponse)
    (reply : Option String) : (l.compact st resp reply).messages ≠ [] := by
  rw [Loop.compact]
  split
  · cases hcompact : compactMessagesInPlace l.sanitize st.messages reply with
    | none => exact h
    | some compacted =>
      obtain ⟨content, hhead⟩ := compact_head hcompact
      show compacted ≠ []
      intro hnil
      rw [hnil] at hhead
      cases hhead
  · exact h

theorem iterate_messages_ne_nil {st : LoopState} (h : st.messages ≠ []) (turn : Turn) :
    (l.iterate st turn).messages ≠ [] := by
  by_cases hended : st.ended = none
  · cases hresp : turn.resp with
    | error err =>
      obtain ⟨text, heq⟩ := iterate_error (l := l) hended hresp
      rw [heq]
      exact h
    | ok resp =>
      by_cases hcalls : resp.toolCalls = []
      · rw [iterate_ok hended hresp, Loop.act, if_pos hcalls]
        have hsent : st.send.messages ≠ [] := h
        exact compact_messages_ne_nil hsent resp turn.compaction
      · rw [(iterate_calls hended hresp hcalls).1]
        exact List.append_ne_nil_of_right_ne_nil _ (List.cons_ne_nil _ _)
  · rw [iterate_ended hended]
    exact h

/-- A report is about the messages of its call. -/
theorem report_eq {st : LoopState} {turn : Turn} {report : Report}
    (h : st.report turn = some report) :
    report.msgCount = st.messages.length ∧ report.turnLength = st.pendingMsgs.length := by
  unfold LoopState.report at h
  split at h
  · obtain ⟨usage, -, rfl⟩ := Option.map_eq_some_iff.mp h
    exact ⟨rfl, rfl⟩
  · cases h

theorem ReportInv.iterate {data : SessionData} {x : Reporting} (h : ReportInv w key data x)
    (turn : Turn) : ReportInv w key data (l.iterateReporting w key x turn) where
  cached := by
    cases hreport : x.st.report turn with
    | none => simpa [Loop.iterateReporting, hreport] using h.cached
    | some report =>
      have hstored := h.cached
      simp [Loop.iterateReporting, hreport, MySQLSessionStore.setLastPromptTokens,
        MySQLSessionStore.ifCached, hstored]
      cases x.last with
      | none => rfl
      | some old => rfl
  messages := iterate_messages_ne_nil h.messages turn
  report := by
    intro report hreport
    have hpending := (iterate_pending l x.st turn).length_le
    rcases Option.or_eq_some_iff.mp hreport with hnew | ⟨-, hold⟩
    · obtain ⟨hcount, hturn⟩ := report_eq hnew
      rw [hcount, hturn]
      exact ⟨List.length_pos_of_ne_nil h.messages, hpending⟩
    · have hbefore := h.report report hold
      exact ⟨hbefore.1, Nat.le_trans hbefore.2 hpending⟩

theorem runReporting_inv {s : MySQLSessionStore} {data : SessionData}
    (hcached : s.cached w key = some data) (r : RunInput) (env : Nat → Turn) :
    ReportInv w key data (l.runReporting w key s r env) := by
  refine Lib.inv_run_of_step (ReportInv w key data) (fun _ turn h => h.iterate turn) _ _ ?_
  exact { cached := hcached
          messages := List.append_ne_nil_of_right_ne_nil _ (List.cons_ne_nil _ _)
          report := nofun }

theorem flushMessages_cached {s : MySQLSessionStore} {data : SessionData}
    (hcached : s.cached w key = some data) (msgs : List Message) :
    (flushMessages w key s msgs).cached w key
      = some { data with messages := data.messages ++ msgs } := by
  induction msgs generalizing s data with
  | nil => simpa [flushMessages] using hcached
  | cons msg msgs ih =>
    have hadded : (s.addMessage w key msg none none).cached w key
        = some { data with messages := data.messages ++ [msg] } := by
      simp [MySQLSessionStore.addMessage, MySQLSessionStore.withInit, MySQLSessionStore.getOrInit,
        hcached]
    have hrest := ih hadded
    rw [List.append_assoc] at hrest
    exact hrest

/-- The messages of a run that are flushed are those of its turn and the
answer. -/
theorem turnLength_le {st : LoopState} {msgs : List Message} (h : l.flushed st = some msgs) :
    st.pendingMsgs.length ≤ msgs.length := by
  rcases flushed_cases l st with ⟨hnone, -⟩ | ⟨content, hsome⟩
  · rw [hnone] at h
    cases h
  · rw [hsome] at h
    cases h
    simp

/-! ## The invariant -/

/-- What the store has of the session, and that a calibration that is good
is there, with a count that is off by short messages at most. -/
structure CalibratedAs (w : WorkspaceID) (key : String) (s : Calibrating) (data : SessionData) :
    Prop where
  cached : s.store.cached w key = some data
  valid : ∀ calibration ∈ s.valid,
    calibration.tokens = data.lastPromptTokens ∧ 0 < calibration.tokens
      ∧ calibration.covered ≤ data.messages.length
      ∧ ∃ n : Nat, data.lastMessageCount = n ∧ 0 < n ∧ n ≤ data.messages.length
        ∧ ShortBetween data.messages n calibration.covered

/-- No count is left over. -/
def NoneLeft (s : Calibrating) (data : SessionData) : Prop :=
  s.valid = none → data.lastPromptTokens ≤ 0 ∨ data.lastMessageCount > data.messages.length

theorem CalibratedAs.estimate {s : Calibrating} {data : SessionData} (h : CalibratedAs w key s data)
    (hleft : NoneLeft s data) : tokenEstimate s.store w key = s.expected w key := by
  have hcached := h.cached
  have hestimate : tokenEstimate s.store w key
      = estimateTokensWithCalibration data.messages data.lastPromptTokens data.lastMessageCount := by
    simp [tokenEstimate, MySQLSessionStore.getHistory, MySQLSessionStore.get,
      MySQLSessionStore.getLastPromptTokens, hcached]
  have hhistory : s.store.history w key = data.messages := by
    simp [MySQLSessionStore.history, hcached]
  rw [hestimate, Calibrating.expected, hhistory, estimateTokensWithCalibration]
  cases hvalid : s.valid with
  | none =>
    rcases hleft hvalid with hzero | hlong
    · rw [if_pos (Or.inl hzero)]
    · rw [if_pos (Or.inr (Or.inr hlong))]
  | some calibration =>
    obtain ⟨htokens, hpos, -, n, hcount, hn, hfits, hshort⟩ := h.valid calibration hvalid
    rw [hcount, if_neg (by omega), Int.toNat_natCast, estimateTokens_drop hshort,
      ← htokens]

/-- A completed run leaves the invariant, and no count behind. -/
theorem CalibratedAs.completed {s : Calibrating} {data : SessionData}
    (h : CalibratedAs w key s data) {r : RunInput} {env : Nat → Turn}
    (hfits : CountFits l w key s (.run r env)) {msgs : List Message}
    (hflushed : l.flushed (l.runReporting w key s.store r env).st = some msgs) :
    ∃ data', CalibratedAs w key (l.calibrate w key s (.run r env)) data'
      ∧ NoneLeft (l.calibrate w key s (.run r env)) data' := by
  have hrun := runReporting_inv (l := l) h.cached r env
  have hhistory : s.store.history w key = data.messages := by
    simp [MySQLSessionStore.history, h.cached]
  have hkept := flushMessages_cached hrun.cached msgs
  have hlength := turnLength_le hflushed
  have hstore : (l.calibrate w key s (.run r env)).store
      = flushMessages w key (l.runReporting w key s.store r env).store msgs := by
    simp [Loop.calibrate, hflushed]
  simp only [CountFits, hflushed, hhistory] at hfits
  cases hlast : (l.runReporting w key s.store r env).last with
  | none =>
    rw [hlast] at hkept
    simp only [hlast, MySQLSessionStore.getLastPromptTokens, h.cached] at hfits
    have hvalid : (l.calibrate w key s (.run r env)).valid = s.valid := by
      simp [Loop.calibrate, hflushed, hlast]
    refine ⟨{ data with messages := data.messages ++ msgs }, { cached := ?_, valid := ?_ }, ?_⟩
    · rw [hstore]
      exact hkept
    · intro calibration hcalibration
      rw [hvalid] at hcalibration
      obtain ⟨htokens, hpos, hcovered, n, hcount, hn, hin, hshort⟩ := h.valid calibration hcalibration
      have hlonger : data.messages.length ≤ (data.messages ++ msgs).length := by simp
      exact ⟨htokens, hpos, Nat.le_trans hcovered hlonger, n, hcount, hn, Nat.le_trans hin hlonger,
        hshort.append hin hcovered msgs⟩
    · intro hnone
      rw [hvalid] at hnone
      exact hfits hnone
  | some report =>
    obtain ⟨hcount, hturn⟩ := hrun.report report hlast
    rw [hlast] at hkept
    simp only [hlast] at hfits
    have hvalid : (l.calibrate w key s (.run r env)).valid
        = report.calibration data.messages.length := by
      simp [Loop.calibrate, hflushed, hlast, hhistory]
    refine ⟨{ data with
      messages := data.messages ++ msgs
      lastPromptTokens := report.promptTokens
      lastMessageCount := report.msgCount }, { cached := ?_, valid := ?_ }, ?_⟩
    · rw [hstore]
      exact hkept
    · intro calibration hcalibration
      rw [hvalid, Report.calibration] at hcalibration
      split at hcalibration
      · rename_i hpos
        cases hcalibration
        obtain ⟨hin, hshort⟩ := hfits hpos
        refine ⟨rfl, hpos, ?_, report.msgCount, rfl, hcount, hin, hshort⟩
        show data.messages.length + report.turnLength ≤ (data.messages ++ msgs).length
        rw [List.length_append]
        omega
      · cases hcalibration
    · intro hnone
      rw [hvalid, Report.calibration] at hnone
      split at hnone
      · cases hnone
      · rename_i hzero
        exact Or.inl (Int.not_lt.mp hzero)

/-- Every step that meets the condition keeps the invariant. -/
theorem CalibratedAs.step {s : Calibrating} {data : SessionData} (h : CalibratedAs w key s data)
    {op : SessionOp} (hfits : CountFits l w key s op) :
    ∃ data', CalibratedAs w key (l.calibrate w key s op) data' := by
  have hhistory : s.store.history w key = data.messages := by
    simp [MySQLSessionStore.history, h.cached]
  cases op with
  | run r env =>
    cases hflushed : l.flushed (l.runReporting w key s.store r env).st with
    | none =>
      have hrun := runReporting_inv (l := l) h.cached r env
      refine ⟨withReport data (l.runReporting w key s.store r env).last,
        { cached := ?_, valid := ?_ }⟩
      · simpa [Loop.calibrate, hflushed] using hrun.cached
      · intro calibration hcalibration
        cases hlast : (l.runReporting w key s.store r env).last with
        | none =>
          simp only [Loop.calibrate, hflushed, hlast] at hcalibration
          exact h.valid calibration hcalibration
        | some report =>
          simp only [Loop.calibrate, hflushed, hlast] at hcalibration
          cases hcalibration
    | some msgs =>
      obtain ⟨data', hdata, -⟩ := h.completed hfits hflushed
      exact ⟨data', hdata⟩
  | setSummary summary =>
    refine ⟨{ data with summary := summary }, { cached := ?_, valid := h.valid }⟩
    simp [Loop.calibrate, MySQLSessionStore.setSummary, MySQLSessionStore.ifCached, h.cached]
  | truncateHistory keepLast =>
    refine ⟨{ data with messages := keepLastMessages keepLast data.messages },
      { cached := ?_, valid := ?_ }⟩
    · simp [Loop.calibrate, MySQLSessionStore.truncateHistory, MySQLSessionStore.ifCached, h.cached]
    · intro calibration hcalibration
      simp only [Loop.calibrate, hhistory] at hcalibration
      split at hcalibration
      · rename_i hsame
        rw [hsame]
        exact h.valid calibration hcalibration
      · cases hcalibration

theorem CalibratedAs.countsOnce {s : Calibrating} {data : SessionData}
    (h : CalibratedAs w key s data) {op : SessionOp} (hfits : CountFits l w key s op) :
    CountsOnce l w key s op := by
  cases op with
  | run r env =>
    intro hcompleted
    obtain ⟨msgs, hflushed⟩ := Option.isSome_iff_exists.mp hcompleted
    obtain ⟨data', hdata, hleft⟩ := h.completed hfits hflushed
    exact hdata.estimate hleft
  | setSummary summary => trivial
  | truncateHistory keepLast => trivial

end

/-- A session as a process begins with it: a row of the table, or a new
one. -/
def openedSession (db : SessionTable) (w : WorkspaceID) (key createdBy kind : String)
    (query exec : Fault) : Calibrating :=
  { store := ((newMySQLSessionStore db).getOrCreate w key createdBy kind query exec).1
    valid := none }

/-- Every message is counted once, in every sequence of completed and failed
runs, summaries and truncations. -/
def CalibrationCounts (l : Loop) (w : WorkspaceID) (key : String) (s : Calibrating)
    (ops : List SessionOp) : Prop :=
  Lib.Along (CountsOnce l w key) (l.calibrate w key) s ops

/-- An answer without a tool call, and the tokens of its prompt. -/
def answers (content : String) (promptTokens : Int) : Nat → Turn := fun _ =>
  { resp := .ok
      { content := content
        toolCalls := []
        finishReason := "stop"
        usage := some
          { promptTokens := promptTokens
            completionTokens := 0
            totalTokens := promptTokens
            cacheCreationTokens := 0
            cacheReadTokens := 0 } }
    compaction := none
    forLLM := fun _ => "" }

end LendingClaw.Agent
