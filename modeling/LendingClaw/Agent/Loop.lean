/-
LendingClaw.Agent.Loop — the iterations of a run (`runLoop` of
`internal/agent/loop.go`, `buildMessages` of `internal/agent/history.go`).

A run begins here with the message cut to its limit and past the input
guard, and ends with the messages it flushes: the title, the summary and
the memory capture come after. The system prompt and the recalled memory
are texts it is given. What the provider and the tools answer in an
iteration is its `Turn`, and a run is the fold of `iterate` along any
turns at all. The sampling options, the tool definitions, the events and
the token totals are left out.
-/
import LendingClaw.Agent.Compact
import LendingClaw.Agent.Pruning
import LendingClaw.Agent.ToolLoop
import LendingClaw.Lib.Runs

namespace LendingClaw.Agent

open LendingClaw.Providers

/-- `Loop`. `compactionThreshold` is `contextWindow * maxHistoryShare`,
rounded down; `NewLoop` has a default for no iterations. -/
structure Loop where
  contextWindow : Int
  compactionThreshold : Int
  maxIterations : Nat
  iterates : 0 < maxIterations
  pruningCfg : PruningConfig
  hashes : ToolHashes
  sanitize : String → String

/-- What a run starts from. -/
structure RunInput where
  history : List Message
  summary : String
  systemPrompt : String
  memoryBlock : String
  message : String
  historyLimit : Int
  order : MapOrder

/-- What the provider and the tools do in one iteration: the response,
the summary if one is asked for (none being an error), and the result of
each call. -/
structure Turn where
  resp : Except String ChatResponse
  compaction : Option String
  forLLM : Nat → String

/-! ## The first list of messages -/

def RunInput.systemMessage (r : RunInput) : Message := textMessage .system r.systemPrompt

/-- A text for the background and its acknowledgement, if there is one. -/
def background (text content acknowledgement : String) : List Message :=
  if text = "" then []
  else [textMessage .user content, textMessage .assistant acknowledgement]

def summaryMessages (summary : String) : List Message :=
  background summary (compactionSummaryPrefix ++ summary)
    "I understand the context from our previous conversation. How can I help you?"

def memoryMessages (block : String) : List Message :=
  background block block "Noted the recalled memory context."

/-- The history pipeline: limit turns, prune, sanitize. -/
def Loop.pipeline (l : Loop) (r : RunInput) : List Message :=
  let trimmed := limitHistoryTurns r.history r.historyLimit
  let pruned := pruneContextMessages trimmed l.contextWindow l.pruningCfg
  sanitizeHistory r.order pruned

/-- `buildMessages`. -/
def Loop.buildMessages (l : Loop) (r : RunInput) : List Message :=
  [r.systemMessage] ++ summaryMessages r.summary ++ memoryMessages r.memoryBlock ++ l.pipeline r
    ++ [textMessage .user r.message]

/-! ## The iterations -/

/-- A request of the iteration loop, with the messages of the current
turn when it was sent. -/
structure Sent where
  request : ChatRequest
  turn : List Message

/-- The locals of `runLoop`, and the requests it has sent. The loop has
ended with its final content, or with an error of the run. -/
structure LoopState where
  messages : List Message
  pendingMsgs : List Message
  loopDetector : ToolLoopState
  midLoopCompacted : Bool
  iteration : Nat
  ended : Option (Except String String)
  requests : List Sent
  compactions : List ChatRequest

def Loop.start (l : Loop) (r : RunInput) : LoopState :=
  { messages := l.buildMessages r
    pendingMsgs := [textMessage .user r.message]
    loopDetector := { history := [] }
    midLoopCompacted := false
    iteration := 0
    ended := none
    requests := []
    compactions := [] }

/-- The request of an iteration. -/
def LoopState.send (st : LoopState) : LoopState :=
  { st with
    iteration := st.iteration + 1
    requests := st.requests
      ++ [{ request := { messages := st.messages, maxTokens := 16384 }, turn := st.pendingMsgs }] }

/-- Mid-loop compaction is tried: once, when the prompt is long enough. -/
def Loop.TriesCompaction (l : Loop) (st : LoopState) (resp : ChatResponse) : Prop :=
  st.midLoopCompacted = false ∧ l.contextWindow > 0
    ∧ ∃ usage ∈ resp.usage, usage.promptTokens ≥ l.compactionThreshold

instance (l : Loop) (st : LoopState) (resp : ChatResponse) :
    Decidable (l.TriesCompaction st resp) :=
  inferInstanceAs (Decidable (_ ∧ _ ∧ _))

def Loop.compact (l : Loop) (st : LoopState) (resp : ChatResponse) (reply : Option String) :
    LoopState :=
  if l.TriesCompaction st resp then
    { st with
      midLoopCompacted := true
      messages := (compactMessagesInPlace l.sanitize st.messages reply).getD st.messages
      compactions := st.compactions
        ++ ((compactSplit st.messages).map (compactRequest l.sanitize st.messages)).toList }
  else st

/-- The branches on the number of calls. -/
def Loop.execute (l : Loop) (s : ToolLoopState) (forLLM : Nat → String) :
    List ToolCall → Collected
  | [tc] => collectOne l.hashes forLLM tc s
  | calls => collect l.hashes forLLM calls 0 s

def assistantMessage (resp : ChatResponse) : Message :=
  { role := .assistant, content := resp.content, toolCalls := resp.toolCalls, toolCallID := "" }

/-- The end of an iteration, without or with tool calls. -/
def Loop.act (l : Loop) (st : LoopState) (resp : ChatResponse) (forLLM : Nat → String) :
    LoopState :=
  if resp.toolCalls = [] then { st with ended := some (.ok resp.content) }
  else
    let out := l.execute st.loopDetector forLLM resp.toolCalls
    { st with
      messages := st.messages ++ assistantMessage resp :: out.msgs
      pendingMsgs := st.pendingMsgs ++ assistantMessage resp :: out.msgs
      loopDetector := out.loopDetector
      ended := out.critical.map .ok }

/-- One iteration; none after the loop has ended. -/
def Loop.iterate (l : Loop) (st : LoopState) (turn : Turn) : LoopState :=
  match st.ended with
  | some _ => st
  | none =>
    match turn.resp with
    | .error err =>
      { st.send with
        ended := some (.error
          ("LLM call failed (iteration " ++ toString st.send.iteration ++ "): " ++ err)) }
    | .ok resp => l.act (l.compact st.send resp turn.compaction) resp turn.forLLM

/-- The first turns of an environment. -/
def turns (env : Nat → Turn) (n : Nat) : List Turn := (List.range n).map env

theorem turns_succ (env : Nat → Turn) (n : Nat) :
    turns env (n + 1) = env 0 :: turns (fun i => env (i + 1)) n := by
  rw [turns, List.range_succ_eq_map, List.map_cons, List.map_map]
  rfl

theorem turns_last (env : Nat → Turn) (n : Nat) : turns env (n + 1) = turns env n ++ [env n] := by
  rw [turns, List.range_succ, List.map_append]
  rfl

/-- The iterations of `runLoop`. -/
def Loop.runLoop (l : Loop) (r : RunInput) (env : Nat → Turn) : LoopState :=
  Lib.run l.iterate (l.start r) (turns env l.maxIterations)

/-- The settings of `NewLoop`, and hashes that name what they hash. -/
def defaultLoop : Loop :=
  { contextWindow := 200000
    compactionThreshold := 150000
    maxIterations := 20
    iterates := by decide
    pruningCfg :=
      { keepLastAssistants := 3
        belowSoftTrim := fun totalChars charWindow => totalChars * 10 < charWindow * 3
        belowHardClear := fun totalChars charWindow => totalChars * 2 < charWindow
        minPrunableToolChars := 50000
        softTrimMaxChars := 4000
        softTrimHeadChars := 1500
        softTrimTailChars := 1500
        hardClearEnabled := true
        hardClearPlaceholder := "[Old tool result content cleared]"
        mode := "" }
    hashes :=
      { hashToolCall := fun toolName args => toolName ++ ":" ++ args.json
        hashResult := fun content => "=" ++ content }
    sanitize := id }

/-- A run with no history. -/
def firstMessage : RunInput :=
  { history := []
    summary := ""
    systemPrompt := "You are a lending assistant."
    memoryBlock := ""
    message := "Which loans are open?"
    historyLimit := 0
    order := { range := fun _ keys => keys, perm := fun _ keys => List.Perm.refl keys } }

/-! ## The end of the run -/

/-- Steps 4 and 5. -/
def Loop.finalContent (l : Loop) (content : String) : String :=
  Lib.trimSpace (if l.sanitize content = "" then "..." else l.sanitize content)

/-- The messages that a run flushes to the session. A failed run flushes
none, a run out of iterations has no final content. -/
def Loop.flushed (l : Loop) (st : LoopState) : Option (List Message) :=
  match st.ended with
  | some (.error _) => none
  | some (.ok content) =>
    some (st.pendingMsgs ++ [textMessage .assistant (l.finalContent content)])
  | none => some (st.pendingMsgs ++ [textMessage .assistant (l.finalContent "")])

/-! ## The first request -/

theorem background_paired (text content acknowledgement : String) :
    Paired (background text content acknowledgement) := by
  rw [background]
  split
  · exact Paired.nil
  · exact (paired_textMessage (by decide) _).append (paired_textMessage (by decide) _)

theorem background_roles (text content acknowledgement : String) :
    ∀ m ∈ background text content acknowledgement, m.role ≠ .system := by
  intro m hm
  rw [background] at hm
  split at hm
  · cases hm
  · rcases List.mem_pair.mp hm with rfl | rfl
    · exact (by decide : Role.user ≠ Role.system)
    · exact (by decide : Role.assistant ≠ Role.system)

/-! ## What an iteration does -/

section
variable {l : Loop} {st : LoopState} {turn : Turn}

theorem iterate_ended (h : st.ended ≠ none) : l.iterate st turn = st := by
  rw [Loop.iterate]
  cases hended : st.ended with
  | none => exact absurd hended h
  | some result => rfl

/-- Nothing happens after the end of the loop. -/
theorem run_ended (h : st.ended ≠ none) (ts : List Turn) : Lib.run l.iterate st ts = st := by
  induction ts with
  | nil => rfl
  | cons turn ts ih => rw [Lib.run_cons, iterate_ended h, ih]

theorem iterate_error (h : st.ended = none) {err : String} (hresp : turn.resp = .error err) :
    ∃ text, l.iterate st turn = { st.send with ended := some (.error text) } := by
  rw [Loop.iterate, h]
  simp only [hresp]
  exact ⟨_, rfl⟩

theorem iterate_ok (h : st.ended = none) {resp : ChatResponse} (hresp : turn.resp = .ok resp) :
    l.iterate st turn = l.act (l.compact st.send resp turn.compaction) resp turn.forLLM := by
  rw [Loop.iterate, h]
  simp only [hresp]

theorem execute_eq (s : ToolLoopState) (forLLM : Nat → String) (calls : List ToolCall) :
    l.execute s forLLM calls = collect l.hashes forLLM calls 0 s := by
  match calls with
  | [] => rfl
  | [tc] => exact collectOne_eq l.hashes forLLM tc s
  | tc :: next :: rest => rfl

/-- Compaction touches the list, its flag and its own request. -/
theorem compact_frame (l : Loop) (st : LoopState) (resp : ChatResponse) (reply : Option String) :
    (l.compact st resp reply).pendingMsgs = st.pendingMsgs
      ∧ (l.compact st resp reply).requests = st.requests
      ∧ (l.compact st resp reply).loopDetector = st.loopDetector
      ∧ (l.compact st resp reply).ended = st.ended := by
  rw [Loop.compact]
  split
  · exact ⟨rfl, rfl, rfl, rfl⟩
  · exact ⟨rfl, rfl, rfl, rfl⟩

theorem act_requests (resp : ChatResponse) (forLLM : Nat → String) :
    (l.act st resp forLLM).requests = st.requests
      ∧ (l.act st resp forLLM).compactions = st.compactions := by
  rw [Loop.act]
  split
  · exact ⟨rfl, rfl⟩
  · exact ⟨rfl, rfl⟩

/-- An iteration that is entered sends the list as it is. -/
theorem iterate_requests (h : st.ended = none) :
    (l.iterate st turn).requests
      = st.requests
        ++ [{ request := { messages := st.messages, maxTokens := 16384 }
              turn := st.pendingMsgs }] := by
  cases hresp : turn.resp with
  | error err =>
    obtain ⟨text, heq⟩ := iterate_error (l := l) h hresp
    rw [heq]
    rfl
  | ok resp =>
    rw [iterate_ok h hresp, (act_requests _ _).1, (compact_frame _ _ _ _).2.1]
    rfl

/-- What an iteration with tool calls leaves. -/
theorem iterate_calls (h : st.ended = none) {resp : ChatResponse} (hresp : turn.resp = .ok resp)
    (hne : resp.toolCalls ≠ []) :
    let out := l.execute st.loopDetector turn.forLLM resp.toolCalls
    (l.iterate st turn).messages
        = (l.compact st.send resp turn.compaction).messages ++ assistantMessage resp :: out.msgs
      ∧ (l.iterate st turn).pendingMsgs = st.pendingMsgs ++ assistantMessage resp :: out.msgs
      ∧ (l.iterate st turn).ended = out.critical.map .ok := by
  obtain ⟨hpending, -, hdetector, -⟩ := compact_frame l st.send resp turn.compaction
  rw [iterate_ok h hresp, Loop.act, if_neg hne, hdetector, hpending]
  exact ⟨rfl, rfl, rfl⟩

/-- The loop goes on after tool calls only. -/
theorem calls_of_goes_on (h : st.ended = none) (hnext : (l.iterate st turn).ended = none) :
    ∃ resp, turn.resp = .ok resp ∧ resp.toolCalls ≠ []
      ∧ (l.execute st.loopDetector turn.forLLM resp.toolCalls).critical = none := by
  cases hresp : turn.resp with
  | error err =>
    obtain ⟨text, heq⟩ := iterate_error (l := l) h hresp
    rw [heq] at hnext
    cases hnext
  | ok resp =>
    by_cases hnil : resp.toolCalls = []
    · rw [iterate_ok h hresp, Loop.act, if_pos hnil] at hnext
      cases hnext
    · rw [(iterate_calls h hresp hnil).2.2] at hnext
      exact ⟨resp, rfl, hnil, Option.map_eq_none_iff.mp hnext⟩

/-- A run that does not fail flushes its messages and an answer. -/
theorem flushed_cases (l : Loop) (st : LoopState) :
    (l.flushed st = none ∧ ∃ err, st.ended = some (.error err))
      ∨ ∃ content, l.flushed st = some (st.pendingMsgs ++ [textMessage .assistant content]) := by
  rw [Loop.flushed]
  cases hended : st.ended with
  | none => exact Or.inr ⟨_, rfl⟩
  | some result =>
    cases result with
    | error err => exact Or.inl ⟨rfl, err, rfl⟩
    | ok content => exact Or.inr ⟨_, rfl⟩

/-- What was sent stays sent. -/
theorem requests_subset (l : Loop) (st : LoopState) (ts : List Turn) :
    st.requests ⊆ (Lib.run l.iterate st ts).requests := by
  induction ts generalizing st with
  | nil => exact fun _ h => h
  | cons t ts ih =>
    intro sent hsent
    apply ih
    by_cases hended : st.ended = none
    · rw [iterate_requests hended]
      exact List.mem_append_left _ hsent
    · rw [iterate_ended hended]
      exact hsent

end

/-- The first request of a run is what `buildMessages` gives. -/
theorem first_request (l : Loop) (r : RunInput) (env : Nat → Turn) :
    ∃ sent ∈ (l.runLoop r env).requests, sent.request.messages = l.buildMessages r := by
  obtain ⟨n, hn⟩ := Nat.exists_eq_succ_of_ne_zero (Nat.pos_iff_ne_zero.mp l.iterates)
  rw [Loop.runLoop, hn, turns_succ, Lib.run_cons]
  refine ⟨{ request := { messages := l.buildMessages r, maxTokens := 16384 }
            turn := (l.start r).pendingMsgs }, requests_subset l _ _ ?_, rfl⟩
  rw [iterate_requests rfl]
  exact List.mem_append_right _ List.mem_cons_self

end LendingClaw.Agent
