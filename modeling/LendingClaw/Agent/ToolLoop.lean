/-
LendingClaw.Agent.ToolLoop — the guard against repeated tool calls
(`internal/agent/toolloop.go`).

The two hashes are SHA-256 of texts: a parameter, of which nothing is
asked here.
-/
import LendingClaw.Providers.Types

namespace LendingClaw.Agent

open LendingClaw.Providers

def toolLoopHistorySize : Nat := 30

def toolLoopWarningThreshold : Nat := 3

def toolLoopCriticalThreshold : Nat := 5

/-- `hashToolCall` and `hashResult`. -/
structure ToolHashes where
  hashToolCall : (toolName : String) → (args : Arguments) → String
  hashResult : (content : String) → String

structure ToolCallRecord where
  toolName : String
  argsHash : String
  resultHash : String
  deriving DecidableEq

structure ToolLoopState where
  history : List ToolCallRecord
  deriving DecidableEq

inductive LoopLevel where
  | warning
  | critical
  deriving DecidableEq

namespace ToolLoopState

/-- `record`: the last records are kept. -/
def record (h : ToolHashes) (s : ToolLoopState) (toolName : String) (args : Arguments) :
    ToolLoopState :=
  let history := s.history
    ++ [{ toolName := toolName, argsHash := h.hashToolCall toolName args, resultHash := "" }]
  { history :=
      if history.length > toolLoopHistorySize then
        history.drop (history.length - toolLoopHistorySize)
      else history }

/-- The loop of `recordResult`, over the records from the last one on. -/
def setResult (argsHash resultHash : String) : List ToolCallRecord → List ToolCallRecord
  | [] => []
  | r :: rest =>
    if r.argsHash = argsHash ∧ r.resultHash = "" then { r with resultHash := resultHash } :: rest
    else r :: setResult argsHash resultHash rest

/-- `recordResult`. -/
def recordResult (h : ToolHashes) (s : ToolLoopState) (argsHash resultContent : String) :
    ToolLoopState :=
  { history := (setResult argsHash (h.hashResult resultContent) s.history.reverse).reverse }

/-- The loop of `detect`, over the records from the last one on. -/
def noProgressScan (argsHash : String) :
    List ToolCallRecord → (lastResultHash : String) → (noProgressCount : Nat) → Nat
  | [], _, noProgressCount => noProgressCount
  | r :: rest, lastResultHash, noProgressCount =>
    if r.argsHash ≠ argsHash then noProgressScan argsHash rest lastResultHash noProgressCount
    else if r.resultHash = "" then noProgressScan argsHash rest lastResultHash noProgressCount
    else
      let lastResultHash := if lastResultHash = "" then r.resultHash else lastResultHash
      noProgressScan argsHash rest lastResultHash
        (if r.resultHash = lastResultHash then noProgressCount + 1 else noProgressCount)

/-- `detect`. -/
def detect (s : ToolLoopState) (toolName argsHash : String) : Option (LoopLevel × String) :=
  if s.history.length < toolLoopWarningThreshold then none
  else
    let noProgressCount := noProgressScan argsHash s.history.reverse "" 0
    if noProgressCount ≥ toolLoopCriticalThreshold then
      some (.critical,
        "CRITICAL: " ++ toolName ++ " has been called " ++ toString noProgressCount
          ++ " times with identical arguments and results. "
          ++ "Stopping to prevent runaway loop.")
    else if noProgressCount ≥ toolLoopWarningThreshold then
      some (.warning,
        "[System: WARNING — " ++ toolName ++ " has been called " ++ toString noProgressCount
          ++ " times with the same arguments and identical results. "
          ++ "This is not making progress. Try a completely different approach, "
          ++ "use different tools, or respond directly to the user with what you know.]")
    else none

end ToolLoopState

/-! ## The calls of one response -/

/-- What the results of a response add: the detector, the messages, and
the text of a critical detection. -/
structure Collected where
  loopDetector : ToolLoopState
  msgs : List Message
  critical : Option String

def toolMessage (tc : ToolCall) (forLLM : String) : Message :=
  { role := .tool, content := forLLM, toolCalls := [], toolCallID := tc.id }

/-- The detector after one call and its result. -/
def ToolLoopState.observe (h : ToolHashes) (s : ToolLoopState) (tc : ToolCall) (forLLM : String) :
    ToolLoopState :=
  (s.record h tc.name tc.arguments).recordResult h (h.hashToolCall tc.name tc.arguments) forLLM

/-- What the detector then says of the call. -/
def ToolLoopState.detectCall (h : ToolHashes) (s : ToolLoopState) (tc : ToolCall)
    (forLLM : String) : Option (LoopLevel × String) :=
  (s.observe h tc forLLM).detect tc.name (h.hashToolCall tc.name tc.arguments)

section
variable (h : ToolHashes) (forLLM : Nat → String)

/-- The branch for a single call. -/
def collectOne (tc : ToolCall) (s : ToolLoopState) : Collected :=
  let s' := s.observe h tc (forLLM 0)
  let toolMsg := toolMessage tc (forLLM 0)
  match s.detectCall h tc (forLLM 0) with
  | some (.critical, msg) => { loopDetector := s', msgs := [toolMsg], critical := some msg }
  | some (.warning, msg) =>
    { loopDetector := s', msgs := [toolMsg, textMessage .user msg], critical := none }
  | none => { loopDetector := s', msgs := [toolMsg], critical := none }

/-- The branch for several calls: their results are collected, put in
the order of the calls, and gone through. -/
def collect : List ToolCall → (idx : Nat) → ToolLoopState → Collected
  | [], _, s => { loopDetector := s, msgs := [], critical := none }
  | tc :: rest, idx, s =>
    let s' := s.observe h tc (forLLM idx)
    let toolMsg := toolMessage tc (forLLM idx)
    match s.detectCall h tc (forLLM idx) with
    | some (.critical, msg) => { loopDetector := s', msgs := [toolMsg], critical := some msg }
    | some (.warning, msg) =>
      let more := collect rest (idx + 1) s'
      { more with msgs := toolMsg :: textMessage .user msg :: more.msgs }
    | none =>
      let more := collect rest (idx + 1) s'
      { more with msgs := toolMsg :: more.msgs }

/-- The detector is silent on every call but the last. -/
def QuietBefore : List ToolCall → (idx : Nat) → ToolLoopState → Prop
  | [], _, _ => True
  | [_], _, _ => True
  | tc :: next :: rest, idx, s =>
    s.detectCall h tc (forLLM idx) = none
      ∧ QuietBefore (next :: rest) (idx + 1) (s.observe h tc (forLLM idx))

/-- A single call is a list of one. -/
theorem collectOne_eq (tc : ToolCall) (s : ToolLoopState) :
    collectOne h forLLM tc s = collect h forLLM [tc] 0 s := by
  rw [collectOne, collect]
  cases s.detectCall h tc (forLLM 0) with
  | none => rfl
  | some found =>
    obtain ⟨level, msg⟩ := found
    cases level <;> rfl

variable {h forLLM}

/-- Results for all calls, and after them at most a warning. -/
theorem collect_quiet {calls : List ToolCall} {idx : Nat} {s : ToolLoopState}
    (hquiet : QuietBefore h forLLM calls idx s) :
    ∃ results rest, (collect h forLLM calls idx s).msgs = results ++ rest
      ∧ (∀ r ∈ results, r.role = .tool)
      ∧ results.map Message.toolCallID = calls.map ToolCall.id
      ∧ ∀ m ∈ rest, ∃ msg, m = textMessage .user msg := by
  induction calls generalizing idx s with
  | nil => exact ⟨[], [], rfl, by simp, rfl, by simp⟩
  | cons tc calls ih =>
    rw [collect]
    cases calls with
    | nil =>
      cases s.detectCall h tc (forLLM idx) with
      | none => exact ⟨[toolMessage tc (forLLM idx)], [], rfl, by simp [toolMessage], rfl, by simp⟩
      | some found =>
        obtain ⟨level, msg⟩ := found
        cases level with
        | critical =>
          exact ⟨[toolMessage tc (forLLM idx)], [], rfl, by simp [toolMessage], rfl, by simp⟩
        | warning =>
          refine ⟨[toolMessage tc (forLLM idx)], [textMessage .user msg], rfl,
            by simp [toolMessage], rfl, ?_⟩
          intro m hm
          exact ⟨msg, List.mem_singleton.mp hm⟩
    | cons next calls =>
      obtain ⟨hsilent, hquiet⟩ := hquiet
      obtain ⟨results, rest, hmsgs, htool, hids, hrest⟩ := ih hquiet
      refine ⟨toolMessage tc (forLLM idx) :: results, rest, ?_, ?_, ?_, hrest⟩
      · rw [hsilent]
        exact congrArg (toolMessage tc (forLLM idx) :: ·) hmsgs
      · intro r hr
        cases hr with
        | head => rfl
        | tail _ hr => exact htool r hr
      · rw [List.map_cons, List.map_cons, hids]
        rfl

/-- A call before the last on which the detector speaks up: the results
stop there. -/
theorem collect_loud {calls : List ToolCall} {idx : Nat} {s : ToolLoopState}
    (hloud : ¬ QuietBefore h forLLM calls idx s) :
    ∃ results rest, (collect h forLLM calls idx s).msgs = results ++ rest
      ∧ results.length < calls.length ∧ ∀ m ∈ rest.head?, m.role ≠ .tool := by
  induction calls generalizing idx s with
  | nil => exact absurd trivial hloud
  | cons tc calls ih =>
    cases calls with
    | nil => exact absurd trivial hloud
    | cons next calls =>
      rw [collect]
      cases hdetect : s.detectCall h tc (forLLM idx) with
      | none =>
        have hrest : ¬ QuietBefore h forLLM (next :: calls) (idx + 1)
            (s.observe h tc (forLLM idx)) := fun hq => hloud ⟨hdetect, hq⟩
        obtain ⟨results, rest, hmsgs, hlen, hhead⟩ := ih hrest
        refine ⟨toolMessage tc (forLLM idx) :: results, rest, ?_, ?_, hhead⟩
        · exact congrArg (toolMessage tc (forLLM idx) :: ·) hmsgs
        · simpa using hlen
      | some found =>
        obtain ⟨level, msg⟩ := found
        cases level with
        | critical =>
          exact ⟨[toolMessage tc (forLLM idx)], [], rfl, by simp, by simp⟩
        | warning =>
          exact ⟨[toolMessage tc (forLLM idx)], _, rfl, by simp, by simp [textMessage]⟩

/-- The messages are results and user messages. -/
theorem collect_roles (calls : List ToolCall) (idx : Nat) (s : ToolLoopState) :
    ∀ m ∈ (collect h forLLM calls idx s).msgs, m.role = .tool ∨ m.role = .user := by
  induction calls generalizing idx s with
  | nil => simp [collect]
  | cons tc calls ih =>
    have hrest := ih (idx + 1) (s.observe h tc (forLLM idx))
    rw [collect]
    cases s.detectCall h tc (forLLM idx) with
    | none => simpa [toolMessage] using hrest
    | some found =>
      obtain ⟨level, msg⟩ := found
      cases level with
      | critical => simp [toolMessage]
      | warning => simpa [toolMessage, textMessage] using hrest

end

end LendingClaw.Agent
