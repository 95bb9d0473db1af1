/-
LendingClaw.Agent.Run — a whole run of the agent and the events it emits
(`Run` and `runLoop` of `internal/agent/loop.go`).

The message is cut to its limit and scanned; a rejected run has two
events. Otherwise the iterations of `Agent.Loop` are run, each with the
chunks that the provider streams and the failures of its tools, and the
run ends with the event that tells its outcome. The title is what
`maybeGenerateSessionTitle` answers, and the JSON value of an argument
object is a parameter.
-/
import LendingClaw.Agent.Events
import LendingClaw.Agent.InputGuard
import LendingClaw.Agent.Loop
import LendingClaw.Lib.Runes

namespace LendingClaw.Agent

open LendingClaw.Providers LendingClaw.Lib

/-! ## Texts and numbers of the payloads -/

/-- The first `n` bytes of a text, as they are written as JSON. -/
def cutText (n : Nat) (text : String) : String :=
  if (utf8 text.toList).length > n then String.ofList (runes ((utf8 text.toList).take n)) else text

/-! ## The agent and its requests -/

/-- `Loop`, with its name and its settings for user messages. -/
structure AgentLoop extends Loop where
  id : String
  maxMessageChars : Nat
  injectionAction : String

structure RunRequest where
  sessionKey : String
  message : String
  channel : String
  userID : String
  runID : String
  stream : Bool

/-- What the provider and the tools do in one iteration, with the chunks
that come before the response and the calls that fail. -/
structure Reply where
  turn : Turn
  chunks : List String
  isError : Nat → Bool

structure RunResult where
  content : String
  title : String
  runID : String
  iterations : Nat
  promptTokens : Int
  completionTokens : Int

/-- What a run leaves: its events, its result, and the messages that it
has flushed to the session. -/
structure Ran where
  events : List AgentEvent
  result : Except String RunResult
  flushed : Option (List Message)

/-! ## The message -/

/-- The truncation of oversized messages. -/
def AgentLoop.truncate (a : AgentLoop) (message : String) : String :=
  let originalLen := (utf8 message.toList).length
  if originalLen > a.maxMessageChars then
    cutText a.maxMessageChars message ++ "\n\n[System: Message was truncated from "
      ++ toString originalLen ++ " to " ++ toString a.maxMessageChars
      ++ " characters due to size limit.]"
  else message

/-- The input guard is there, finds something, and may block. -/
def AgentLoop.rejects (a : AgentLoop) (message : String) : Bool :=
  a.injectionAction ≠ "off" && scan message.toList ≠ [] && a.injectionAction = "block"

/-! ## Events -/

section
variable (a : AgentLoop) (req : RunRequest) (args : Arguments → Lib.Json)

def callEvent (tc : ToolCall) : AgentEvent :=
  .toolCall a.id req.runID tc.name tc.id (args tc.arguments)

def resultEvent (tc : ToolCall) (isError : Bool) (forLLM : String) : AgentEvent :=
  .toolResult a.id req.runID tc.name tc.id isError forLLM

/-- The results of several calls, up to a critical detection. -/
def resultEvents (reply : Reply) : List ToolCall → (idx : Nat) → ToolLoopState → List AgentEvent
  | [], _, _ => []
  | tc :: rest, idx, s =>
    let forLLM := reply.turn.forLLM idx
    resultEvent a req tc (reply.isError idx) forLLM ::
      match s.detectCall a.hashes tc forLLM with
      | some (.critical, _) => []
      | _ => resultEvents reply rest (idx + 1) (s.observe a.hashes tc forLLM)

/-- The events of the calls of a response. -/
def executeEvents (reply : Reply) (s : ToolLoopState) : List ToolCall → List AgentEvent
  | [tc] => [callEvent a req args tc, resultEvent a req tc (reply.isError 0) (reply.turn.forLLM 0)]
  | calls => calls.map (callEvent a req args) ++ resultEvents a req reply calls 0 s

def chunkEvents (reply : Reply) : List AgentEvent :=
  if req.stream then
    (reply.chunks.filter fun content => content ≠ "").map (.chunk a.id req.runID)
  else []

/-- The events of an iteration. -/
def iterationEvents (st : LoopState) (reply : Reply) : List AgentEvent :=
  match st.ended with
  | some _ => []
  | none =>
    chunkEvents a req reply ++
      match reply.turn.resp with
      | .error _ => []
      | .ok resp =>
        if resp.toolCalls = [] then [] else executeEvents a req args reply st.loopDetector resp.toolCalls

def runStarted : AgentEvent :=
  { type := .runStarted, agentID := a.id, runID := req.runID
    payload := some (.obj [("channel", .str req.channel),
      ("input_preview", .str (cutText 200 req.message)), ("session_key", .str req.sessionKey),
      ("user_id", .str req.userID)]) }

def runCompleted (result : RunResult) : AgentEvent :=
  { type := .runCompleted, agentID := a.id, runID := req.runID
    payload := some (.obj [("content", .str result.content),
      ("input_tokens", .num (intLiteral result.promptTokens)),
      ("iterations", .num (intLiteral result.iterations)),
      ("output_preview", .str (cutText 200 result.content)),
      ("output_tokens", .num (intLiteral result.completionTokens)), ("title", .str result.title)]) }

/-- The last event of `Run`. -/
def terminalEvent : Except String RunResult → AgentEvent
  | .error err => .runFailed a.id req.runID err
  | .ok result => runCompleted a req result

/-! ## Runs -/

/-- The locals of `runLoop`, the events so far and the token totals. -/
structure Running where
  st : LoopState
  events : List AgentEvent
  promptTokens : Int
  completionTokens : Int

/-- The usage that an iteration reports. -/
def Reply.usage (reply : Reply) : Option Usage :=
  match reply.turn.resp with
  | .error _ => none
  | .ok resp => resp.usage

def Running.step (s : Running) (reply : Reply) : Running :=
  match s.st.ended with
  | some _ => s
  | none =>
    { st := a.iterate s.st reply.turn
      events := s.events ++ iterationEvents a req args s.st reply
      promptTokens := s.promptTokens + (reply.usage.map Usage.promptTokens).getD 0
      completionTokens := s.completionTokens + (reply.usage.map Usage.completionTokens).getD 0 }

def Running.start (r : RunInput) : Running :=
  { st := a.start r, events := [runStarted a req], promptTokens := 0, completionTokens := 0 }

/-- The first replies of an environment. -/
def replies (env : Nat → Reply) (n : Nat) : List Reply := (List.range n).map env

/-- What `runLoop` returns. -/
def Running.result (title : String) (s : Running) : Except String RunResult :=
  match s.st.ended with
  | some (.error err) => .error err
  | some (.ok content) => .ok (answer content)
  | none => .ok (answer "")
where
  answer (content : String) : RunResult :=
    { content := a.finalContent content, title := title, runID := req.runID
      iterations := s.st.iteration, promptTokens := s.promptTokens
      completionTokens := s.completionTokens }

/-- `Run`. -/
def AgentLoop.run (r : RunInput) (env : Nat → Reply) (title : String) : Ran :=
  let message := a.truncate req.message
  if a.rejects message then
    let err := "message rejected: potential prompt injection detected"
    { events := [runStarted a req, terminalEvent a req (.error err)]
      result := .error err
      flushed := none }
  else
    let s := Lib.run (Running.step a req args) (Running.start a req { r with message := message })
      (replies env a.maxIterations)
    let result := s.result a req title
    { events := s.events ++ [terminalEvent a req result]
      result := result
      flushed := a.flushed s.st }

end

/-! ## A run with a tool call -/

def lendingAgent : AgentLoop :=
  { defaultLoop with id := "claw", maxMessageChars := 32000, injectionAction := "off" }

def openLoans : RunRequest :=
  { sessionKey := "chat-1", message := "Which loans are open?", channel := "http", userID := "u1"
    runID := "r1", stream := true }

/-- A tool call, and then an answer in two chunks. -/
def searchThenAnswer (i : Nat) : Reply :=
  if i = 0 then
    { turn :=
        { resp := .ok
            { content := "", toolCalls := [{ id := "c1", name := "search", arguments := ⟨"\x7b\x7d"⟩ }]
              finishReason := "tool_calls", usage := none }
          compaction := none
          forLLM := fun _ => "L-7" }
      chunks := []
      isError := fun _ => false }
  else
    { turn :=
        { resp := .ok
            { content := "Loan L-7.", toolCalls := [], finishReason := "stop", usage := none }
          compaction := none
          forLLM := fun _ => "" }
      chunks := ["Loan ", "L-7."]
      isError := fun _ => false }

end LendingClaw.Agent
