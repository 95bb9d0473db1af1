/-
LendingClaw.Agent.Events — the events of an agent run
(`internal/agent/types.go`, the calls of `emit` in
`internal/agent/loop.go`).

The type of an event is one of six texts; the payload is any value that
`json.Marshal` writes, and nil is left out of the text.
-/
import LendingClaw.Lib.Json

namespace LendingClaw.Agent

open LendingClaw.Lib

inductive EventType where
  | runStarted
  | runCompleted
  | runFailed
  | chunk
  | toolCall
  | toolResult
  deriving DecidableEq

/-- The constants of `types.go`. -/
def EventType.text : EventType → String
  | .runStarted => "run.started"
  | .runCompleted => "run.completed"
  | .runFailed => "run.failed"
  | .chunk => "chunk"
  | .toolCall => "tool.call"
  | .toolResult => "tool.result"

/-- The events a run ends with. -/
def EventType.terminal : EventType → Bool
  | .runCompleted => true
  | .runFailed => true
  | _ => false

structure AgentEvent where
  type : EventType
  agentID : String
  runID : String
  payload : Option Json

namespace AgentEvent

/-- The id of the tool call that a payload is about. -/
def toolID (event : AgentEvent) : Option String :=
  (event.payload.bind (Json.field "id")).bind Json.text?

/-- The second event is the result of the first one's tool call. -/
def answers (call result : AgentEvent) : Bool :=
  call.type = .toolCall && result.type = .toolResult && call.toolID.isSome
    && call.toolID = result.toolID

/-! ## The events of a loop -/

variable (agentID runID : String)

def chunk (content : String) : AgentEvent :=
  { type := .chunk, agentID := agentID, runID := runID
    payload := some (.obj [("content", .str content)]) }

def toolCall (name id : String) (arguments : Json) : AgentEvent :=
  { type := .toolCall, agentID := agentID, runID := runID
    payload := some (.obj [("name", .str name), ("id", .str id), ("arguments", arguments)]) }

def toolResult (name id : String) (isError : Bool) (result : String) : AgentEvent :=
  { type := .toolResult, agentID := agentID, runID := runID
    payload := some (.obj [("name", .str name), ("id", .str id), ("is_error", .bool isError),
      ("result", .str result)]) }

def runFailed (error : String) : AgentEvent :=
  { type := .runFailed, agentID := agentID, runID := runID
    payload := some (.obj [("error", .str error)]) }

/-- A result answers the call of its id. -/
theorem answers_toolResult (name id : String) (arguments : Json) (isError : Bool)
    (result : String) :
    (toolCall agentID runID name id arguments).answers
      (toolResult agentID runID name id isError result) = true := by
  simp [answers, toolCall, toolResult, toolID, Json.field, Json.text?]

end AgentEvent

end LendingClaw.Agent
