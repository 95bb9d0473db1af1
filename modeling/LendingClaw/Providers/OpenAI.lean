/-
LendingClaw.Providers.OpenAI — the two decoders of a chat completion
(`internal/providers/openai.go`).

`parseResponse` reads a whole response, `chatStream` the lines of an
event stream. `json.Unmarshal` into a chunk and into an argument map is a
parameter; of the first it is only asked that it refuses `[DONE]`, which
is no JSON. A stream that was opened is all there is here: the request
and its retries come before.
-/
import LendingClaw.Lib.Strings
import LendingClaw.Providers.Types
import Mathlib.Data.List.AList

namespace LendingClaw.Providers

/-! ## The wire format -/

structure OpenAIFunctionCall where
  name : String
  arguments : String
  deriving DecidableEq

structure OpenAIToolCall where
  id : String
  function : OpenAIFunctionCall
  deriving DecidableEq

structure OpenAIMessage where
  content : String
  toolCalls : List OpenAIToolCall
  deriving DecidableEq

structure OpenAIChoice where
  message : OpenAIMessage
  finishReason : String
  deriving DecidableEq

/-- `openAIUsage`; the details are the number of cached tokens. -/
structure OpenAIUsage where
  promptTokens : Int
  completionTokens : Int
  totalTokens : Int
  promptTokensDetails : Option Int
  deriving DecidableEq

structure OpenAIResponse where
  choices : List OpenAIChoice
  usage : Option OpenAIUsage
  deriving DecidableEq

structure OpenAIStreamToolCall where
  index : Int
  id : String
  function : OpenAIFunctionCall
  deriving DecidableEq

structure OpenAIStreamDelta where
  content : String
  toolCalls : List OpenAIStreamToolCall
  deriving DecidableEq

structure OpenAIStreamChoice where
  delta : OpenAIStreamDelta
  finishReason : String
  deriving DecidableEq

structure OpenAIStreamChunk where
  choices : List OpenAIStreamChoice
  usage : Option OpenAIUsage
  deriving DecidableEq

/-- `json.Unmarshal` of the data of an event, none being an error, and of
an argument text into an empty map, whatever it leaves there. -/
structure Unmarshal where
  chunk : String → Option OpenAIStreamChunk
  arguments : String → Arguments
  done_invalid : chunk "[DONE]" = none

def OpenAIUsage.toUsage (u : OpenAIUsage) : Usage :=
  { promptTokens := u.promptTokens
    completionTokens := u.completionTokens
    totalTokens := u.totalTokens
    cacheCreationTokens := 0
    cacheReadTokens := u.promptTokensDetails.getD 0 }

/-! ## The whole response -/

def OpenAIToolCall.parse (json : Unmarshal) (tc : OpenAIToolCall) : ToolCall :=
  { id := tc.id
    name := Lib.trimSpace tc.function.name
    arguments := json.arguments tc.function.arguments }

/-- `parseResponse`. -/
def parseResponse (json : Unmarshal) (resp : OpenAIResponse) : ChatResponse :=
  match resp.choices with
  | [] =>
    { content := ""
      toolCalls := []
      finishReason := "stop"
      usage := resp.usage.map OpenAIUsage.toUsage }
  | choice :: _ =>
    { content := choice.message.content
      toolCalls := choice.message.toolCalls.map (OpenAIToolCall.parse json)
      finishReason :=
        if choice.message.toolCalls = [] then choice.finishReason else "tool_calls"
      usage := resp.usage.map OpenAIUsage.toUsage }

/-! ## The stream -/

/-- `toolCallAccumulator`, less the arguments it gets at the end. -/
structure ToolCallAccumulator where
  id : String
  name : String
  rawArgs : String
  deriving DecidableEq

abbrev Accumulators := AList (fun _ : Int => ToolCallAccumulator)

/-- A new accumulator has the id of the delta that opens it. -/
def newAccumulator (tc : OpenAIStreamToolCall) : ToolCallAccumulator :=
  { id := tc.id, name := Lib.trimSpace tc.function.name, rawArgs := "" }

def ToolCallAccumulator.add (acc : ToolCallAccumulator) (tc : OpenAIStreamToolCall) :
    ToolCallAccumulator :=
  { acc with
    name := if tc.function.name ≠ "" then Lib.trimSpace tc.function.name else acc.name
    rawArgs := acc.rawArgs ++ tc.function.arguments }

/-- The accumulator of an index, after one more delta. -/
def accumulate (acc : Option ToolCallAccumulator) (tc : OpenAIStreamToolCall) :
    ToolCallAccumulator :=
  (acc.getD (newAccumulator tc)).add tc

def addDelta (accs : Accumulators) (tc : OpenAIStreamToolCall) : Accumulators :=
  accs.insert tc.index (accumulate (accs.lookup tc.index) tc)

/-- The locals of `ChatStream`, and the chunks handed to `onChunk`. -/
structure StreamState where
  content : String
  finishReason : String
  usage : Option Usage
  accumulators : Accumulators
  emitted : List StreamChunk

def StreamState.start : StreamState :=
  { content := "", finishReason := "stop", usage := none, accumulators := ∅, emitted := [] }

/-- The first choice of a chunk. -/
def StreamState.choose (st : StreamState) (choice : OpenAIStreamChoice) : StreamState :=
  let delta := choice.delta
  { st with
    content := st.content ++ delta.content
    emitted :=
      if delta.content ≠ "" then st.emitted ++ [{ content := delta.content, done := false }]
      else st.emitted
    accumulators := delta.toolCalls.foldl addDelta st.accumulators
    finishReason := if choice.finishReason ≠ "" then choice.finishReason else st.finishReason }

/-- One chunk: the usage is read before the choices. -/
def StreamState.add (st : StreamState) (chunk : OpenAIStreamChunk) : StreamState :=
  let st :=
    match chunk.usage with
    | some u => { st with usage := some u.toUsage }
    | none => st
  match chunk.choices with
  | [] => st
  | choice :: _ => st.choose choice

/-- `bufio.MaxScanTokenSize`. -/
def maxScanTokenSize : Nat := 64 * 1024

/-- `dropCR` of `bufio.ScanLines`. -/
def dropCR (line : String) : String :=
  if line.toList.getLast? = some '\r' then String.ofList line.toList.dropLast else line

/-- The scan loop over the lines of the body. A line that fills the
buffer stops the scanner with its error. -/
def scanLines (json : Unmarshal) (name : String) : List String → StreamState →
    Except String StreamState
  | [], st => .ok st
  | line :: rest, st =>
    if line.utf8ByteSize ≥ maxScanTokenSize then
      .error (name ++ ": stream read error: bufio.Scanner: token too long")
    else if !Lib.hasPrefix (dropCR line) "data:" then scanLines json name rest st
    else
      let data := Lib.trimPrefix (Lib.trimPrefix (dropCR line) "data:") " "
      if data = "[DONE]" then .ok st
      else
        match json.chunk data with
        | none => scanLines json name rest st
        | some chunk => scanLines json name rest (st.add chunk)

def ToolCallAccumulator.toolCall (json : Unmarshal) (acc : ToolCallAccumulator) : ToolCall :=
  { id := acc.id, name := acc.name, arguments := json.arguments acc.rawArgs }

/-- The loop that reads the accumulators back, counting up; none is the
panic on an index without one. -/
def readBack (json : Unmarshal) (accs : Accumulators) : (count i : Nat) → Option (List ToolCall)
  | 0, _ => some []
  | count + 1, i =>
    match accs.lookup (i : Int) with
    | none => none
    | some acc => (readBack json accs count (i + 1)).map (acc.toolCall json :: ·)

inductive StreamOutcome where
  | ok (resp : ChatResponse) (emitted : List StreamChunk)
  | error (err : String)
  | panic

/-- `ChatStream`, over the lines of the response body. -/
def chatStream (json : Unmarshal) (name : String) (body : List String) : StreamOutcome :=
  match scanLines json name body .start with
  | .error err => .error err
  | .ok st =>
    match readBack json st.accumulators st.accumulators.entries.length 0 with
    | none => .panic
    | some toolCalls =>
      .ok
        { content := st.content
          toolCalls := toolCalls
          finishReason := if toolCalls = [] then st.finishReason else "tool_calls"
          usage := st.usage }
        (st.emitted ++ [{ content := "", done := true }])

end LendingClaw.Providers
