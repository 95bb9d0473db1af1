/-
LendingClaw.Providers.ChatRequests — the requests of a provider and what
comes of them (`buildRequestBody`, `Chat` and `ChatStream` of
`internal/providers/openai.go`).

The server is a parameter: what it answers to the body of an attempt. A
stream may break off at a read error, or in a panic; the chunks handed to
`onChunk` before that are part of the outcome.
-/
import LendingClaw.Lib.Json
import LendingClaw.Providers.MessageJson
import LendingClaw.Providers.OpenAI
import LendingClaw.Providers.Retry

namespace LendingClaw.Providers

open LendingClaw.Lib (NumberLiteral intLiteral)

/-! ## Requests -/

/-- `ChatOptions`. -/
structure ChatOptions where
  maxTokens : Int := 0
  temperature : Option NumberLiteral := none
  topP : Option NumberLiteral := none

/-- `ChatRequest` with its model, its options and its tools. -/
structure ModelRequest where
  messages : List Message
  tools : List Lib.Json := []
  model : String := ""
  options : ChatOptions := {}

/-- A tool call of a message. -/
def ToolCall.requestJson (tc : ToolCall) : Lib.Json :=
  .obj [("function", .obj [("arguments", .str tc.arguments.json), ("name", .str tc.name)]),
    ("id", .str tc.id), ("type", .str "function")]

/-- A message: no empty content beside tool calls. -/
def Message.requestJson (m : Message) : Lib.Json :=
  .obj ((if m.content ≠ "" ∨ m.toolCalls = [] then [("content", .str m.content)] else [])
    ++ [("role", .str m.role.text)]
    ++ (if m.toolCallID ≠ "" then [("tool_call_id", .str m.toolCallID)] else [])
    ++ (if m.toolCalls ≠ [] then [("tool_calls", .arr (m.toolCalls.map ToolCall.requestJson))] else []))

/-- `buildRequestBody`. -/
def buildRequestBody (model : String) (req : ModelRequest) (stream : Bool) : Lib.Json :=
  .obj ((if req.options.maxTokens > 0 then [("max_tokens", .num (intLiteral req.options.maxTokens))]
      else [])
    ++ [("messages", .arr (req.messages.map Message.requestJson)), ("model", .str model),
      ("stream", .bool stream)]
    ++ (if stream then [("stream_options", .obj [("include_usage", .bool true)])] else [])
    ++ (req.options.temperature.map fun t => ("temperature", Lib.Json.num t)).toList
    ++ (if req.tools ≠ [] then [("tool_choice", .str "auto"), ("tools", .arr req.tools)] else [])
    ++ (req.options.topP.map fun p => ("top_p", Lib.Json.num p)).toList)

/-! ## The provider -/

/-- A response body that is being read: its lines, and the error that
reading it ends with. -/
structure Body where
  lines : List String
  failure : Option String := none

/-- `OpenAIProvider`, and how its requests fare: what the server answers
to a body at an attempt, as a stream or whole, and whether the wait after
an attempt is cut short. -/
structure OpenAIProvider where
  name : String
  defaultModel : String
  attempts : Int := 3
  json : Unmarshal
  stream : Lib.Json → Nat → Except RequestError Body
  fetch : Lib.Json → Nat → Except RequestError OpenAIResponse
  cancelled : Nat → Option RequestError := fun _ => none

namespace OpenAIProvider

variable (p : OpenAIProvider) (req : ModelRequest)

/-- `resolveModel`. -/
def resolveModel (model : String) : String := if model = "" then p.defaultModel else model

/-- The body of a request. -/
def requestBody (stream : Bool) : Lib.Json := buildRequestBody (p.resolveModel req.model) req stream

/-- The attempts of `ChatStream` to connect. -/
def connect : Retried Body := retryDo (p.stream (p.requestBody req true)) p.cancelled p.attempts

/-- `Chat`. -/
def chat : Except RequestError ChatResponse :=
  (retryDo (p.fetch (p.requestBody req false)) p.cancelled p.attempts).result.map (parseResponse p.json)

end OpenAIProvider

/-! ## A stream that may break off -/

/-- How the scan loop ends. -/
inductive ScanEnd where
  | finished
  | exhausted
  | tooLong

/-- The scan loop with the state it ends in, whatever ends it. -/
def scanBody (json : Unmarshal) : List String → StreamState → StreamState × ScanEnd
  | [], st => (st, .exhausted)
  | line :: rest, st =>
    if line.utf8ByteSize ≥ maxScanTokenSize then (st, .tooLong)
    else if !Lib.hasPrefix (dropCR line) "data:" then scanBody json rest st
    else
      let data := Lib.trimPrefix (Lib.trimPrefix (dropCR line) "data:") " "
      if data = "[DONE]" then (st, .finished)
      else
        match json.chunk data with
        | none => scanBody json rest st
        | some chunk => scanBody json rest (st.add chunk)

/-- What came of a call of `ChatStream`. -/
inductive Ending where
  | ok (resp : ChatResponse)
  | error (err : RequestError)
  | panic
  deriving DecidableEq

/-- A panic leaves no outcome. -/
def Ending.broken : Ending → Bool
  | .panic => true
  | _ => false

/-- The chunks handed to `onChunk`, and the ending. -/
structure Streamed where
  emitted : List StreamChunk
  ending : Ending
  deriving DecidableEq

/-- `ChatStream` once the body is open. -/
def readStream (json : Unmarshal) (name : String) (body : Body) : Streamed :=
  let scanned := scanBody json body.lines .start
  let err := match scanned.2 with
    | .finished => none
    | .exhausted => body.failure
    | .tooLong => some "bufio.Scanner: token too long"
  match err with
  | some err =>
    { emitted := scanned.1.emitted, ending := .error (.other (name ++ ": stream read error: " ++ err)) }
  | none =>
    let st := scanned.1
    match readBack json st.accumulators st.accumulators.entries.length 0 with
    | none => { emitted := st.emitted, ending := .panic }
    | some toolCalls =>
      { emitted := st.emitted ++ [{ content := "", done := true }]
        ending := .ok
          { content := st.content
            toolCalls := toolCalls
            finishReason := if toolCalls = [] then st.finishReason else "tool_calls"
            usage := st.usage } }

/-- `ChatStream`. -/
def OpenAIProvider.chatStream (p : OpenAIProvider) (req : ModelRequest) : Streamed :=
  match (p.connect req).result with
  | .error err => { emitted := [], ending := .error err }
  | .ok body => readStream p.json p.name body

/-! ## What a scan hands on -/

section
variable {json : Unmarshal}

/-- The texts handed to `onChunk` are the content that was collected, and
none is empty. -/
structure StreamState.Emits (st : StreamState) : Prop where
  content : String.join (st.emitted.map StreamChunk.content) = st.content
  chunks : ∀ chunk ∈ st.emitted, chunk.content ≠ "" ∧ chunk.done = false

theorem StreamState.Emits.start : StreamState.start.Emits where
  content := rfl
  chunks := by simp [StreamState.start]

theorem StreamState.Emits.choose {st : StreamState} (h : st.Emits) (choice : OpenAIStreamChoice) :
    (st.choose choice).Emits := by
  unfold StreamState.choose
  by_cases hempty : choice.delta.content = ""
  · exact ⟨by simp [hempty, h.content], by simpa [hempty] using h.chunks⟩
  · refine ⟨?_, ?_⟩
    · simp [hempty, String.join_append, h.content]
    · intro chunk hmem
      simp only [ne_eq, hempty, not_false_eq_true, if_true, List.mem_append,
        List.mem_singleton] at hmem
      rcases hmem with hmem | rfl
      · exact h.chunks chunk hmem
      · exact ⟨hempty, rfl⟩

theorem StreamState.Emits.add {st : StreamState} (h : st.Emits) (chunk : OpenAIStreamChunk) :
    (st.add chunk).Emits := by
  have husage : ∀ st : StreamState, st.Emits → ∀ usage, ({ st with usage := usage } : StreamState).Emits :=
    fun st h _ => ⟨h.content, h.chunks⟩
  unfold StreamState.add
  cases chunk.usage with
  | none =>
    cases chunk.choices with
    | nil => exact h
    | cons choice _ => exact h.choose choice
  | some u =>
    cases chunk.choices with
    | nil => exact husage st h _
    | cons choice _ => exact (husage st h _).choose choice

theorem scanBody_emits (lines : List String) {st : StreamState} (h : st.Emits) :
    (scanBody json lines st).1.Emits := by
  induction lines generalizing st with
  | nil => exact h
  | cons line rest ih =>
    unfold scanBody
    split
    · exact h
    · split
      · exact ih h
      · dsimp only
        split
        · exact h
        · split
          · exact ih h
          · exact ih (h.add _)

/-- The scan of a body that can be read to its end is that of the whole
stream. -/
theorem scanLines_scanBody (name : String) (lines : List String) (st : StreamState) :
    scanLines json name lines st
      = match scanBody json lines st with
        | (_, .tooLong) => .error (name ++ ": stream read error: bufio.Scanner: token too long")
        | (st, _) => .ok st := by
  induction lines generalizing st with
  | nil => rfl
  | cons line rest ih =>
    unfold scanLines scanBody
    split
    · rfl
    · split
      · exact ih st
      · dsimp only
        split
        · rfl
        · cases json.chunk (Lib.trimPrefix (Lib.trimPrefix (dropCR line) "data:") " ") with
          | none => exact ih st
          | some chunk => exact ih _

/-- A body without a read error is read as the whole stream is. -/
theorem readStream_lines (name : String) (lines : List String) :
    chatStream json name lines
      = match (readStream json name { lines := lines }).ending with
        | .ok resp => .ok resp (readStream json name { lines := lines }).emitted
        | .error err => .error err.text
        | .panic => .panic := by
  unfold chatStream readStream
  rw [scanLines_scanBody]
  cases hscan : scanBody json lines .start with
  | mk st stop =>
    cases stop with
    | tooLong => simp [RequestError.text, String.append_assoc]
    | finished =>
      dsimp only
      cases readBack json st.accumulators st.accumulators.entries.length 0 <;> rfl
    | exhausted =>
      dsimp only
      cases readBack json st.accumulators st.accumulators.entries.length 0 <;> rfl

/-- What a stream hands on: texts that are not empty, which in a stream
that comes to its end are its content, and then the last chunk. -/
structure Streamed.Faithful (s : Streamed) : Prop where
  texts : ∀ chunk ∈ s.emitted, chunk.done = false → chunk.content ≠ ""
  content : ∀ resp, s.ending = .ok resp →
    String.join (s.emitted.map StreamChunk.content) = resp.content

theorem readStream_faithful (name : String) (body : Body) : (readStream json name body).Faithful := by
  have hemits : (scanBody json body.lines .start).1.Emits := scanBody_emits _ StreamState.Emits.start
  unfold readStream
  dsimp only
  split
  · exact ⟨fun chunk hmem _ => (hemits.chunks chunk hmem).1, fun resp h => by cases h⟩
  · split
    · exact ⟨fun chunk hmem _ => (hemits.chunks chunk hmem).1, fun resp h => by cases h⟩
    · refine ⟨?_, ?_⟩
      · intro chunk hmem hdone
        rcases List.mem_append.mp hmem with hmem | hmem
        · exact (hemits.chunks chunk hmem).1
        · rw [List.mem_singleton.mp hmem] at hdone
          cases hdone
      · intro resp h
        obtain rfl := Ending.ok.inj h
        simp [String.join_append, hemits.content]

theorem OpenAIProvider.chatStream_faithful (p : OpenAIProvider) (req : ModelRequest) :
    (p.chatStream req).Faithful := by
  unfold OpenAIProvider.chatStream
  split
  · exact ⟨by simp, fun resp h => by cases h⟩
  · exact readStream_faithful p.name _

end

end LendingClaw.Providers
