/-
LendingClaw.Http.Completions — the chat completion endpoint
(`internal/completions/completions.go`,
`internal/transport/http/handler/completions.go`).

A request is checked before anything is sent. A streamed answer passes
the texts of the provider on as they come and ends with the finish
reason, or with the error if the provider gives up after the headers are
out. The id and the time of an answer are parameters.
-/
import LendingClaw.Providers.ChatRequests

namespace LendingClaw.Http

open LendingClaw.Providers
open LendingClaw.Lib (NumberLiteral intLiteral trimSpace)

/-! ## The service -/

/-- `MaxTokens`. -/
def maxCompletionTokens : Int := 16384

/-- `ChatCompletionRequest`; the tool choice is the text of its value. -/
structure ChatCompletionRequest where
  messages : List Message
  model : String := ""
  stream : Bool := false
  maxTokens : Int := 0
  temperature : Option NumberLiteral := none
  topP : Option NumberLiteral := none
  tools : List Lib.Json := []
  toolChoice : String := ""

inductive CompletionError where
  | notConfigured
  | validation (message : String)
  | provider (err : RequestError)

/-- `Error`. -/
def CompletionError.text : CompletionError → String
  | .notConfigured => "completion provider is not configured"
  | .validation message => message
  | .provider err => err.text

/-- `Service`. -/
structure CompletionService where
  provider : Option OpenAIProvider
  defaultModel : String

/-- `hasToolChoice`. -/
def hasToolChoice (raw : String) : Bool := trimSpace raw != "" && trimSpace raw != "null"

/-- `Validate`. -/
def CompletionService.validate (s : CompletionService) (req : ChatCompletionRequest) :
    Option CompletionError :=
  if s.provider.isNone then some .notConfigured
  else if req.messages = [] then some (.validation "messages is required")
  else if req.tools ≠ [] ∨ hasToolChoice req.toolChoice = true then
    some (.validation "tools are not supported on this endpoint")
  else if req.maxTokens < 0 ∨ req.maxTokens > maxCompletionTokens then
    some (.validation ("max_tokens must be between 0 and " ++ toString maxCompletionTokens))
  else none

/-- The model of a request. -/
def CompletionService.modelOf (s : CompletionService) (p : OpenAIProvider)
    (req : ChatCompletionRequest) : String :=
  if trimSpace req.model ≠ "" then trimSpace req.model
  else if trimSpace s.defaultModel ≠ "" then trimSpace s.defaultModel
  else p.defaultModel

/-- `providerRequest`, with the provider that gets it. -/
def CompletionService.providerRequest (s : CompletionService) (req : ChatCompletionRequest) :
    Except CompletionError (OpenAIProvider × ModelRequest) :=
  match s.validate req, s.provider with
  | some err, _ => .error err
  | none, none => .error .notConfigured
  | none, some p =>
    .ok (p,
      { messages := req.messages
        model := s.modelOf p req
        options := { maxTokens := req.maxTokens, temperature := req.temperature, topP := req.topP } })

/-- `FinishReason`. -/
def completionFinishReason (reason : String) : String := if reason = "" then "stop" else reason

/-- `UsageFrom`, as it is written. -/
def usageJson (usage : Usage) : Lib.Json :=
  .obj [("prompt_tokens", .num (intLiteral usage.promptTokens)),
    ("completion_tokens", .num (intLiteral usage.completionTokens)),
    ("total_tokens", .num (intLiteral usage.totalTokens))]

/-- The id and the time of an answer. -/
structure Stamp where
  id : String
  created : Int

/-- `Message`, whose fields are left out if empty. -/
def messageFields (role content : String) : List (String × Lib.Json) :=
  (if role ≠ "" then [("role", .str role)] else [])
    ++ (if content ≠ "" then [("content", .str content)] else [])

/-- `ChatCompletionChunk`. -/
def chunkJson (stamp : Stamp) (model content : String) (finishReason : Option String)
    (usage : Option Usage) : Lib.Json :=
  .obj ([("id", .str stamp.id), ("object", .str "chat.completion.chunk"),
      ("created", .num (intLiteral stamp.created)), ("model", .str model),
      ("choices", .arr [.obj [("index", .num (intLiteral 0)), ("delta", .obj (messageFields "" content)),
        ("finish_reason", finishReason.elim .null .str)]])]
    ++ (usage.map fun u => ("usage", usageJson u)).toList)

/-- `ChatCompletionResponse`. -/
def responseJson (stamp : Stamp) (model : String) (resp : ChatResponse) : Lib.Json :=
  .obj ([("id", .str stamp.id), ("object", .str "chat.completion"),
      ("created", .num (intLiteral stamp.created)), ("model", .str model),
      ("choices", .arr [.obj [("index", .num (intLiteral 0)),
        ("message", .obj (messageFields "assistant" resp.content)),
        ("finish_reason", .str (completionFinishReason resp.finishReason))]])]
    ++ (resp.usage.map fun u => ("usage", usageJson u)).toList)

/-! ## The handler -/

/-- The error that is written into a stream. -/
def streamErrorJson (err : String) : Lib.Json :=
  .obj [("error", .obj [("message", .str ("completion failed: " ++ err)), ("type", .str "server_error")])]

/-- `"data: %s\n\n"`. -/
def dataFrame (text : List Char) : List Char := "data: ".toList ++ text ++ ['\n', '\n']

/-- The texts that are passed on. -/
def passedOn (s : Streamed) : List String := (s.emitted.map StreamChunk.content).filter (· ≠ "")

/-- The value that tells how a stream ended. -/
def endingValues (stamp : Stamp) (model : String) : Ending → List Lib.Json
  | .ok resp =>
    [chunkJson stamp model "" (some (completionFinishReason resp.finishReason)) resp.usage]
  | .error err => [streamErrorJson err.text]
  | .panic => []

/-- The values of the events of a stream. -/
def streamValues (stamp : Stamp) (model : String) (s : Streamed) : List Lib.Json :=
  (passedOn s).map (fun content => chunkJson stamp model content none none)
    ++ endingValues stamp model s.ending

/-- The text of an event stream: a panic leaves out the end mark. -/
def streamText (stamp : Stamp) (model : String) (s : Streamed) : List Char :=
  (streamValues stamp model s).flatMap (fun value => dataFrame value.marshal)
    ++ if s.ending.broken then [] else dataFrame "[DONE]".toList

/-- A response: an error, a JSON value, or an event stream, which a panic
breaks off. -/
inductive CompletionAnswer where
  | error (status : Nat) (message : String)
  | json (value : Lib.Json)
  | stream (text : List Char) (broken : Bool)

/-- The body ends before its time. -/
def CompletionAnswer.broken : CompletionAnswer → Bool
  | .stream _ broken => broken
  | _ => false

/-- `writeCompletionError`. -/
def completionErrorAnswer : CompletionError → CompletionAnswer
  | .validation message => .error 400 message
  | err => .error 500 ("completion failed: " ++ err.text)

/-- `streamChatCompletion`. -/
def streamChatCompletion (p : OpenAIProvider) (stamp : Stamp) (req : ModelRequest) : CompletionAnswer :=
  let s := p.chatStream req
  .stream (streamText stamp req.model s) s.ending.broken

/-- `ChatCompletions`, for a body that could be read, or not, and a writer
that can flush, or not. -/
def chatCompletions (s : CompletionService) (stamp : Stamp) (flusher : Bool)
    (body : Option ChatCompletionRequest) : CompletionAnswer :=
  match body with
  | none => .error 400 "invalid JSON body"
  | some req =>
    match s.providerRequest req with
    | .error err => completionErrorAnswer err
    | .ok (p, providerReq) =>
      if req.stream then
        if flusher then streamChatCompletion p stamp providerReq
        else .error 500 "streaming not supported"
      else
        match p.chat providerReq with
        | .error err => completionErrorAnswer (.provider err)
        | .ok resp => .json (responseJson stamp providerReq.model resp)

/-! ## Requests that are answered -/

section
variable {s : CompletionService} {req : ChatCompletionRequest}

/-- A request that passes the checks goes to the provider, its messages
unchanged and without tools. -/
theorem CompletionService.providerRequest_ok {p : OpenAIProvider} {providerReq : ModelRequest}
    (h : s.providerRequest req = .ok (p, providerReq)) :
    s.provider = some p ∧ s.validate req = none ∧ providerReq.messages = req.messages
      ∧ providerReq.tools = [] ∧ providerReq.model = s.modelOf p req := by
  unfold CompletionService.providerRequest at h
  split at h
  · cases h
  · cases h
  · obtain ⟨rfl, rfl⟩ := Prod.mk.inj (Except.ok.inj h)
    exact ⟨by assumption, by assumption, rfl, rfl, rfl⟩

/-- The texts that are passed on are all that the provider has emitted. -/
theorem join_passedOn (s : Streamed) :
    String.join (passedOn s) = String.join (s.emitted.map StreamChunk.content) := by
  unfold passedOn
  generalize s.emitted.map StreamChunk.content = texts
  induction texts with
  | nil => rfl
  | cons text texts ih =>
    by_cases h : text = ""
    · simpa [h] using ih
    · simpa [h] using ih

end

/-! ## A completion at the second attempt -/

/-- A chunk with a text. -/
def textChunk (content finishReason : String) : OpenAIStreamChunk :=
  { choices := [{ delta := { content := content, toolCalls := [] }, finishReason := finishReason }]
    usage := none }

def skillUnmarshal : Unmarshal where
  chunk text :=
    if text = "a" then some (textChunk "# Loan" "")
    else if text = "b" then some (textChunk " review" "stop")
    else none
  arguments text := ⟨text⟩
  done_invalid := by decide

/-- A server that is busy once. -/
def busyOnce : OpenAIProvider where
  name := "openai"
  defaultModel := "gpt"
  json := skillUnmarshal
  stream _ attempt :=
    if attempt = 1 then .error (.http 503 "openai: busy")
    else .ok { lines := ["data: a", "", "data:b", "", "data: [DONE]"] }
  fetch _ _ := .error (.http 503 "openai: busy")

def skillRequest : ChatCompletionRequest where
  messages := [textMessage .user "Write a skill"]
  stream := true
  maxTokens := 4096

def skillModelRequest : ModelRequest where
  messages := [textMessage .user "Write a skill"]
  model := "gpt"
  options := { maxTokens := 4096 }

def skillStamp : Stamp := { id := "chatcmpl-1", created := 0 }

end LendingClaw.Http
