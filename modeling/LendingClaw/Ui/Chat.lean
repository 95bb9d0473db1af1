/-
LendingClaw.Ui.Chat — the chat store of the user interface
(`useChatStore` of `ui/web/src/stores/chat.ts`), with the asynchronous
continuations of its runs.

There is one store and any number of runs: `sendMessage` starts one, and
what is left of it is delivered later, between any two other steps. A
continuation writes the store it finds, with nothing but its own
`completed` flag to tell it that its run is over. Abort reaches a run as
the rejection of `fetch` before the response and as a stream error after
it.
-/
import LendingClaw.Lib.JsText
import LendingClaw.Lib.Json
import LendingClaw.Lib.Parties
import LendingClaw.Lib.Runs

namespace LendingClaw.Ui

open LendingClaw.Lib

/-! ## The store -/

inductive ChatRole where
  | user
  | assistant
  | system
  | tool
  deriving DecidableEq

structure ChatMessage where
  role : ChatRole
  content : String
  deriving DecidableEq

inductive ToolStatus where
  | running
  | completed
  | failed
  deriving DecidableEq

structure UiToolCall where
  id : String
  name : String
  status : ToolStatus
  arguments : Option Json := none
  result : Option String := none

inductive ThinkingStep where
  | text (content : String)
  | toolCall (call : UiToolCall)

/-- `ChatState`; an abort controller is known by the run it belongs to. -/
structure ChatStore where
  messages : List ChatMessage := []
  toolCalls : List UiToolCall := []
  thinkingSteps : List ThinkingStep := []
  streaming : Bool := false
  streamingContent : String := ""
  error : Option String := none
  abortController : Option Nat := none

namespace ChatStore

variable (st : ChatStore)

/-- `setMessages`. -/
def setMessages (msgs : List ChatMessage) : ChatStore :=
  { st with messages := msgs, toolCalls := [], thinkingSteps := [], error := none }

/-- The first `set` of `sendMessage`. -/
def send (run : Nat) (text : String) : ChatStore :=
  { messages := st.messages ++ [{ role := .user, content := text }]
    streaming := true
    streamingContent := ""
    toolCalls := []
    thinkingSteps := []
    error := none
    abortController := some run }

/-- An assistant message at the end of a run. -/
def answer (content : String) : ChatStore :=
  { st with
    messages := st.messages ++ [{ role := .assistant, content := content }]
    streaming := false
    streamingContent := "" }

end ChatStore

/-! ## Stream events -/

inductive StreamEvent where
  | runStarted
  | chunk (content : String)
  | toolCall (id name : String) (arguments : Option Json)
  | toolResult (id : String) (isError : Bool) (result : Option String)
  /-- Its content, where it is a string. -/
  | runCompleted (content : Option String)
  | runFailed (error : String)

/-- The status a `tool.result` sets. -/
def newStatus (isError : Bool) : ToolStatus := if isError then .failed else .completed

/-- The update of a tool call. -/
def UiToolCall.setResult (id : String) (isError : Bool) (result : Option String) (tc : UiToolCall) :
    UiToolCall :=
  if tc.id = id then { tc with status := newStatus isError, result := result } else tc

/-- The update of a thinking step. -/
def ThinkingStep.setResult (id : String) (isError : Bool) (result : Option String) :
    ThinkingStep → ThinkingStep
  | .text content => .text content
  | .toolCall call => .toolCall (call.setResult id isError result)

/-- The text of the answer. -/
def finalContent (streamed content : String) : String :=
  if streamed ≠ "" ∧ content = "..." then streamed else if content = "" then streamed else content

/-- What an event does to the store, in a run that has not finished. -/
def StreamEvent.apply (st : ChatStore) : StreamEvent → ChatStore
  | .runStarted => st
  | .chunk content => { st with streamingContent := st.streamingContent ++ content }
  | .toolCall id name arguments =>
    let tc : UiToolCall := { id := id, name := name, status := .running, arguments := arguments }
    let text := trimJs st.streamingContent
    { st with
      streamingContent := ""
      toolCalls := st.toolCalls ++ [tc]
      thinkingSteps := st.thinkingSteps ++ (if text = "" then [] else [.text text]) ++ [.toolCall tc] }
  | .toolResult id isError result =>
    { st with
      toolCalls := st.toolCalls.map (UiToolCall.setResult id isError result)
      thinkingSteps := st.thinkingSteps.map (ThinkingStep.setResult id isError result) }
  | .runCompleted content => st.answer (finalContent st.streamingContent (content.getD ""))
  | .runFailed error => { st with streaming := false, streamingContent := "", error := some error }

/-- The events that set `completed`. -/
def StreamEvent.completes : StreamEvent → Bool
  | .runCompleted _ => true
  | .runFailed _ => true
  | _ => false

/-! ## Runs -/

/-- Where a call of `sendMessage` waits: for the response, for the next
event, or, after a stream error, for `streamSSE` to return. -/
inductive RunStage where
  | requesting
  | streaming
  | closing
  | done
  deriving DecidableEq

/-- A run: its stage and its `completed` flag; whether its controller has
been aborted; the place of its user message and the number of the
conversation that has it; whether `reset`, `setMessages` or a newer
`sendMessage` has come after it; and the conversations it has appended an
assistant message to. -/
structure ChatRun where
  stage : RunStage
  completed : Bool
  aborted : Bool
  text : String
  place : Nat
  conversation : Nat
  superseded : Bool
  answers : List Nat

/-- What can arrive for a run. -/
inductive Continuation where
  | response
  | noBody
  /-- A response that is not OK, with the error of its JSON body, if the
  body is JSON. -/
  | notOk (status : Nat) (statusText : String) (body : Option String)
  | fetchFailed (message : String)
  | abortRejected
  | event (e : StreamEvent)
  | streamError (message : String)
  | streamEnd

/-- The stages in which a continuation can arrive. -/
def Continuation.enabled (run : ChatRun) : Continuation → Bool
  | .response => run.stage = .requesting
  | .noBody => run.stage = .requesting
  | .notOk _ _ _ => run.stage = .requesting
  | .fetchFailed _ => run.stage = .requesting
  | .abortRejected => run.stage = .requesting && run.aborted
  | .event _ => run.stage = .streaming
  | .streamError _ => run.stage = .streaming
  | .streamEnd => run.stage = .streaming || run.stage = .closing

/-- `body.error || "HTTP " + status`. -/
def errorText (status : Nat) (statusText : String) (body : Option String) : String :=
  let error := body.getD statusText
  if error = "" then "HTTP " ++ toString status else error

/-- The `onError` callback. -/
def onError (completed : Bool) (st : ChatStore) (message : String) : ChatStore :=
  if completed then st else { st with streaming := false, error := some message }

/-- The catch block. -/
def onRejected (completed : Bool) (st : ChatStore) (isAbort : Bool) (message : String) : ChatStore :=
  if completed then st
  else if isAbort ∧ st.streamingContent ≠ "" then
    { st.answer (st.streamingContent ++ "\n\n_[Stopped]_") with abortController := none }
  else
    { st with
      streaming := false
      error := if isAbort then none else some message
      abortController := none }

/-- What follows `streamSSE`. Its `aborted` is set by the catch block
alone, so the suffix is empty here. -/
def onStreamEnd (completed : Bool) (st : ChatStore) : ChatStore :=
  if completed then { st with abortController := none }
  else if st.streamingContent ≠ "" then
    { st.answer st.streamingContent with abortController := none }
  else { st with streaming := false, abortController := none }

/-- What a continuation does to the store. -/
def Continuation.effect (run : ChatRun) (st : ChatStore) : Continuation → ChatStore
  | .response => st
  | .noBody => onError run.completed st "No response body"
  | .notOk status statusText body => onRejected run.completed st false (errorText status statusText body)
  | .fetchFailed message => onRejected run.completed st false message
  | .abortRejected => onRejected run.completed st true ""
  | .event e => if run.completed then st else e.apply st
  | .streamError message => onError run.completed st message
  | .streamEnd => onStreamEnd run.completed st

/-- The stage after a continuation. -/
def Continuation.stageAfter (run : ChatRun) : Continuation → RunStage
  | .response => .streaming
  | .noBody => .closing
  | .notOk _ _ _ => .done
  | .fetchFailed _ => .done
  | .abortRejected => .done
  | .event _ => run.stage
  | .streamError _ => .closing
  | .streamEnd => .done

/-- The `completed` flag after a continuation. -/
def Continuation.completedAfter (run : ChatRun) : Continuation → Bool
  | .event e => run.completed || e.completes
  | _ => run.completed

/-- A run after a continuation that took the store from `st` to `st'`. -/
def ChatRun.after (run : ChatRun) (c : Continuation) (conversation : Nat) (st st' : ChatStore) :
    ChatRun :=
  { run with
    stage := c.stageAfter run
    completed := c.completedAfter run
    answers :=
      if st.messages.length < st'.messages.length then run.answers ++ [conversation]
      else run.answers }

/-! ## Steps -/

/-- The store, the number of the conversation it shows, and the runs. -/
structure ChatState where
  store : ChatStore
  conversation : Nat
  runs : List ChatRun

inductive ChatEvent where
  | sendMessage (text : String)
  | stopStreaming
  | reset
  | setMessages (msgs : List ChatMessage)
  | continuation (i : Nat) (c : Continuation)

namespace ChatState

def start : ChatState := { store := {}, conversation := 0, runs := [] }

variable (s : ChatState)

/-- The runs, when something newer has come. -/
def supersede : List ChatRun := s.runs.map fun run => { run with superseded := true }

/-- `abortController?.abort()`. -/
def abort : List ChatRun :=
  match s.store.abortController with
  | none => s.runs
  | some i => s.runs.modify i fun run => { run with aborted := true }

def sendMessage (text : String) : ChatState :=
  { s with
    store := s.store.send s.runs.length text
    runs := s.supersede ++
      [{ stage := .requesting, completed := false, aborted := false, text := text
         place := s.store.messages.length, conversation := s.conversation
         superseded := false, answers := [] }] }

def reset : ChatState :=
  { store := {}
    conversation := s.conversation + 1
    runs := { s with runs := s.abort }.supersede }

def setMessages (msgs : List ChatMessage) : ChatState :=
  { store := s.store.setMessages msgs
    conversation := s.conversation + 1
    runs := s.supersede }

/-- A continuation of the i-th run. -/
def resume (i : Nat) (c : Continuation) : ChatState :=
  match s.runs[i]? with
  | none => s
  | some run =>
    if c.enabled run then
      let store := c.effect run s.store
      { s with store := store, runs := s.runs.set i (run.after c s.conversation s.store store) }
    else s

def step : ChatEvent → ChatState
  | .sendMessage text => s.sendMessage text
  | .stopStreaming => { s with runs := s.abort }
  | .reset => s.reset
  | .setMessages msgs => s.setMessages msgs
  | .continuation i c => s.resume i c

/-! ## The property -/

/-- A continuation of a superseded run leaves the store as it is. -/
def Undisturbed : ChatEvent → Prop
  | .continuation i c => ∀ run, s.runs[i]? = some run → run.superseded = true →
      (s.resume i c).store = s.store
  | _ => True

/-- A run has appended at most one assistant message, and to the
conversation of its user message; while that conversation is shown, the
message is in its place. -/
structure Answered : Prop where
  once : ∀ run ∈ s.runs, run.answers.length ≤ 1
  own : ∀ run ∈ s.runs, ∀ c ∈ run.answers, c = run.conversation
  shown : ∀ run ∈ s.runs, run.conversation = s.conversation →
    s.store.messages[run.place]? = some { role := .user, content := run.text }

end ChatState

/-! ## Continuations that find their work done -/

/-- An event that leaves the store as it is. -/
def StreamEvent.Quiet (st : ChatStore) : StreamEvent → Prop
  | .runStarted => True
  | .chunk content => content = ""
  | .toolCall _ _ _ => False
  | .toolResult id isError result =>
    (∀ tc ∈ st.toolCalls, tc.id = id → tc.status = newStatus isError ∧ tc.result = result)
      ∧ ∀ tc, ThinkingStep.toolCall tc ∈ st.thinkingSteps → tc.id = id →
        tc.status = newStatus isError ∧ tc.result = result
  | .runCompleted _ => False
  | .runFailed error => st.streaming = false ∧ st.streamingContent = "" ∧ st.error = some error

/-- The store is as a run leaves it that has nothing to show. -/
def ChatStore.AtRest (st : ChatStore) (error : Option String) : Prop :=
  st.streaming = false ∧ st.error = error ∧ st.abortController = none

/-- A continuation that leaves the store as it is: the response; what
arrives after the run's own last event; an event with nothing to add; and
the end of the run or its error, where the store streams nothing, has no
abort controller and no other error. -/
def Continuation.Quiet (run : ChatRun) (st : ChatStore) : Continuation → Prop
  | .response => True
  | .noBody => run.completed ∨ (st.streaming = false ∧ st.error = some "No response body")
  | .notOk status statusText body =>
    run.completed ∨ st.AtRest (some (errorText status statusText body))
  | .fetchFailed message => run.completed ∨ st.AtRest (some message)
  | .abortRejected => run.completed ∨ (st.streamingContent = "" ∧ st.AtRest none)
  | .event e => run.completed ∨ e.Quiet st
  | .streamError message => run.completed ∨ (st.streaming = false ∧ st.error = some message)
  | .streamEnd =>
    st.abortController = none
      ∧ (run.completed ∨ (st.streaming = false ∧ st.streamingContent = ""))

/-- Every continuation of a superseded run finds its work done. -/
def ChatState.Careful (s : ChatState) : ChatEvent → Prop
  | .continuation i c => ∀ run, s.runs[i]? = some run → run.superseded = true →
      c.enabled run = true → c.Quiet run s.store
  | _ => True

end LendingClaw.Ui
