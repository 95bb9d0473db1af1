/-
LendingClaw.Ui.RunView — what the chat shows of a run, from the loop to
the store (`Run` of `internal/agent/loop.go`, `runSSE` of
`internal/transport/http/handler/agent.go`, `streamSSE` of
`ui/web/src/lib/sse.ts`, the event callback of `sendMessage` of
`ui/web/src/stores/chat.ts`).

The events of a run go through the channel of the handler, are written
as frames, read back from bytes cut anywhere, and applied to the store.
Where the channel has room for what the client needs, the chat is at
rest in the end, with the answer that the session has, or with the error
of the run; and a tool call that still looks running is one that the run
has left without a result.
-/
import LendingClaw.Agent.RunProtocol
import LendingClaw.Http.AgentStream
import LendingClaw.Ui.Chat
import LendingClaw.Ui.Sse

namespace LendingClaw.Ui

open LendingClaw.Agent LendingClaw.Http LendingClaw.Lib

/-! ## Reading an event -/

/-- A string property of a payload. -/
def payloadText (payload : Json) (name : String) : Option String := (payload.field name).bind Json.text?

/-- A Boolean property of a payload. -/
def payloadBool (payload : Json) (name : String) : Option Bool :=
  match payload.field name with
  | some (.bool value) => some value
  | _ => none

/-- The switch of the event callback, for payloads of the types that it
is written for. -/
def streamEvent (event : Json) : Option StreamEvent := do
  let type ← payloadText event "type"
  if type = EventType.runStarted.text then some .runStarted
  else
    let payload ← event.field "payload"
    if type = EventType.chunk.text then (payloadText payload "content").map .chunk
    else if type = EventType.toolCall.text then do
      let name ← payloadText payload "name"
      let id ← payloadText payload "id"
      some (.toolCall id name (payload.field "arguments"))
    else if type = EventType.toolResult.text then do
      let id ← payloadText payload "id"
      let isError ← payloadBool payload "is_error"
      some (.toolResult id isError (payloadText payload "result"))
    else if type = EventType.runCompleted.text then
      some (.runCompleted (payloadText payload "content"))
    else if type = EventType.runFailed.text then (payloadText payload "error").map .runFailed
    else none

/-! ## What the events of a run are read as -/

section
variable {a : AgentLoop} {req : RunRequest} {args : Providers.Arguments → Json}

theorem streamEvent_runStarted :
    streamEvent (eventJson (runStarted a req)) = some .runStarted := by
  simp [streamEvent, eventJson, runStarted, payloadText, Json.field, Json.text?]

theorem streamEvent_chunk (content : String) :
    streamEvent (eventJson (.chunk a.id req.runID content)) = some (.chunk content) := by
  simp [streamEvent, eventJson, AgentEvent.chunk, payloadText, Json.field, Json.text?, EventType.text]

theorem streamEvent_callEvent (tc : Providers.ToolCall) :
    streamEvent (eventJson (callEvent a req args tc))
      = some (.toolCall tc.id tc.name (some (args tc.arguments))) := by
  simp [streamEvent, eventJson, callEvent, AgentEvent.toolCall, payloadText, Json.field, Json.text?,
    EventType.text]

theorem streamEvent_resultEvent (tc : Providers.ToolCall) (isError : Bool) (forLLM : String) :
    streamEvent (eventJson (resultEvent a req tc isError forLLM))
      = some (.toolResult tc.id isError (some forLLM)) := by
  simp [streamEvent, eventJson, resultEvent, AgentEvent.toolResult, payloadText, payloadBool,
    Json.field, Json.text?, EventType.text]

/-- How the outcome of a run is read. -/
def terminalStreamEvent : Except String RunResult → StreamEvent
  | .error err => .runFailed err
  | .ok result => .runCompleted (some result.content)

theorem streamEvent_terminalEvent (result : Except String RunResult) :
    streamEvent (eventJson (terminalEvent a req result)) = some (terminalStreamEvent result) := by
  cases result with
  | error err =>
    simp [streamEvent, eventJson, terminalEvent, terminalStreamEvent, AgentEvent.runFailed,
      payloadText, Json.field, Json.text?, EventType.text]
  | ok result =>
    simp [streamEvent, eventJson, terminalEvent, terminalStreamEvent, runCompleted, payloadText,
      Json.field, Json.text?, EventType.text]

end

/-! ## The store after some events -/

/-- The store after the events of an unfinished run. -/
def viewed (st : ChatStore) (events : List StreamEvent) : ChatStore :=
  events.foldl (fun st event => event.apply st) st

/-- What the events of an unfinished run leave alone. -/
structure SameTurn (st st' : ChatStore) : Prop where
  messages : st'.messages = st.messages
  streaming : st'.streaming = st.streaming
  error : st'.error = st.error

theorem sameTurn_apply (st : ChatStore) {event : StreamEvent} (h : event.completes = false) :
    SameTurn st (event.apply st) := by
  cases event with
  | runCompleted content => cases h
  | runFailed error => cases h
  | runStarted => exact ⟨rfl, rfl, rfl⟩
  | chunk content => exact ⟨rfl, rfl, rfl⟩
  | toolCall id name arguments => exact ⟨rfl, rfl, rfl⟩
  | toolResult id isError result => exact ⟨rfl, rfl, rfl⟩

theorem sameTurn_viewed (st : ChatStore) {events : List StreamEvent}
    (h : ∀ event ∈ events, event.completes = false) : SameTurn st (viewed st events) := by
  induction events generalizing st with
  | nil => exact ⟨rfl, rfl, rfl⟩
  | cons event events ih =>
    have hfirst := sameTurn_apply st (h event List.mem_cons_self)
    have hrest := ih (event.apply st) fun e he => h e (List.mem_cons_of_mem _ he)
    exact { messages := hrest.messages.trans hfirst.messages
            streaming := hrest.streaming.trans hfirst.streaming
            error := hrest.error.trans hfirst.error }

/-- The tool calls that the thinking steps show. -/
def ThinkingStep.call? : ThinkingStep → Option UiToolCall
  | .text _ => none
  | .toolCall call => some call

/-- The two lists of tool calls of the store agree. -/
def StepsAgree (st : ChatStore) : Prop := st.thinkingSteps.filterMap ThinkingStep.call? = st.toolCalls

theorem StepsAgree.apply {st : ChatStore} (h : StepsAgree st) (event : StreamEvent) :
    StepsAgree (event.apply st) := by
  cases event with
  | toolCall id name arguments =>
    simp only [StepsAgree, StreamEvent.apply, List.filterMap_append, List.filterMap_cons,
      ThinkingStep.call?, List.filterMap_nil]
    rw [h]
    split <;> simp [ThinkingStep.call?]
  | toolResult id isError result =>
    simp only [StepsAgree, StreamEvent.apply, List.filterMap_map]
    rw [← h, List.map_filterMap]
    congr 1
    funext step
    cases step <;> rfl
  | _ => exact h

theorem StepsAgree.viewed {st : ChatStore} (h : StepsAgree st) (events : List StreamEvent) :
    StepsAgree (viewed st events) := by
  induction events generalizing st with
  | nil => exact h
  | cons event events ih => exact ih (h.apply event)

/-- A tool call that looks running was announced, and none of the results
after it is its own. -/
theorem running_viewed {events : List StreamEvent} {st : ChatStore} {tc : UiToolCall}
    (h : tc ∈ (viewed st events).toolCalls) (hrunning : tc.status = .running) :
    (tc ∈ st.toolCalls ∧ ∀ isError result, .toolResult tc.id isError result ∉ events)
      ∨ ∃ before name arguments later, events = before ++ .toolCall tc.id name arguments :: later
        ∧ ∀ isError result, .toolResult tc.id isError result ∉ later := by
  induction events generalizing st with
  | nil => exact .inl ⟨h, fun _ _ => List.not_mem_nil⟩
  | cons event events ih =>
    rcases ih h with ⟨hmem, hno⟩ | ⟨before, name, arguments, later, rfl, hno⟩
    · cases event with
      | toolCall id name arguments =>
        rcases List.mem_append.mp hmem with hmem | hnew
        · refine .inl ⟨hmem, fun isError result hin => ?_⟩
          rcases List.mem_cons.mp hin with heq | hin
          · cases heq
          · exact hno isError result hin
        · obtain rfl := List.mem_singleton.mp hnew
          exact .inr ⟨[], name, arguments, events, rfl, hno⟩
      | toolResult id isError result =>
        obtain ⟨tc', hmem', htc⟩ := List.mem_map.mp hmem
        rw [UiToolCall.setResult] at htc
        split at htc
        · subst htc
          cases isError <;> cases hrunning
        · rename_i hne
          subst htc
          refine .inl ⟨hmem', fun isError' result' hin => ?_⟩
          rcases List.mem_cons.mp hin with heq | hin
          · exact hne (StreamEvent.toolResult.inj heq).1
          · exact hno isError' result' hin
      | _ =>
        refine .inl ⟨hmem, fun isError result hin => ?_⟩
        rcases List.mem_cons.mp hin with heq | hin
        · cases heq
        · exact hno isError result hin
    · exact .inr ⟨event :: before, name, arguments, later, rfl, hno⟩

/-! ## One run of the chat -/

/-- A run that waits for its next event. -/
def Live (s : ChatState) (i : Nat) (completed : Bool) : Prop :=
  ∃ run, s.runs[i]? = some run ∧ run.stage = .streaming ∧ run.completed = completed

theorem step_event {s : ChatState} {i : Nat} (h : Live s i false) (event : StreamEvent) :
    (s.step (.continuation i (.event event))).store = event.apply s.store
      ∧ Live (s.step (.continuation i (.event event))) i event.completes := by
  obtain ⟨run, hrun, hstage, hcompleted⟩ := h
  have henabled : (Continuation.event event).enabled run = true := by
    simp [Continuation.enabled, hstage]
  have hstore : (Continuation.event event).effect run s.store = event.apply s.store := by
    simp [Continuation.effect, hcompleted]
  simp only [ChatState.step, ChatState.resume, hrun, henabled, if_true, hstore]
  refine ⟨trivial, _, List.getElem?_set_self ?_, hstage, ?_⟩
  · exact (List.getElem?_eq_some_iff.mp hrun).1
  · simp [ChatRun.after, Continuation.completedAfter, hcompleted]

theorem run_viewed {s : ChatState} {i : Nat} (h : Live s i false) {events : List StreamEvent}
    (hcompletes : ∀ event ∈ events, event.completes = false) :
    (Lib.run ChatState.step s (events.map fun event => .continuation i (.event event))).store
        = viewed s.store events
      ∧ Live (Lib.run ChatState.step s (events.map fun event => .continuation i (.event event))) i
        false := by
  induction events generalizing s with
  | nil => exact ⟨rfl, h⟩
  | cons event events ih =>
    obtain ⟨hstore, hlive⟩ := step_event h event
    rw [hcompletes event List.mem_cons_self] at hlive
    obtain ⟨hstores, hlives⟩ := ih hlive fun e he => hcompletes e (List.mem_cons_of_mem _ he)
    rw [hstore] at hstores
    exact ⟨hstores, hlives⟩

theorem step_streamEnd {s : ChatState} {i : Nat} (h : Live s i true) :
    (s.step (.continuation i .streamEnd)).store = { s.store with abortController := none } := by
  obtain ⟨run, hrun, hstage, hcompleted⟩ := h
  have henabled : Continuation.streamEnd.enabled run = true := by
    simp [Continuation.enabled, hstage]
  simp only [ChatState.step, ChatState.resume, hrun, henabled, if_true, Continuation.effect,
    onStreamEnd, hcompleted]

/-- A message is sent, the response comes, and the run is live. -/
theorem live_response (s : ChatState) (text : String) :
    ((s.step (.sendMessage text)).step (.continuation s.runs.length .response)).store
        = s.store.send s.runs.length text
      ∧ Live ((s.step (.sendMessage text)).step (.continuation s.runs.length .response))
        s.runs.length false := by
  have hlen : s.supersede.length = s.runs.length := List.length_map _
  have hrun : (s.sendMessage text).runs[s.runs.length]?
      = some { stage := .requesting, completed := false, aborted := false, text := text
               place := s.store.messages.length, conversation := s.conversation
               superseded := false, answers := [] } := by
    simp only [ChatState.sendMessage]
    rw [List.getElem?_append_right (by omega), hlen, Nat.sub_self]
    rfl
  simp only [ChatState.step, ChatState.resume, hrun, Continuation.enabled, decide_true, if_true]
  refine ⟨rfl, _, List.getElem?_set_self ?_, rfl, rfl⟩
  exact (List.getElem?_eq_some_iff.mp hrun).1

/-- What happens in the chat when a message is sent and the events of its
run arrive. -/
def chatEvents (i : Nat) (text : String) (events : List StreamEvent) : List ChatEvent :=
  [.sendMessage text, .continuation i .response]
    ++ events.map (fun event => .continuation i (.event event)) ++ [.continuation i .streamEnd]

/-- The store after a run whose last event, and no other, completes it. -/
theorem run_chatEvents (s : ChatState) (text : String) {events : List StreamEvent}
    {last : StreamEvent} (hevents : ∀ event ∈ events, event.completes = false)
    (hlast : last.completes = true) :
    (Lib.run ChatState.step s (chatEvents s.runs.length text (events ++ [last]))).store
      = { last.apply (viewed (s.store.send s.runs.length text) events) with
          abortController := none } := by
  obtain ⟨hsent, hlive⟩ := live_response s text
  obtain ⟨hviewed, hlive⟩ := run_viewed hlive hevents
  obtain ⟨happlied, hlive⟩ := step_event hlive last
  rw [hlast] at hlive
  have hend := step_streamEnd hlive
  rw [happlied, hviewed, hsent] at hend
  simp only [chatEvents, Lib.run_append, Lib.run_cons, Lib.run_nil, List.map_append, List.map_cons,
    List.map_nil]
  exact hend

/-! ## From the bytes to the store -/

/-- The calls of `onEvent` for the bytes of a text, cut anywhere, are
those of its complete lines, however the stream ends. -/
theorem streamSSE_text (decoder : TextDecoder) (parse : List Char → Option Json) {text : List Char}
    (hmark : text.head? ≠ some '\uFEFF') {values : List Bytes} (hvalues : values.flatten = utf8 text)
    (failure : Option String) :
    (streamSSE decoder parse (some (values, failure))).events
      = ((splitLines text).1.foldl (LineState.onLine parse) {}).calls := by
  have hdecoded := decoder.decode_stream text values hmark hvalues
  obtain ⟨lines, hlines, hmachine⟩ := read_foldl decoder parse values
    { decoding := decoder.start, buffer := [], machine := {} } [] decoder.start ⟨rfl, rfl⟩
  rw [hdecoded] at hlines
  have hall : (splitLines text).1 = lines := hlines
  rw [hall, ← hmachine]
  rfl

/-- The store after a message whose run is streamed as these bytes. -/
def shown (decoder : TextDecoder) (parse : List Char → Option Json) (s : ChatState) (text : String)
    (values : List Bytes) : ChatStore :=
  let events := (streamSSE decoder parse (some (values, none))).events.filterMap streamEvent
  (Lib.run ChatState.step s (chatEvents s.runs.length text events)).store

/-- What the chat should show of a run. -/
structure Shows (s : ChatState) (text : String) (ran : Ran) (st : ChatStore) : Prop where
  atRest : st.streaming = false ∧ st.streamingContent = "" ∧ st.abortController = none
  outcome : match ran.result with
    | .error err =>
      st.messages = s.store.messages ++ [{ role := .user, content := text }] ∧ st.error = some err
    | .ok result => st.error = none ∧ ∃ content,
      st.messages = s.store.messages
          ++ [{ role := .user, content := text }, { role := .assistant, content := content }]
        ∧ (result.content ≠ "..." → result.content ≠ "" → content = result.content)
  steps : StepsAgree st
  settled : ∀ ids, RunPhase.idle.after ran.events.dropLast = some (.left ids) →
    ∀ tc ∈ st.toolCalls, tc.status = .running → tc.id ∈ ids

/-- What is read of an emitted event. -/
theorem streamEvent_emission {a : AgentLoop} {req : RunRequest} {args : Providers.Arguments → Json}
    {event : AgentEvent} (h : Emission a req args event) (hopen : event.type.terminal = false) :
    ∃ seen, streamEvent (eventJson event) = some seen ∧ seen.completes = false
      ∧ (∀ id name arguments, seen = .toolCall id name arguments →
        event.type = .toolCall ∧ event.toolID = some id)
      ∧ ∀ id, event.type = .toolResult → event.toolID = some id →
        ∃ isError result, seen = .toolResult id isError result := by
  cases h with
  | started => exact ⟨_, streamEvent_runStarted, rfl, by simp, by simp [runStarted]⟩
  | chunk content => exact ⟨_, streamEvent_chunk content, rfl, by simp, by simp [AgentEvent.chunk]⟩
  | call tc =>
    refine ⟨_, streamEvent_callEvent tc, rfl, ?_, by simp [callEvent, AgentEvent.toolCall]⟩
    intro id name arguments heq
    obtain ⟨rfl, -⟩ := StreamEvent.toolCall.inj heq
    exact ⟨rfl, toolID_callEvent tc⟩
  | result tc isError forLLM =>
    refine ⟨_, streamEvent_resultEvent tc isError forLLM, rfl, by simp, ?_⟩
    intro id _ hid
    rw [toolID_resultEvent] at hid
    obtain rfl := Option.some.inj hid
    exact ⟨isError, _, rfl⟩
  | terminal result => cases result <;> cases hopen

/-- The events that a run has before its last one. -/
structure RunBody (a : AgentLoop) (req : RunRequest) (args : Providers.Arguments → Json)
    (events : List AgentEvent) (ids : List String) : Prop where
  after : RunPhase.idle.after events = some (.left ids)
  emissions : ∀ event ∈ events, Emission a req args event

theorem RunBody.open {a : AgentLoop} {req : RunRequest} {args : Providers.Arguments → Json}
    {events : List AgentEvent} {ids : List String} (h : RunBody a req args events ids) :
    ∀ event ∈ events, event.type.terminal = false :=
  RunPhase.not_terminal h.after (RunPhase.left_ne_closed ids)

/-- What the events are read as. -/
def seenOf (events : List AgentEvent) : List StreamEvent :=
  events.filterMap fun event => streamEvent (eventJson event)

section
variable {a : AgentLoop} {req : RunRequest} {args : Providers.Arguments → Json}
  {events : List AgentEvent} {ids : List String}

theorem RunBody.seen_completes (h : RunBody a req args events ids) {part : List AgentEvent}
    (hpart : part ⊆ events) : ∀ seen ∈ seenOf part, seen.completes = false := by
  intro seen hseen
  obtain ⟨event, hmem, hread⟩ := List.mem_filterMap.mp hseen
  obtain ⟨seen', hread', hcompletes, -⟩ := streamEvent_emission
    (h.emissions event (hpart hmem)) (h.open event (hpart hmem))
  rw [hread] at hread'
  rw [Option.some.inj hread']
  exact hcompletes

/-- A frame and one that is emitted after it. -/
theorem place_lt {frames before later : List Frame} {call result : Frame}
    (hplaces : ∀ (i : Nat) frame, frames[i]? = some frame → frame.place = i)
    (hsplit : frames = before ++ call :: later) (hresult : result ∈ later) :
    call.place < result.place := by
  obtain ⟨j, hj⟩ := List.getElem?_of_mem hresult
  have hcall : frames[before.length]? = some call := by
    rw [hsplit, List.getElem?_append_right (Nat.le_refl _), Nat.sub_self]
    rfl
  have hlater : frames[before.length + (j + 1)]? = some result := by
    rw [hsplit, List.getElem?_append_right (Nat.le_add_right _ _), Nat.add_sub_cancel_left,
      List.getElem?_cons_succ]
    exact hj
  rw [hplaces _ _ hcall, hplaces _ _ hlater]
  omega

/-- A tool call that still looks running has no result in the run. -/
theorem RunBody.settled (h : RunBody a req args events ids) {emitted written : List Frame}
    {last : Frame} {state : RunSSE} (hemitted : state.emitted = emitted ++ [last])
    (hevents : emitted.map Frame.event = events) (hwritten : state.written = written ++ [last])
    (hlast : last.event.type.terminal = true) (hsub : written.Sublist emitted)
    (hplaces : ∀ (i : Nat) frame, state.emitted[i]? = some frame → frame.place = i)
    (hanswered : ∀ before call after, state.written = before ++ call :: after →
      ∀ result ∈ state.emitted, call.place < result.place →
        call.event.answers result.event → result ∈ after)
    {st : ChatStore} (hst : st.toolCalls = []) {tc : UiToolCall}
    (htc : tc ∈ (viewed st (seenOf (written.map Frame.event))).toolCalls)
    (hrunning : tc.status = .running) : tc.id ∈ ids := by
  rcases running_viewed htc hrunning with ⟨hmem, -⟩ | ⟨before, name, arguments, later, hseen, hno⟩
  · rw [hst] at hmem
    cases hmem
  · -- the frame of the call, among those written and among those emitted
    rw [seenOf, List.filterMap_map] at hseen
    obtain ⟨front, rest, hfront, -, hrest⟩ := List.filterMap_eq_append_iff.mp hseen
    obtain ⟨skipped, call, back, rfl, -, hcall, hback⟩ := List.filterMap_eq_cons_iff.mp hrest
    have hin : call ∈ written := by
      rw [hfront]
      simp
    obtain ⟨before', later', hsplit⟩ := List.append_of_mem (hsub.subset hin)
    have hbody : events = before'.map Frame.event ++ call.event :: later'.map Frame.event := by
      rw [← hevents, hsplit, List.map_append, List.map_cons]
    have hmem : call.event ∈ events := by
      rw [hbody]
      simp
    obtain ⟨seen, hread, -, hcalls, -⟩ := streamEvent_emission (h.emissions _ hmem) (h.open _ hmem)
    have hseen' : seen = .toolCall tc.id name arguments := by
      have hboth := hread.symm.trans hcall
      exact Option.some.inj hboth
    obtain ⟨htype, hid⟩ := hcalls _ _ _ hseen'
    have hafter := h.after
    rw [hbody] at hafter
    rcases RunPhase.call_answered hafter (RunPhase.left_ne_closed ids) htype hid with
      hopen | ⟨event, hevent, hresult, hresultID⟩
    · rwa [RunPhase.unanswered_left] at hopen
    · -- its result would have been written behind it, and read
      exfalso
      obtain ⟨result, hresultMem, rfl⟩ := List.mem_map.mp hevent
      have hemittedSplit : state.emitted = before' ++ call :: (later' ++ [last]) := by
        rw [hemitted, hsplit]
        simp
      have hlt := place_lt hplaces hemittedSplit (List.mem_append_left _ hresultMem)
      have hwrittenSplit : state.written = (front ++ skipped) ++ call :: (back ++ [last]) := by
        rw [hwritten, hfront]
        simp
      have hanswers : call.event.answers result.event = true := by
        simp [AgentEvent.answers, htype, hresult, hid, hresultID]
      have hresultEmitted : result ∈ state.emitted := by
        rw [hemittedSplit]
        simp [hresultMem]
      have hbehind := hanswered _ _ _ hwrittenSplit result hresultEmitted hlt hanswers
      have hresultBody : result.event ∈ events := by
        rw [hbody]
        simp only [List.mem_append, List.mem_cons, List.mem_map]
        exact .inr (.inr ⟨result, hresultMem, rfl⟩)
      rcases List.mem_append.mp hbehind with hbehind | hbehind
      · obtain ⟨seen', hread', -, -, hresults⟩ :=
          streamEvent_emission (h.emissions _ hresultBody) (h.open _ hresultBody)
        obtain ⟨isError, text, rfl⟩ := hresults _ hresult hresultID
        refine hno isError text ?_
        rw [← hback]
        exact List.mem_filterMap.mpr ⟨result, hbehind, hread'⟩
      · have hterminal := h.open _ hresultBody
        rw [List.mem_singleton.mp hbehind, hlast] at hterminal
        cases hterminal

end

/-- The store after the terminal event. -/
theorem shows_terminal {ran : Ran} {s : ChatState} {text : String} {st : ChatStore}
    (hturn : SameTurn (s.store.send s.runs.length text) st) (hsteps : StepsAgree st)
    (hsettled : ∀ ids, RunPhase.idle.after ran.events.dropLast = some (.left ids) →
      ∀ tc ∈ st.toolCalls, tc.status = .running → tc.id ∈ ids) :
    Shows s text ran { (terminalStreamEvent ran.result).apply st with abortController := none } := by
  have hmessages : st.messages = s.store.messages ++ [{ role := .user, content := text }] :=
    hturn.messages
  have herror : st.error = none := hturn.error
  cases hresult : ran.result with
  | error err =>
    exact { atRest := ⟨rfl, rfl, rfl⟩
            outcome := by
              rw [hresult]
              exact ⟨hmessages, rfl⟩
            steps := hsteps
            settled := hsettled }
  | ok result =>
    refine { atRest := ⟨rfl, rfl, rfl⟩, outcome := ?_, steps := hsteps, settled := hsettled }
    rw [hresult]
    refine ⟨herror, finalContent st.streamingContent result.content, ?_, ?_⟩
    · show st.messages ++ [_] = _
      rw [hmessages, List.append_assoc]
      rfl
    · intro hdots hempty
      simp [finalContent, hdots, hempty]

/-- What the run leaves. -/
def answered : Ran :=
  lendingAgent.run openLoans (fun _ => .obj []) firstMessage searchThenAnswer "Open loans"

/-- Every event is taken out and written before the next one. -/
def promptSchedule : List SSEStep := (List.replicate 6 [.emit, .receive, .write]).flatten

end LendingClaw.Ui
