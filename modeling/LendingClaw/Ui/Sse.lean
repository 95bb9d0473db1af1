/-
LendingClaw.Ui.Sse — the event stream of a run, from the writer of
`AgentHandler.runSSE` (`internal/transport/http/handler/agent.go`) to
`streamSSE` (`ui/web/src/lib/sse.ts`).

The writer prints each event as an `event:` line, a `data:` line and a
blank line. The reader gets the bytes cut anywhere, decodes each piece
with a `TextDecoder` in stream mode, and runs a line machine over the
complete lines of what it has; the rest waits in a buffer.

`streamSSE_frames` is the round trip for every cut.
-/
import LendingClaw.Agent.Events
import LendingClaw.Lib.JsText
import LendingClaw.Lib.Utf8

namespace LendingClaw.Ui

open LendingClaw.Agent LendingClaw.Lib

/-! ## Writing -/

/-- The JSON value of an event; a nil payload is left out. -/
def eventJson (event : AgentEvent) : Json :=
  .obj ([("type", .str event.type.text), ("agentId", .str event.agentID), ("runId", .str event.runID)]
    ++ event.payload.toList.map (fun payload => ("payload", payload)))

theorem eventJson_type (event : AgentEvent) :
    (eventJson event).field "type" = some (.str event.type.text) := by
  cases hpayload : event.payload with
  | none => simp [eventJson, Json.field, hpayload]
  | some payload => simp [eventJson, Json.field, hpayload]

/-- The two lines of an event. -/
def eventLine (event : AgentEvent) : List Char := "event: ".toList ++ event.type.text.toList

def dataLine (event : AgentEvent) : List Char := "data: ".toList ++ (eventJson event).marshal

/-- `"event: %s\ndata: %s\n\n"`. -/
def frame (event : AgentEvent) : List Char :=
  eventLine event ++ '\n' :: (dataLine event ++ '\n' :: ['\n'])

/-! ## Reading -/

/-- A `TextDecoder` in stream mode: however the bytes of a text that does
not start with a byte order mark are cut, the pieces decode to the text. -/
structure TextDecoder where
  State : Type
  start : State
  decode : State → Bytes → List Char × State
  decode_stream : ∀ (text : List Char) (pieces : List Bytes), text.head? ≠ some '\uFEFF' →
    pieces.flatten = utf8 text →
    (pieces.foldl (fun r piece => (r.1 ++ (decode r.2 piece).1, (decode r.2 piece).2)) ([], start)).1
      = text

/-- A decoder of this kind for UTF-8 that is well formed. -/
def utf8Decoder : TextDecoder where
  State := Bytes
  start := []
  decode := decodePiece
  decode_stream := by
    intro text pieces _ hpieces
    exact decodeNext_utf8 hpieces

/-- The pending fields, and the arguments of the calls of `onEvent`. -/
structure LineState where
  currentEvent : List Char := []
  currentData : List Char := []
  calls : List Json := []

/-- An assignment to a property of an object. -/
def setField (fields : List (String × Json)) (name : String) (value : Json) : List (String × Json) :=
  if fields.any (fun f => f.1 = name) then
    fields.map (fun f => if f.1 = name then (name, value) else f)
  else fields ++ [(name, value)]

/-- `parsed.type = currentEvent` where it differs: null and the primitive
values throw, and an array keeps its items. -/
def withType (currentEvent : List Char) : Json → Option Json
  | .obj fields =>
    if (((Json.obj fields).field "type").bind Json.text?).any (fun t => t.toList = currentEvent) then
      some (.obj fields)
    else some (.obj (setField fields "type" (.str (String.ofList currentEvent))))
  | .arr items => some (.arr items)
  | _ => none

/-- What a blank line does. -/
def LineState.dispatch (parse : List Char → Option Json) (st : LineState) : LineState :=
  let calls :=
    if st.currentEvent ≠ [] ∧ st.currentData ≠ [] then
      match (parse st.currentData).bind (withType st.currentEvent) with
      | some parsed => st.calls ++ [parsed]
      | none => st.calls
    else st.calls
  { calls := calls }

/-- One line. -/
def LineState.onLine (parse : List Char → Option Json) (st : LineState) (line : List Char) : LineState :=
  if "event: ".toList.isPrefixOf line then { st with currentEvent := jsTrim (line.drop 7) }
  else if "data: ".toList.isPrefixOf line then { st with currentData := line.drop 6 }
  else if line = [] then st.dispatch parse
  else st

/-- The decoder, the buffer and the line machine. -/
structure Reader (decoder : TextDecoder) where
  decoding : decoder.State
  buffer : List Char
  machine : LineState

section

variable (decoder : TextDecoder) (parse : List Char → Option Json)

/-- One turn of the read loop. -/
def Reader.read (r : Reader decoder) (value : Bytes) : Reader decoder :=
  let decoded := decoder.decode r.decoding value
  let lines := splitLines (r.buffer ++ decoded.1)
  { decoding := decoded.2, buffer := lines.2, machine := lines.1.foldl (LineState.onLine parse) r.machine }

/-- The arguments of the calls of `onEvent` and of `onError`. -/
structure StreamCalls where
  events : List Json
  errors : List String

/-- `streamSSE`, of a response without a body or with one that is read in
pieces up to its end or a failure. -/
def streamSSE (body : Option (List Bytes × Option String)) : StreamCalls :=
  match body with
  | none => { events := [], errors := ["No response body"] }
  | some (values, failure) =>
    let start : Reader decoder := { decoding := decoder.start, buffer := [], machine := {} }
    { events := (values.foldl (Reader.read decoder parse) start).machine.calls
      errors := failure.toList }

end

/-! ## The reader and its cuts -/

/-- The reader after some pieces is the line machine over the lines of the
text decoded so far. -/
theorem read_foldl (decoder : TextDecoder) (parse : List Char → Option Json) (values : List Bytes)
    (start : Reader decoder) (text : List Char) (decoding : decoder.State)
    (hstart : start.decoding = decoding ∧ start.buffer = (splitLines text).2) :
    let decoded := values.foldl
      (fun r piece => (r.1 ++ (decoder.decode r.2 piece).1, (decoder.decode r.2 piece).2)) (text, decoding)
    let r := values.foldl (Reader.read decoder parse) start
    ∃ lines, (splitLines decoded.1).1 = (splitLines text).1 ++ lines
      ∧ r.machine = lines.foldl (LineState.onLine parse) start.machine := by
  induction values generalizing start text decoding with
  | nil => exact ⟨[], (List.append_nil _).symm, rfl⟩
  | cons value values ih =>
    obtain ⟨rfl, hbuffer⟩ := hstart
    let piece := (decoder.decode start.decoding value).1
    have hsplit := splitLines_append text piece
    have hnext : (start.read decoder parse value).buffer = (splitLines (text ++ piece)).2 := by
      rw [hsplit]
      show (splitLines (start.buffer ++ piece)).2 = _
      rw [hbuffer]
    obtain ⟨lines, hlines, hmachine⟩ := ih (start.read decoder parse value) (text ++ piece)
      (decoder.decode start.decoding value).2 ⟨rfl, hnext⟩
    refine ⟨(splitLines (start.buffer ++ piece)).1 ++ lines, ?_, ?_⟩
    · show (splitLines (values.foldl _ (text ++ piece, _)).1).1 = _
      rw [hlines, hsplit, hbuffer, List.append_assoc]
    · show (values.foldl _ (start.read decoder parse value)).machine = _
      rw [hmachine, List.foldl_append]
      rfl

/-! ## One frame -/

theorem newline_not_mem_eventLine (event : AgentEvent) : '\n' ∉ eventLine event := by
  unfold eventLine
  cases event.type with
  | runStarted => decide
  | runCompleted => decide
  | runFailed => decide
  | chunk => decide
  | toolCall => decide
  | toolResult => decide

theorem newline_not_mem_dataLine (event : AgentEvent) : '\n' ∉ dataLine event := by
  unfold dataLine
  rw [List.mem_append, not_or]
  exact ⟨by decide, Json.newline_not_mem_marshal _⟩

theorem jsTrim_typeText (type : EventType) : jsTrim type.text.toList = type.text.toList := by
  cases type with
  | runStarted => decide
  | runCompleted => decide
  | runFailed => decide
  | chunk => decide
  | toolCall => decide
  | toolResult => decide

theorem typeText_ne_nil (type : EventType) : type.text.toList ≠ [] := by
  cases type with
  | runStarted => decide
  | runCompleted => decide
  | runFailed => decide
  | chunk => decide
  | toolCall => decide
  | toolResult => decide

/-- The lines of a frame, and those of the frames after it. -/
theorem splitLines_frame (event : AgentEvent) (text : List Char) :
    splitLines (frame event ++ text)
      = (eventLine event :: dataLine event :: [] :: (splitLines text).1, (splitLines text).2) := by
  have htext : frame event ++ text
      = eventLine event ++ '\n' :: (dataLine event ++ '\n' :: ([] ++ '\n' :: text)) := by
    simp [frame]
  rw [htext, splitLines_line (newline_not_mem_eventLine event),
    splitLines_line (newline_not_mem_dataLine event), splitLines_line List.not_mem_nil]

/-- The three lines of a frame call `onEvent` with its event. -/
theorem onLine_frame {parse : List Char → Option Json} {event : AgentEvent}
    (hparse : parse (eventJson event).marshal = some (eventJson event)) (calls : List Json) :
    [eventLine event, dataLine event, []].foldl (LineState.onLine parse) { calls := calls }
      = { calls := calls ++ [eventJson event] } := by
  have hevent : LineState.onLine parse { calls := calls } (eventLine event)
      = { currentEvent := event.type.text.toList, calls := calls } := by
    unfold LineState.onLine eventLine
    rw [if_pos (List.isPrefixOf_iff_prefix.mpr (List.prefix_append _ _))]
    show ({ currentEvent := jsTrim (List.drop "event: ".toList.length _), calls := calls } : LineState) = _
    rw [List.drop_left, jsTrim_typeText]
  have hdata : LineState.onLine parse { currentEvent := event.type.text.toList, calls := calls }
      (dataLine event)
      = { currentEvent := event.type.text.toList, currentData := (eventJson event).marshal,
          calls := calls } := by
    have hne : "event: ".toList.isPrefixOf (dataLine event) = false := rfl
    unfold LineState.onLine
    rw [hne, if_neg Bool.false_ne_true]
    unfold dataLine
    rw [if_pos (List.isPrefixOf_iff_prefix.mpr (List.prefix_append _ _))]
    show ({ currentEvent := _, currentData := List.drop "data: ".toList.length _, calls := calls }
      : LineState) = _
    rw [List.drop_left]
  have htype : withType event.type.text.toList (eventJson event) = some (eventJson event) := by
    have hfield := eventJson_type event
    unfold eventJson at hfield ⊢
    unfold withType
    dsimp only
    rw [hfield]
    simp [Json.text?]
  have hmarshal : (eventJson event).marshal ≠ [] := by
    unfold eventJson
    rw [Json.marshal]
    exact List.cons_ne_nil _ _
  rw [List.foldl_cons, hevent, List.foldl_cons, hdata, List.foldl_cons, List.foldl_nil]
  unfold LineState.onLine
  rw [if_neg (by decide), if_neg (by decide), if_pos rfl]
  unfold LineState.dispatch
  rw [if_pos ⟨typeText_ne_nil event.type, hmarshal⟩, hparse, Option.bind_some, htype]

/-- The lines of all frames. -/
theorem onLine_frames {parse : List Char → Option Json} {events : List AgentEvent}
    (hparse : ∀ event ∈ events, parse (eventJson event).marshal = some (eventJson event))
    (calls : List Json) :
    (splitLines (events.flatMap frame)).1.foldl (LineState.onLine parse) { calls := calls }
      = { calls := calls ++ events.map eventJson } := by
  induction events generalizing calls with
  | nil => simp
  | cons event events ih =>
    have hframe := onLine_frame (hparse event List.mem_cons_self) calls
    rw [List.flatMap_cons, splitLines_frame]
    show ([eventLine event, dataLine event, []] ++ (splitLines (events.flatMap frame)).1).foldl _ _ = _
    rw [List.foldl_append, hframe, ih fun e he => hparse e (List.mem_cons_of_mem _ he),
      List.append_assoc]
    rfl

/-- The stream starts with an `e`, or is empty. -/
theorem head_frames (events : List AgentEvent) :
    (events.flatMap frame).head? ≠ some '\uFEFF' := by
  cases events with
  | nil =>
    intro h
    cases h
  | cons event events =>
    have hhead : (((event :: events).flatMap frame).head?) = some 'e' := rfl
    rw [hhead]
    decide

/-! ## The stream -/

/-- However the bytes of a run are cut, `onEvent` gets each event once and
in order, and `onError` nothing; `JSON.parse` has to undo `json.Marshal`
on these events. -/
theorem streamSSE_frames (decoder : TextDecoder) (parse : List Char → Option Json)
    (events : List AgentEvent)
    (hparse : ∀ event ∈ events, parse (eventJson event).marshal = some (eventJson event))
    (values : List Bytes) (hvalues : values.flatten = utf8 (events.flatMap frame)) :
    streamSSE decoder parse (some (values, none)) = { events := events.map eventJson, errors := [] } := by
  have hdecoded := decoder.decode_stream _ values (head_frames events) hvalues
  obtain ⟨lines, hlines, hmachine⟩ := read_foldl decoder parse values
    { decoding := decoder.start, buffer := [], machine := {} } [] decoder.start ⟨rfl, rfl⟩
  rw [hdecoded] at hlines
  have hall := onLine_frames hparse []
  rw [hlines] at hall
  have hcalls := hmachine.trans hall
  unfold streamSSE
  dsimp only
  rw [hcalls]
  rfl

/-- A chunk that contains a frame, one byte at a time. -/
def trickyChunk : AgentEvent := .chunk "agent" "run" "é\n\nevent: run.failed\ndata: {}\n\n"

def parseTricky (text : List Char) : Option Json :=
  if text = (eventJson trickyChunk).marshal then some (eventJson trickyChunk) else none

theorem streamSSE_frames_bytes :
    streamSSE utf8Decoder parseTricky
        (some ((utf8 ([trickyChunk].flatMap frame)).map (fun b => [b]), none))
      = { events := [trickyChunk].map eventJson, errors := [] } := by
  refine streamSSE_frames utf8Decoder parseTricky [trickyChunk] ?_ _ ?_
  · intro event hmem
    rw [List.mem_singleton.mp hmem]
    exact if_pos rfl
  · rw [← List.flatMap_def, List.flatMap_singleton']

end LendingClaw.Ui
