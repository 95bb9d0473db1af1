/-
LendingClaw.Ui.Completions — a streamed completion as the skill dialog
reads it (`streamOpenAIChatCompletion` of `ui/web/src/lib/sse.ts`,
`startStream` of `AiCreateSkillDialog.tsx`).

The reader stops at the end mark and at an error; what it has handed to
`onDelta` by then counts. Values of a chunk are read at the types that
the declaration of the chunk gives them.
-/
import LendingClaw.Http.Completions
import LendingClaw.Ui.Sse

namespace LendingClaw.Ui

open LendingClaw.Lib LendingClaw.Http
open Providers (Message ModelRequest OpenAIProvider Streamed textMessage)

/-! ## Reading lines until one stops the reader -/

/-- A decoder, a buffer, and the state of what reads the lines. -/
structure LineReader (decoder : TextDecoder) (σ : Type) where
  decoding : decoder.State
  buffer : List Char
  state : σ

section
variable (decoder : TextDecoder) {σ ε : Type} (onLine : σ → List Char → Except ε σ)

/-- One turn of a read loop; a line may stop it. -/
def LineReader.read (r : LineReader decoder σ) (value : Bytes) : Except ε (LineReader decoder σ) :=
  let decoded := decoder.decode r.decoding value
  let lines := splitLines (r.buffer ++ decoded.1)
  (lines.1.foldlM onLine r.state).map fun state =>
    { decoding := decoded.2, buffer := lines.2, state := state }

/-- The buffer and the state. -/
def LineReader.rest {decoder : TextDecoder} {σ : Type} (r : LineReader decoder σ) : List Char × σ :=
  (r.buffer, r.state)

theorem map_error {α β : Type} (f : α → β) (e : ε) :
    (Except.error e : Except ε α).map f = .error e := rfl

theorem foldlM_append_ok {lines more : List (List Char)} {s s' : σ}
    (h : lines.foldlM onLine s = .ok s') :
    (lines ++ more).foldlM onLine s = more.foldlM onLine s' := by
  rw [List.foldlM_append, h]
  rfl

theorem foldlM_append_error {lines more : List (List Char)} {s : σ} {e : ε}
    (h : lines.foldlM onLine s = .error e) : (lines ++ more).foldlM onLine s = .error e := by
  rw [List.foldlM_append, h]
  rfl

/-- Wherever the bytes are cut, the lines of the whole text are read up to
the one that stops the reader. -/
theorem foldlM_read (values : List Bytes) (text : List Char) (decoding : decoder.State)
    {s s' : σ} (hs : (splitLines text).1.foldlM onLine s = .ok s') :
    let decoded := values.foldl
      (fun r piece => (r.1 ++ (decoder.decode r.2 piece).1, (decoder.decode r.2 piece).2)) (text, decoding)
    (values.foldlM (LineReader.read decoder onLine)
        { decoding := decoding, buffer := (splitLines text).2, state := s' }).map LineReader.rest
      = ((splitLines decoded.1).1.foldlM onLine s).map fun state => ((splitLines decoded.1).2, state) := by
  induction values generalizing text decoding s' with
  | nil =>
    show _ = ((splitLines text).1.foldlM onLine s).map _
    rw [hs]
    rfl
  | cons value values ih =>
    let piece := (decoder.decode decoding value).1
    have hsplit := splitLines_append text piece
    rw [List.foldlM_cons]
    cases hread : (splitLines ((splitLines text).2 ++ piece)).1.foldlM onLine s' with
    | ok next =>
      have hturn : LineReader.read decoder onLine
          { decoding := decoding, buffer := (splitLines text).2, state := s' } value
          = .ok { decoding := (decoder.decode decoding value).2,
                  buffer := (splitLines (text ++ piece)).2, state := next } := by
        unfold LineReader.read
        dsimp only
        rw [hread, hsplit]
        rfl
      have hwhole : (splitLines (text ++ piece)).1.foldlM onLine s = .ok next := by
        rw [hsplit, foldlM_append_ok onLine hs, hread]
      rw [hturn]
      exact ih (text ++ piece) (decoder.decode decoding value).2 hwhole
    | error e =>
      have hturn : LineReader.read decoder onLine
          { decoding := decoding, buffer := (splitLines text).2, state := s' } value = .error e := by
        unfold LineReader.read
        dsimp only
        rw [hread]
        rfl
      have hwhole : (splitLines (text ++ piece)).1.foldlM onLine s = .error e := by
        rw [hsplit, foldlM_append_ok onLine hs, hread]
      rw [hturn]
      -- the lines that follow are not read
      have hmore : ∀ (pieces : List Bytes) (r : List Char × decoder.State),
          (splitLines r.1).1.foldlM onLine s = .error e →
          (splitLines (pieces.foldl
            (fun r piece => (r.1 ++ (decoder.decode r.2 piece).1, (decoder.decode r.2 piece).2)) r).1).1.foldlM
              onLine s = .error e := by
        intro pieces
        induction pieces with
        | nil => exact fun r h => h
        | cons piece pieces ih =>
          intro r h
          refine ih _ ?_
          show (splitLines (r.1 ++ _)).1.foldlM onLine s = _
          rw [splitLines_append, foldlM_append_error onLine h]
      have hall := hmore values (text ++ piece, (decoder.decode decoding value).2) hwhole
      show Except.map _ (Except.error e) = Except.map _ _
      rw [map_error]
      exact (congrArg (Except.map _) hall).symm
end

/-! ## The reader -/

/-- The pending data lines, and the arguments of the calls of `onDelta`. -/
structure DeltaState where
  dataLines : List (List Char) := []
  deltas : List String := []

/-- What a reader leaves: the calls of `onDelta`, and what it throws. -/
structure Received where
  deltas : List String
  error : Option String
  deriving DecidableEq

/-- `chunk.error?.message`, if it is not empty. -/
def chunkError (chunk : Json) : Option String :=
  (((chunk.field "error").bind (Json.field "message")).bind Json.text?).filter (· ≠ "")

/-- `chunk.choices?.[0]?.delta?.content`, if it is not empty. -/
def chunkDelta (chunk : Json) : Option String :=
  match chunk.field "choices" with
  | some (.arr (choice :: _)) =>
    (((choice.field "delta").bind (Json.field "content")).bind Json.text?).filter (· ≠ "")
  | _ => none

section
variable (parse : List Char → Except String Json)

/-- `flush`. -/
def DeltaState.flush (st : DeltaState) : Except Received DeltaState :=
  if st.dataLines = [] then .ok st
  else
    let data := jsTrim (['\n'].intercalate st.dataLines)
    if data = [] then .ok { st with dataLines := [] }
    else if data = "[DONE]".toList then .error { deltas := st.deltas, error := none }
    else
      match parse data with
      | .error err => .error { deltas := st.deltas, error := some err }
      | .ok chunk =>
        match chunkError chunk with
        | some err => .error { deltas := st.deltas, error := some err }
        | none => .ok { deltas := st.deltas ++ (chunkDelta chunk).toList }

/-- A data line. -/
def DeltaState.push (st : DeltaState) (line : List Char) : DeltaState :=
  { st with dataLines := st.dataLines ++ [line.drop 6] }

/-- One line. -/
def DeltaState.onLine (st : DeltaState) (line : List Char) : Except Received DeltaState :=
  if "data: ".toList.isPrefixOf line then .ok (st.push line)
  else if line = [] then st.flush parse
  else .ok st

/-- What comes after the last line end. -/
def DeltaState.close (st : DeltaState) (buffer : List Char) : Received :=
  let st := if "data: ".toList.isPrefixOf buffer then st.push buffer else st
  match st.flush parse with
  | .ok st => { deltas := st.deltas, error := none }
  | .error received => received

/-- `streamOpenAIChatCompletion`, of a response without a body or with one
that is read in pieces up to its end or a failure. -/
def streamOpenAIChatCompletion (decoder : TextDecoder) (body : Option (List Bytes × Option String)) :
    Received :=
  match body with
  | none => { deltas := [], error := some "No response body" }
  | some (values, failure) =>
    let start : LineReader decoder DeltaState := { decoding := decoder.start, buffer := [], state := {} }
    match values.foldlM (LineReader.read decoder (DeltaState.onLine parse)) start with
    | .error received => received
    | .ok r =>
      match failure with
      | some err => { deltas := r.state.deltas, error := some err }
      | none => r.state.close parse r.buffer

/-- The messages of the dialog, and the error it shows. -/
structure Generation where
  messages : List Message
  error : Option String

/-- The rest of `startStream` once the request is answered, with the bytes
of the body as they come and the error of a body that breaks off. -/
def startStream (decoder : TextDecoder) (messages : List Message) (answer : CompletionAnswer)
    (values : List Bytes) (networkError : String) : Generation :=
  match answer with
  | .error status message =>
    { messages := messages
      error := some (if message = "" then "HTTP " ++ toString status else message) }
  | answer =>
    let received := streamOpenAIChatCompletion parse decoder
      (some (values, if answer.broken then some networkError else none))
    match received.error with
    | some err => { messages := messages, error := some err }
    | none =>
      let fullContent := String.join received.deltas
      { messages :=
          if fullContent ≠ "" then messages ++ [textMessage .assistant fullContent] else messages
        error := none }

/-- What the bytes of a text come to, wherever they are cut. -/
def receivedOf (text : List Char) (failure : Option String) : Received :=
  match (splitLines text).1.foldlM (DeltaState.onLine parse) {} with
  | .error received => received
  | .ok st =>
    match failure with
    | some err => { deltas := st.deltas, error := some err }
    | none => st.close parse (splitLines text).2

theorem streamOpenAIChatCompletion_text (decoder : TextDecoder) {text : List Char}
    (hmark : text.head? ≠ some '\uFEFF') {values : List Bytes} (hvalues : values.flatten = utf8 text)
    (failure : Option String) :
    streamOpenAIChatCompletion parse decoder (some (values, failure)) = receivedOf parse text failure := by
  have hdecoded := decoder.decode_stream text values hmark hvalues
  have hstart : (splitLines []).1.foldlM (DeltaState.onLine parse) {} = .ok {} := rfl
  have hread := foldlM_read decoder (DeltaState.onLine parse) values [] decoder.start hstart
  dsimp only at hread
  rw [hdecoded] at hread
  unfold streamOpenAIChatCompletion receivedOf
  dsimp only
  cases hlines : (splitLines text).1.foldlM (DeltaState.onLine parse) {} with
  | error received =>
    rw [hlines] at hread
    cases hfold : values.foldlM (LineReader.read decoder (DeltaState.onLine parse))
        { decoding := decoder.start, buffer := [], state := {} } with
    | error received' =>
      rw [splitLines_nil, hfold] at hread
      exact Except.error.inj hread
    | ok r =>
      rw [splitLines_nil, hfold] at hread
      cases hread
  | ok st =>
    rw [hlines] at hread
    cases hfold : values.foldlM (LineReader.read decoder (DeltaState.onLine parse))
        { decoding := decoder.start, buffer := [], state := {} } with
    | error received' =>
      rw [splitLines_nil, hfold] at hread
      cases hread
    | ok r =>
      rw [splitLines_nil, hfold] at hread
      obtain ⟨hbuffer, hstate⟩ := Prod.mk.inj (Except.ok.inj hread)
      dsimp only
      rw [hbuffer, hstate]

/-! ## One frame -/

theorem jsTrim_obj (fields : List (String × Json)) : jsTrim (Json.obj fields).marshal = (Json.obj fields).marshal := by
  unfold jsTrim
  rw [Json.marshal, List.dropWhile_cons_of_neg (by decide), ← List.cons_append,
    List.rdropWhile_concat_neg _ _ _ (by decide)]

theorem obj_ne_nil (fields : List (String × Json)) : (Json.obj fields).marshal ≠ [] := by
  rw [Json.marshal]
  exact List.cons_ne_nil _ _

theorem obj_ne_done (fields : List (String × Json)) : (Json.obj fields).marshal ≠ "[DONE]".toList := by
  rw [Json.marshal]
  intro h
  exact absurd (List.cons.inj h).1 (by decide)

theorem splitLines_dataFrame {data : List Char} (hdata : '\n' ∉ data) (text : List Char) :
    splitLines (dataFrame data ++ text)
      = (("data: ".toList ++ data) :: [] :: (splitLines text).1, (splitLines text).2) := by
  have hline : '\n' ∉ "data: ".toList ++ data := by
    rw [List.mem_append, not_or]
    exact ⟨by decide, hdata⟩
  have htext : dataFrame data ++ text = ("data: ".toList ++ data) ++ '\n' :: ([] ++ '\n' :: text) := by
    simp [dataFrame]
  rw [htext, splitLines_line hline, splitLines_line List.not_mem_nil]

variable {parse}

/-- The two lines of a frame are flushed as its data. -/
theorem onLine_dataFrame (data : List Char) (deltas : List String) (more : List (List Char)) :
    (("data: ".toList ++ data) :: [] :: more).foldlM (DeltaState.onLine parse) { deltas := deltas }
      = (({ dataLines := [data], deltas := deltas } : DeltaState).flush parse).bind
          (more.foldlM (DeltaState.onLine parse)) := by
  have hpush : DeltaState.onLine parse { deltas := deltas } ("data: ".toList ++ data)
      = .ok { dataLines := [data], deltas := deltas } := by
    unfold DeltaState.onLine DeltaState.push
    rw [if_pos (List.isPrefixOf_iff_prefix.mpr (List.prefix_append _ _))]
    show Except.ok ({ dataLines := [] ++ [List.drop "data: ".toList.length _], deltas := deltas } : DeltaState) = _
    rw [List.drop_left]
    rfl
  rw [List.foldlM_cons, hpush]
  rfl

theorem flush_obj {fields : List (String × Json)}
    (hparse : parse (Json.obj fields).marshal = .ok (.obj fields)) (deltas : List String) :
    ({ dataLines := [(Json.obj fields).marshal], deltas := deltas } : DeltaState).flush parse
      = match chunkError (.obj fields) with
        | some err => .error { deltas := deltas, error := some err }
        | none => .ok { deltas := deltas ++ (chunkDelta (.obj fields)).toList } := by
  unfold DeltaState.flush
  rw [if_neg (by simp)]
  simp only [List.intercalate_singleton]
  rw [jsTrim_obj, if_neg (obj_ne_nil fields), if_neg (obj_ne_done fields), hparse]

theorem flush_done (deltas : List String) :
    ({ dataLines := ["[DONE]".toList], deltas := deltas } : DeltaState).flush parse
      = .error { deltas := deltas, error := none } := by
  unfold DeltaState.flush
  rw [if_neg (by simp)]
  simp only [List.intercalate_singleton]
  rw [if_neg (by decide), if_pos (by decide)]

end

section
variable (stamp : Stamp) (model : String)

theorem chunkError_chunkJson (content : String) (finishReason : Option String)
    (usage : Option Providers.Usage) : chunkError (chunkJson stamp model content finishReason usage) = none := by
  cases usage with
  | none => simp [chunkError, chunkJson, Json.field]
  | some u => simp [chunkError, chunkJson, Json.field]

theorem chunkDelta_chunkJson {content : String} (hcontent : content ≠ "")
    (finishReason : Option String) (usage : Option Providers.Usage) :
    chunkDelta (chunkJson stamp model content finishReason usage) = some content := by
  cases usage with
  | none => simp [chunkDelta, chunkJson, Json.field, messageFields, hcontent, Json.text?]
  | some u => simp [chunkDelta, chunkJson, Json.field, messageFields, hcontent, Json.text?]

theorem chunkDelta_chunkJson_blank (finishReason : Option String) (usage : Option Providers.Usage) :
    chunkDelta (chunkJson stamp model "" finishReason usage) = none := by
  cases usage with
  | none => simp [chunkDelta, chunkJson, Json.field, messageFields]
  | some u => simp [chunkDelta, chunkJson, Json.field, messageFields]

theorem chunkError_streamErrorJson (err : String) :
    chunkError (streamErrorJson err) = some ("completion failed: " ++ err) := by
  have hne : "completion failed: " ++ err ≠ "" := by
    intro h
    have hlist := congrArg String.toList h
    rw [String.toList_append] at hlist
    exact absurd (List.append_eq_nil_iff.mp hlist).1 (by decide)
  simp [chunkError, streamErrorJson, Json.field, Json.text?, hne]

/-! ## The stream -/

/-- What a reader throws at the end of a stream, given the error of a body
that breaks off. -/
def thrown (networkError : String) : Providers.Ending → Option String
  | .ok _ => none
  | .error err => some ("completion failed: " ++ err.text)
  | .panic => some networkError

variable {parse : List Char → Except String Json}

/-- The frames of some texts hand them on. -/
theorem foldlM_chunks {contents : List String} (hne : ∀ content ∈ contents, content ≠ "")
    (hparse : ∀ content ∈ contents, parse (chunkJson stamp model content none none).marshal
      = .ok (chunkJson stamp model content none none)) (deltas : List String) (text : List Char) :
    let frames := (contents.map fun content => chunkJson stamp model content none none).flatMap
      fun value => dataFrame value.marshal
    (splitLines (frames ++ text)).1.foldlM (DeltaState.onLine parse) { deltas := deltas }
        = (splitLines text).1.foldlM (DeltaState.onLine parse) { deltas := deltas ++ contents }
      ∧ (splitLines (frames ++ text)).2 = (splitLines text).2 := by
  induction contents generalizing deltas with
  | nil => simp
  | cons content contents ih =>
    obtain ⟨hlines, hrest⟩ := ih (fun c hc => hne c (List.mem_cons_of_mem _ hc))
      (fun c hc => hparse c (List.mem_cons_of_mem _ hc)) (deltas ++ [content])
    have hflush : DeltaState.flush parse
        { dataLines := [(chunkJson stamp model content none none).marshal], deltas := deltas }
        = .ok { deltas := deltas ++ [content] } := by
      have hobj := flush_obj (hparse content List.mem_cons_self) deltas
      rw [show Json.obj _ = chunkJson stamp model content none none from rfl,
        chunkError_chunkJson, chunkDelta_chunkJson stamp model (hne content List.mem_cons_self)] at hobj
      exact hobj
    dsimp only at hlines hrest ⊢
    rw [List.map_cons, List.flatMap_cons, List.append_assoc,
      splitLines_dataFrame (Json.newline_not_mem_marshal _)]
    refine ⟨?_, hrest⟩
    rw [onLine_dataFrame, hflush]
    refine Eq.trans ?_ (hlines.trans ?_)
    · rfl
    · rw [List.append_assoc]
      rfl

/-- The rest of the stream tells how it ended. -/
theorem foldlM_ending {e : Providers.Ending}
    (networkError : String)
    (hparse : ∀ value ∈ endingValues stamp model e, parse value.marshal = .ok value)
    (deltas : List String) :
    let rest := (endingValues stamp model e).flatMap (fun value => dataFrame value.marshal)
      ++ if e.broken then [] else dataFrame "[DONE]".toList
    (splitLines rest).1.foldlM (DeltaState.onLine parse) { deltas := deltas }
      = if e.broken then .ok { deltas := deltas }
        else .error { deltas := deltas, error := thrown networkError e } := by
  have hframe : ∀ value : Json, (splitLines (([value].flatMap fun value => dataFrame value.marshal)
      ++ dataFrame "[DONE]".toList)).1
      = ("data: ".toList ++ value.marshal) :: [] :: ("data: ".toList ++ "[DONE]".toList) :: [] :: [] := by
    intro value
    have hdone : splitLines (dataFrame "[DONE]".toList) = (["data: [DONE]".toList, []], []) := by
      decide
    rw [List.flatMap_singleton, splitLines_dataFrame (Json.newline_not_mem_marshal value), hdone]
    rfl
  cases e with
  | ok resp =>
    have hobj := flush_obj (hparse _ List.mem_cons_self) deltas
    rw [show Json.obj _ = chunkJson stamp model "" (some (completionFinishReason resp.finishReason))
        resp.usage from rfl, chunkError_chunkJson, chunkDelta_chunkJson_blank] at hobj
    dsimp only
    rw [endingValues, if_neg (by simp [Providers.Ending.broken]), hframe, onLine_dataFrame, hobj]
    show (("data: ".toList ++ "[DONE]".toList) :: [] :: []).foldlM (DeltaState.onLine parse)
      { deltas := deltas ++ [] } = _
    rw [onLine_dataFrame, flush_done, List.append_nil]
    rfl
  | error err =>
    have hobj := flush_obj (hparse _ List.mem_cons_self) deltas
    rw [show Json.obj _ = streamErrorJson err.text from rfl, chunkError_streamErrorJson] at hobj
    dsimp only
    rw [endingValues, if_neg (by simp [Providers.Ending.broken]), hframe, onLine_dataFrame, hobj]
    rfl
  | panic => rfl

/-- The reader has every text that was passed on, and how the stream
ended. -/
theorem receivedOf_streamText {s : Streamed} (networkError : String)
    (hparse : ∀ value ∈ streamValues stamp model s, parse value.marshal = .ok value) :
    receivedOf parse (streamText stamp model s)
        (if s.ending.broken then some networkError else none)
      = { deltas := passedOn s, error := thrown networkError s.ending } := by
  have hne : ∀ content ∈ passedOn s, content ≠ "" :=
    fun content hmem => of_decide_eq_true (List.mem_filter.mp hmem).2
  have hlines := (foldlM_chunks stamp model hne
    (fun content hmem => hparse _ (List.mem_append_left _ (List.mem_map_of_mem hmem))) []
    ((endingValues stamp model s.ending).flatMap (fun value => dataFrame value.marshal)
      ++ if s.ending.broken then [] else dataFrame "[DONE]".toList)).1
  have hending := foldlM_ending stamp model networkError (fun value hmem => hparse value (List.mem_append_right _ hmem))
    (passedOn s)
  dsimp only at hlines hending
  rw [List.nil_append, hending] at hlines
  unfold receivedOf streamText streamValues
  rw [List.flatMap_append, List.append_assoc, hlines]
  cases s.ending with
  | ok resp => rfl
  | error err => rfl
  | panic => rfl

end

theorem head_dataFrame (data more : List Char) : (dataFrame data ++ more).head? = some 'd' := rfl

theorem head_streamText (stamp : Stamp) (model : String) (s : Streamed) :
    (streamText stamp model s).head? ≠ some '\uFEFF' := by
  unfold streamText
  cases streamValues stamp model s with
  | nil =>
    cases s.ending.broken with
    | true => simp
    | false =>
      show (dataFrame "[DONE]".toList).head? ≠ _
      decide
  | cons value values =>
    rw [List.flatMap_cons, List.append_assoc, head_dataFrame]
    decide

/-! ## From the server to the dialog -/

/-- What the dialog makes of a request that passed the checks, with the
streams that were tried for it. -/
structure CompletionShown (p : OpenAIProvider) (req : ModelRequest) (messages : List Message)
    (networkError : String) (received : Received) (g : Generation) : Prop where
  /-- At most so many attempts, and no attempt after one that was accepted. -/
  tried : 1 ≤ (p.connect req).calls
    ∧ Providers.Settled (p.stream (p.requestBody req true)) p.cancelled (Providers.attemptsOf p.attempts)
      (p.connect req)
  /-- No attempt was accepted: nothing is shown but the error. -/
  refused : ∀ err, (p.connect req).result = .error err →
    received.deltas = [] ∧ g = { messages := messages, error := some ("completion failed: " ++ err.text) }
  /-- An attempt was accepted: its texts come once and in order. -/
  accepted : ∀ body, (p.connect req).result = .ok body →
    p.stream (p.requestBody req true) (p.connect req).calls = .ok body
      ∧ received.deltas = passedOn (Providers.readStream p.json p.name body)
  /-- A whole answer is kept, and only that. -/
  kept : ∀ resp, (p.chatStream req).ending = .ok resp →
    String.join received.deltas = resp.content ∧ g.error = none
      ∧ g.messages = if resp.content ≠ "" then messages ++ [textMessage .assistant resp.content] else messages
  failed : ∀ err, thrown networkError (p.chatStream req).ending = some err →
    g = { messages := messages, error := some err }

/-- However the bytes are cut, the dialog has what the server streamed to
the one attempt that was accepted: the whole answer, or the error. -/
theorem completion_shown (svc : CompletionService) (stamp : Stamp) (req : ChatCompletionRequest)
    (hstream : req.stream = true) (p : OpenAIProvider) (providerReq : ModelRequest)
    (hchecked : svc.providerRequest req = .ok (p, providerReq)) (decoder : TextDecoder)
    (parse : List Char → Except String Json)
    (hparse : ∀ value ∈ streamValues stamp providerReq.model (p.chatStream providerReq),
      parse value.marshal = .ok value)
    (values : List Bytes)
    (hvalues : values.flatten = utf8 (streamText stamp providerReq.model (p.chatStream providerReq)))
    (messages : List Message) (networkError : String) :
    let failure := if (p.chatStream providerReq).ending.broken then some networkError else none
    CompletionShown p providerReq messages networkError
      (streamOpenAIChatCompletion parse decoder (some (values, failure)))
      (startStream parse decoder messages (chatCompletions svc stamp true (some req)) values networkError) := by
  have hanswer : chatCompletions svc stamp true (some req) = streamChatCompletion p stamp providerReq := by
    unfold chatCompletions
    dsimp only
    rw [hchecked]
    simp [hstream]
  have hreceived := (streamOpenAIChatCompletion_text parse decoder (head_streamText stamp _ _) hvalues
    _).trans (receivedOf_streamText stamp providerReq.model networkError hparse)
  have hgeneration : startStream parse decoder messages (chatCompletions svc stamp true (some req)) values
      networkError
      = match thrown networkError (p.chatStream providerReq).ending with
        | some err => { messages := messages, error := some err }
        | none =>
          { messages :=
              if String.join (passedOn (p.chatStream providerReq)) ≠ "" then
                messages ++ [textMessage .assistant (String.join (passedOn (p.chatStream providerReq)))]
              else messages
            error := none } := by
    rw [hanswer]
    unfold startStream streamChatCompletion CompletionAnswer.broken
    dsimp only
    rw [hreceived]
  dsimp only
  rw [hgeneration, hreceived]
  have hfailed : ∀ err, (p.connect providerReq).result = .error err →
      p.chatStream providerReq = { emitted := [], ending := .error err } := by
    intro err herr
    unfold Providers.OpenAIProvider.chatStream
    rw [herr]
  have hread : ∀ body, (p.connect providerReq).result = .ok body →
      p.chatStream providerReq = Providers.readStream p.json p.name body := by
    intro body hbody
    unfold Providers.OpenAIProvider.chatStream
    rw [hbody]
  have htried : 1 ≤ (p.connect providerReq).calls ∧ Providers.Settled _ _ _ (p.connect providerReq) :=
    Providers.retryDo_settled p.attempts
  refine { tried := htried, refused := ?_, accepted := ?_, kept := ?_, failed := ?_ }
  · intro err herr
    rw [hfailed err herr]
    exact ⟨rfl, rfl⟩
  · intro body hbody
    exact ⟨htried.2.of_ok hbody, by rw [hread body hbody]⟩
  · intro resp hresp
    have hcontent := (p.chatStream_faithful providerReq).content resp hresp
    rw [← join_passedOn] at hcontent
    rw [hresp]
    rw [hcontent]
    exact ⟨rfl, rfl, rfl⟩
  · intro err herr
    rw [herr]

/-! ## A completion at the second attempt -/

/-- `JSON.parse` on what is written. -/
def parseSkill (text : List Char) : Except String Json :=
  match Json.parseAmong (streamValues skillStamp "gpt" (busyOnce.chatStream skillModelRequest)) text with
  | some value => .ok value
  | none => .error "Unexpected token"

theorem parseSkill_marshal :
    ∀ value ∈ streamValues skillStamp "gpt" (busyOnce.chatStream skillModelRequest),
      parseSkill value.marshal = .ok value := by
  intro value hmem
  unfold parseSkill
  rw [Json.parseAmong_marshal (by decide +kernel) value hmem]

def skillText : List Char := streamText skillStamp "gpt" (busyOnce.chatStream skillModelRequest)

theorem completion_shown_skill :
    passedOn (busyOnce.chatStream skillModelRequest) = ["# Loan", " review"]
      ∧ CompletionShown busyOnce skillModelRequest [] "network error"
        (streamOpenAIChatCompletion parseSkill utf8Decoder (some ((utf8 skillText).map fun b => [b], none)))
        (startStream parseSkill utf8Decoder []
          (chatCompletions { provider := some busyOnce, defaultModel := "gpt" } skillStamp true
            (some skillRequest)) ((utf8 skillText).map fun b => [b]) "network error") :=
  ⟨by decide +kernel,
    completion_shown { provider := some busyOnce, defaultModel := "gpt" } skillStamp skillRequest rfl
      busyOnce skillModelRequest rfl utf8Decoder parseSkill
      parseSkill_marshal _ (by rw [← List.flatMap_def, List.flatMap_singleton']; rfl) [] "network error"⟩

end LendingClaw.Ui
