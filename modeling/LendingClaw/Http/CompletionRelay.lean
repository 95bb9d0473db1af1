/-
LendingClaw.Http.CompletionRelay — the completion endpoint read by a
provider (`streamChatCompletion` of
`internal/transport/http/handler/completions.go` against `ChatStream` of
`internal/providers/openai.go`).

The endpoint writes the format that the provider reads, so one process
can be the upstream of another. The texts, the finish reason and the
token counts arrive; an error that is written into the stream does not:
the reader skips it, and takes what came before it for the whole answer.
-/
import LendingClaw.Http.Completions
import LendingClaw.Lib.JsText
import LendingClaw.Providers.OpenAITheorems

namespace LendingClaw.Http

open LendingClaw.Providers
open LendingClaw.Lib (splitLines splitLines_line)

/-! ## Lines and their chunks -/

section
variable {json : Unmarshal} {lines : List String} {chunks : List OpenAIStreamChunk}

/-- A scan takes the chunks of the lines one after the other. -/
theorem scanBody_carry (h : Carry json lines chunks) (rest : List String) (st : StreamState)
    (hfits : ∀ line ∈ lines, Fits line) :
    scanBody json (lines ++ rest) st = scanBody json rest (chunks.foldl StreamState.add st) := by
  induction h generalizing st with
  | nil => rfl
  | skip line hline h ih =>
    rw [List.cons_append, scanBody, if_neg (Nat.not_le.mpr (hfits line List.mem_cons_self)), hline]
    exact ih st fun l hl => hfits l (List.mem_cons_of_mem _ hl)
  | data text hline hchunk h ih =>
    obtain ⟨hpre, htext⟩ := hline.decode
    rw [List.cons_append, scanBody, if_neg (Nat.not_le.mpr (hfits _ List.mem_cons_self)), hpre]
    simp only [htext, hchunk, if_neg (ne_done hchunk)]
    exact ih _ fun l hl => hfits l (List.mem_cons_of_mem _ hl)

theorem scanBody_done {line : String} (hline : IsData line "[DONE]") (hfit : Fits line)
    (rest : List String) (st : StreamState) : scanBody json (line :: rest) st = (st, .finished) := by
  obtain ⟨hpre, htext⟩ := hline.decode
  rw [scanBody, if_neg (Nat.not_le.mpr hfit), hpre]
  simp [htext]

end

/-- The line of a value. -/
def dataLine (value : Lib.Json) : String := "data: " ++ String.ofList value.marshal

theorem isData_dataLine (fields : List (String × Lib.Json)) :
    IsData (dataLine (.obj fields)) (String.ofList (Lib.Json.obj fields).marshal) := by
  left
  have hlast : (dataLine (.obj fields)).toList.getLast? = some '\x7d' := by
    rw [dataLine, String.toList_append, List.getLast?_append, String.toList_ofList, Lib.Json.marshal,
      ← List.cons_append, List.getLast?_append]
    rfl
  unfold dropCR
  rw [hlast, if_neg (by decide)]
  rfl

/-- The lines of the frames of some values. -/
def dataLines (values : List Lib.Json) : List String := values.flatMap fun value => [dataLine value, ""]

theorem splitLines_frames (values : List Lib.Json) (text : List Char) :
    splitLines (values.flatMap (fun value => dataFrame value.marshal) ++ text)
      = ((dataLines values).map String.toList ++ (splitLines text).1, (splitLines text).2) := by
  induction values with
  | nil => rfl
  | cons value values ih =>
    have hline : '\n' ∉ "data: ".toList ++ value.marshal := by
      rw [List.mem_append, not_or]
      exact ⟨by decide, Lib.Json.newline_not_mem_marshal value⟩
    have htext : dataFrame value.marshal ++ (values.flatMap (fun value => dataFrame value.marshal) ++ text)
        = ("data: ".toList ++ value.marshal)
          ++ '\n' :: ([] ++ '\n' :: (values.flatMap (fun value => dataFrame value.marshal) ++ text)) := by
      simp [dataFrame]
    rw [List.flatMap_cons, List.append_assoc, htext, splitLines_line hline,
      splitLines_line List.not_mem_nil, ih]
    simp [dataLines, dataLine]

/-- Values that are objects are carried as the chunks that they decode to. -/
theorem carry_dataLines {json : Unmarshal} {values : List Lib.Json} {chunks : List OpenAIStreamChunk}
    (hobj : ∀ value ∈ values, ∃ fields, value = .obj fields)
    (h : List.Forall₂ (fun value chunk => json.chunk (String.ofList value.marshal) = some chunk) values
      chunks) : Carry json (dataLines values) chunks := by
  induction h with
  | nil => exact .nil
  | cons hchunk _ ih =>
    obtain ⟨fields, rfl⟩ := hobj _ List.mem_cons_self
    exact .data _ (isData_dataLine fields) hchunk
      (.skip "" (by decide) (ih fun value hmem => hobj value (List.mem_cons_of_mem _ hmem)))

/-! ## The chunks of a stream -/

/-- What a provider keeps of the token counts. -/
def relayedUsage (usage : Usage) : OpenAIUsage :=
  { promptTokens := usage.promptTokens
    completionTokens := usage.completionTokens
    totalTokens := usage.totalTokens
    promptTokensDetails := none }

/-- What `json.Unmarshal` makes of a chunk. -/
def relayedChunk (content finishReason : String) (usage : Option Usage) : OpenAIStreamChunk :=
  { choices := [{ delta := { content := content, toolCalls := [] }, finishReason := finishReason }]
    usage := usage.map relayedUsage }

/-- What it makes of the last value: an error has no choices. -/
def endingChunks : Ending → List OpenAIStreamChunk
  | .ok resp => [relayedChunk "" (completionFinishReason resp.finishReason) resp.usage]
  | .error _ => [{ choices := [], usage := none }]
  | .panic => []

def relayedChunks (s : Streamed) : List OpenAIStreamChunk :=
  (passedOn s).map (fun content => relayedChunk content "" none) ++ endingChunks s.ending

/-- `json.Unmarshal` undoes `json.Marshal` on the values of a stream. -/
def Understands (json : Unmarshal) (stamp : Stamp) (model : String) (s : Streamed) : Prop :=
  List.Forall₂ (fun value chunk => json.chunk (String.ofList value.marshal) = some chunk)
    (streamValues stamp model s) (relayedChunks s)

/-- The body as the reader's scanner cuts it, with the error of a body
that breaks off. -/
def relayedBody (stamp : Stamp) (model : String) (s : Streamed) (networkError : String) : Body where
  lines := (splitLines (streamText stamp model s)).1.map String.ofList
  failure := if s.ending.broken then some networkError else none

theorem relayed_lines (stamp : Stamp) (model : String) (s : Streamed) :
    (splitLines (streamText stamp model s)).1.map String.ofList
      = dataLines (streamValues stamp model s)
        ++ if s.ending.broken then [] else ["data: [DONE]", ""] := by
  have hback : ∀ texts : List String, (texts.map String.toList).map String.ofList = texts := by
    intro texts
    rw [List.map_map]
    exact (List.map_congr_left fun text _ => String.ofList_toList).trans (List.map_id' texts)
  unfold streamText
  rw [splitLines_frames, List.map_append, hback]
  cases s.ending.broken with
  | true => rfl
  | false => exact congrArg _ (by decide)

theorem streamValues_obj (stamp : Stamp) (model : String) (s : Streamed) :
    ∀ value ∈ streamValues stamp model s, ∃ fields, value = .obj fields := by
  intro value hmem
  rcases List.mem_append.mp hmem with hmem | hmem
  · obtain ⟨content, _, rfl⟩ := List.mem_map.mp hmem
    exact ⟨_, rfl⟩
  · cases hending : s.ending with
    | ok resp =>
      rw [hending] at hmem
      exact ⟨_, List.mem_singleton.mp hmem⟩
    | error err =>
      rw [hending] at hmem
      exact ⟨_, List.mem_singleton.mp hmem⟩
    | panic =>
      rw [hending] at hmem
      cases hmem

/-! ## The reader's state -/

/-- The state after some texts. -/
def afterTexts (contents : List String) : StreamState :=
  { StreamState.start with
    content := String.join contents
    emitted := contents.map fun content => { content := content, done := false } }

theorem foldl_add_texts {contents : List String} (hne : ∀ content ∈ contents, content ≠ "") :
    (contents.map fun content => relayedChunk content "" none).foldl StreamState.add .start
      = afterTexts contents := by
  have hall : ∀ before : List String,
      (contents.map fun content => relayedChunk content "" none).foldl StreamState.add (afterTexts before)
        = afterTexts (before ++ contents) := by
    induction contents with
    | nil => simp
    | cons content contents ih =>
      intro before
      have hstep : (afterTexts before).add (relayedChunk content "" none) = afterTexts (before ++ [content]) := by
        have hcontent := hne content List.mem_cons_self
        simp [afterTexts, relayedChunk, StreamState.add, StreamState.choose, hcontent, String.join_append,
          StreamState.start]
      rw [List.map_cons, List.foldl_cons, hstep, ih (fun c hc => hne c (List.mem_cons_of_mem _ hc)),
        List.append_assoc]
      rfl
  exact hall []

/-- What a reader of the endpoint ends with. -/
def relayedEnding (name networkError : String) (contents : List String) : Ending → Ending
  | .ok resp =>
    .ok
      { content := String.join contents
        toolCalls := []
        finishReason := completionFinishReason resp.finishReason
        usage := resp.usage.map fun u => (relayedUsage u).toUsage }
  | .error _ =>
    .ok { content := String.join contents, toolCalls := [], finishReason := "stop", usage := none }
  | .panic => .error (.other (name ++ ": stream read error: " ++ networkError))

theorem passedOn_afterTexts {contents : List String} (hne : ∀ content ∈ contents, content ≠ "")
    (more : List StreamChunk) (hmore : ∀ chunk ∈ more, chunk.content = "") (ending : Ending) :
    passedOn { emitted := (afterTexts contents).emitted ++ more, ending := ending } = contents := by
  have hkept : contents.filter (fun x => decide (x ≠ "")) = contents :=
    List.filter_eq_self.mpr fun content hmem => decide_eq_true (hne content hmem)
  have hdropped : (more.map StreamChunk.content).filter (fun x => decide (x ≠ "")) = [] := by
    rw [List.filter_eq_nil_iff]
    intro content hmem
    obtain ⟨chunk, hchunk, rfl⟩ := List.mem_map.mp hmem
    simp [hmore chunk hchunk]
  have hmap : (afterTexts contents).emitted.map StreamChunk.content = contents := by
    rw [afterTexts, List.map_map]
    exact List.map_id' contents
  unfold passedOn
  rw [List.map_append, List.filter_append, hmap, hkept, hdropped, List.append_nil]

theorem completionFinishReason_ne (reason : String) : completionFinishReason reason ≠ "" := by
  unfold completionFinishReason
  split
  · decide
  · assumption

/-- The end of a stream adds no text and no tool call. -/
theorem foldl_add_ending (contents : List String) (e : Ending) :
    let st := (endingChunks e).foldl StreamState.add (afterTexts contents)
    st.emitted = (afterTexts contents).emitted ∧ st.content = String.join contents
      ∧ st.accumulators = ∅
      ∧ ∀ resp, e = .ok resp → st.finishReason = completionFinishReason resp.finishReason
        ∧ st.usage = resp.usage.map fun u => (relayedUsage u).toUsage := by
  cases e with
  | ok resp =>
    have hne := completionFinishReason_ne resp.finishReason
    cases husage : resp.usage with
    | none =>
      simp [endingChunks, relayedChunk, StreamState.add, StreamState.choose, afterTexts,
        StreamState.start, hne, husage]
    | some u =>
      simp [endingChunks, relayedChunk, StreamState.add, StreamState.choose, afterTexts,
        StreamState.start, hne, husage]
  | error err => simp [endingChunks, StreamState.add, afterTexts, StreamState.start]
  | panic => simp [endingChunks, afterTexts, StreamState.start]

theorem scanBody_relayed {json : Unmarshal} {stamp : Stamp} {model : String}
    {s : Streamed} (hjson : Understands json stamp model s)
    (hfits : ∀ value ∈ streamValues stamp model s, Fits (dataLine value)) (networkError : String) :
    scanBody json (relayedBody stamp model s networkError).lines .start
      = ((endingChunks s.ending).foldl StreamState.add (afterTexts (passedOn s)),
        if s.ending.broken then .exhausted else .finished) := by
  have hne : ∀ content ∈ passedOn s, content ≠ "" :=
    fun content hmem => of_decide_eq_true (List.mem_filter.mp hmem).2
  have hlines : ∀ line ∈ dataLines (streamValues stamp model s), Fits line := by
    intro line hmem
    obtain ⟨value, hvalue, hline⟩ := List.mem_flatMap.mp hmem
    rcases List.mem_cons.mp hline with rfl | hline
    · exact hfits value hvalue
    · rw [List.mem_singleton.mp hline]
      exact Nat.zero_lt_of_lt (by decide : 0 < maxScanTokenSize)
  have hcarry := carry_dataLines (streamValues_obj stamp model s) hjson
  show scanBody json ((splitLines (streamText stamp model s)).1.map String.ofList) .start = _
  rw [relayed_lines, scanBody_carry hcarry _ _ hlines, relayedChunks, List.foldl_append,
    foldl_add_texts hne]
  cases s.ending.broken with
  | true => rfl
  | false => exact scanBody_done (.inl (by decide)) (by unfold Fits; decide) _ _

theorem readStream_relayed {json : Unmarshal} (name : String) {stamp : Stamp} {model : String}
    {s : Streamed} (hjson : Understands json stamp model s)
    (hfits : ∀ value ∈ streamValues stamp model s, Fits (dataLine value)) (networkError : String) :
    let r := readStream json name (relayedBody stamp model s networkError)
    passedOn r = passedOn s ∧ r.ending = relayedEnding name networkError (passedOn s) s.ending := by
  have hne : ∀ content ∈ passedOn s, content ≠ "" :=
    fun content hmem => of_decide_eq_true (List.mem_filter.mp hmem).2
  obtain ⟨hemitted, hcontent, haccs, hok⟩ := foldl_add_ending (passedOn s) s.ending
  dsimp only
  unfold readStream
  rw [scanBody_relayed hjson hfits]
  dsimp only
  have hnone : readBack json (∅ : Accumulators) (∅ : Accumulators).entries.length 0 = some [] := rfl
  cases hending : s.ending with
  | ok resp =>
    rw [hending] at hemitted hcontent haccs hok
    obtain ⟨hfinish, husage⟩ := hok resp rfl
    simp only [Ending.broken, Bool.false_eq_true, if_false]
    rw [haccs, hnone, hemitted, hcontent, hfinish, husage]
    exact ⟨passedOn_afterTexts hne _ (by simp) _, rfl⟩
  | error err =>
    rw [hending] at hemitted hcontent haccs
    simp only [Ending.broken, Bool.false_eq_true, if_false]
    rw [haccs, hnone, hemitted, hcontent]
    exact ⟨passedOn_afterTexts hne _ (by simp) _, rfl⟩
  | panic =>
    rw [hending] at hemitted
    simp only [Ending.broken, if_true, relayedBody, hending]
    rw [hemitted]
    refine ⟨?_, rfl⟩
    have h := passedOn_afterTexts hne [] (by simp) (.error (.other (name ++ ": stream read error: " ++ networkError)))
    rwa [List.append_nil] at h

/-! ## One process behind another -/

/-- What a provider reads of another process's endpoint. -/
structure Relayed (name networkError : String) (s r : Streamed) : Prop where
  /-- The texts arrive, once and in order. -/
  texts : passedOn r = passedOn s
  /-- A whole answer arrives with its finish reason and token counts; its
  tool calls do not. -/
  whole : ∀ resp, s.ending = .ok resp → r.ending = .ok
    { content := resp.content
      toolCalls := []
      finishReason := completionFinishReason resp.finishReason
      usage := resp.usage.map fun u => (relayedUsage u).toUsage }
  /-- A failure arrives as an answer that ends where the failure was. -/
  failed : ∀ err, s.ending = .error err → r.ending = .ok
    { content := String.join (passedOn s), toolCalls := [], finishReason := "stop", usage := none }
  broken : s.ending = .panic →
    r.ending = .error (.other (name ++ ": stream read error: " ++ networkError))

/-- `json.Unmarshal` on the texts of some values. -/
def chunkAmong (pairs : List (Lib.Json × OpenAIStreamChunk)) (text : String) : Option OpenAIStreamChunk :=
  (pairs.find? fun pair => String.ofList pair.1.marshal = text).map Prod.snd

theorem chunkAmong_marshal {pairs : List (Lib.Json × OpenAIStreamChunk)}
    (h : (pairs.map fun pair => String.ofList pair.1.marshal).Nodup) :
    ∀ pair ∈ pairs, chunkAmong pairs (String.ofList pair.1.marshal) = some pair.2 := by
  induction pairs with
  | nil => simp
  | cons first pairs ih =>
    intro pair hmem
    rw [List.map_cons, List.nodup_cons] at h
    rw [chunkAmong, List.find?_cons]
    rcases List.mem_cons.mp hmem with rfl | hmem
    · simp
    · have hne : String.ofList first.1.marshal ≠ String.ofList pair.1.marshal :=
        fun heq => h.1 (List.mem_map.mpr ⟨pair, hmem, heq.symm⟩)
      rw [decide_eq_false hne]
      exact ih h.2 pair hmem

theorem understands_chunkAmong {json : Unmarshal} {stamp : Stamp} {model : String} {s : Streamed}
    {pairs : List (Lib.Json × OpenAIStreamChunk)} (hjson : json.chunk = chunkAmong pairs)
    (hvalues : streamValues stamp model s = pairs.map Prod.fst)
    (hchunks : relayedChunks s = pairs.map Prod.snd)
    (h : (pairs.map fun pair => String.ofList pair.1.marshal).Nodup) : Understands json stamp model s := by
  unfold Understands
  rw [hvalues, hchunks, List.forall₂_map_left_iff, List.forall₂_map_right_iff, List.forall₂_same, hjson]
  exact chunkAmong_marshal h

/-- A stream that is cut after its first text. -/
def cutShort : OpenAIProvider :=
  { busyOnce with stream := fun _ _ => .ok { lines := ["data: a"], failure := some "connection reset" } }

/-- The values that its endpoint writes, and what they decode to. -/
def cutShortPairs : List (Lib.Json × OpenAIStreamChunk) :=
  [(chunkJson skillStamp "gpt" "# Loan" none none, relayedChunk "# Loan" "" none),
    (streamErrorJson "openai: stream read error: connection reset", { choices := [], usage := none })]

def cutShortUnmarshal : Unmarshal where
  chunk := chunkAmong cutShortPairs
  arguments text := ⟨text⟩
  done_invalid := by decide +kernel

theorem cutShort_chatStream : cutShort.chatStream skillModelRequest
    = { emitted := [{ content := "# Loan", done := false }]
        ending := .error (.other "openai: stream read error: connection reset") } := by
  decide +kernel

theorem cutShort_values : streamValues skillStamp skillModelRequest.model (cutShort.chatStream skillModelRequest)
    = cutShortPairs.map Prod.fst := by
  rw [cutShort_chatStream]
  rfl

theorem cutShort_understood :
    Understands cutShortUnmarshal skillStamp skillModelRequest.model (cutShort.chatStream skillModelRequest) := by
  have hjson : cutShortUnmarshal.chunk = chunkAmong cutShortPairs := by simp only [cutShortUnmarshal]
  refine understands_chunkAmong hjson cutShort_values ?_ (by decide +kernel)
  rw [cutShort_chatStream]
  rfl

theorem cutShort_fits : ∀ value ∈ streamValues skillStamp skillModelRequest.model
    (cutShort.chatStream skillModelRequest), Fits (dataLine value) := by
  rw [cutShort_values]
  intro value hmem
  have hfits : (cutShortPairs.map fun pair => dataLine pair.1).all
      (fun line => line.utf8ByteSize < maxScanTokenSize) = true := by decide +kernel
  obtain ⟨pair, hpair, rfl⟩ := List.mem_map.mp hmem
  exact of_decide_eq_true (p := (dataLine pair.1).utf8ByteSize < maxScanTokenSize)
    (List.all_eq_true.mp hfits _ (List.mem_map_of_mem hpair))

end LendingClaw.Http
