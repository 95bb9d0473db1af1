/-
LendingClaw.Providers.OpenAITheorems — when the stream and the whole
response of one completion decode alike.

A `Splitting` is a completion cut into chunks in any way the wire format
allows, on the lines of an event stream. The fold over its chunks is
followed index by index: what the decoder has of an index depends on the
deltas of that index alone. `stream_agrees_iff` says what more it takes:
indices that count from 0, ids in the first delta of their index, a
finish reason, and lines that fit the scanner's buffer.
-/
import LendingClaw.Providers.OpenAI
import Mathlib.Data.List.Forall2
import Mathlib.Data.List.Sort

namespace LendingClaw.Providers

/-! ## Splittings -/

/-- A completion: the message of the one choice, and the usage. -/
structure Completion where
  content : String
  toolCalls : List OpenAIToolCall
  finishReason : String
  usage : Option OpenAIUsage

/-- The response that is not streamed. -/
def Completion.response (m : Completion) : OpenAIResponse :=
  { choices :=
      [{ message := { content := m.content, toolCalls := m.toolCalls }
         finishReason := m.finishReason }]
    usage := m.usage }

/-- All deltas of tool calls, in the order of the stream. -/
def deltas (choices : List OpenAIStreamChoice) : List OpenAIStreamToolCall :=
  choices.flatMap fun c => c.delta.toolCalls

/-- The deltas of one index. -/
def ofIndex (i : Int) (ds : List OpenAIStreamToolCall) : List OpenAIStreamToolCall :=
  ds.filter (fun d => d.index = i)

/-- A field that is left out or given whole, and given at least once. -/
def GivenOnce (field : OpenAIStreamToolCall → String) (value : String)
    (ds : List OpenAIStreamToolCall) : Prop :=
  (∀ d ∈ ds, field d = "" ∨ field d = value) ∧ ∃ d ∈ ds, field d = value

/-- The deltas of an index make up a call: its id and its name in some of
them, its arguments in pieces. -/
structure Pieces (call : OpenAIToolCall) (ds : List OpenAIStreamToolCall) : Prop where
  id : GivenOnce OpenAIStreamToolCall.id call.id ds
  name : GivenOnce (fun d => d.function.name) call.function.name ds
  arguments : String.join (ds.map fun d => d.function.arguments) = call.function.arguments

/-- A line that is the event of a text: the space is optional. -/
def IsData (line text : String) : Prop :=
  dropCR line = "data: " ++ text
    ∨ (dropCR line = "data:" ++ text ∧ text.toList.head? ≠ some ' ')

/-- Lines of events, with blank lines, comments and other fields between
them. -/
inductive Carry (json : Unmarshal) : List String → List OpenAIStreamChunk → Prop where
  | nil : Carry json [] []
  | skip (line : String) {lines : List String} {chunks : List OpenAIStreamChunk}
      (hline : Lib.hasPrefix (dropCR line) "data:" = false) (h : Carry json lines chunks) :
      Carry json (line :: lines) chunks
  | data {line : String} (text : String) {chunk : OpenAIStreamChunk} {lines : List String}
      {chunks : List OpenAIStreamChunk} (hline : IsData line text)
      (hchunk : json.chunk text = some chunk) (h : Carry json lines chunks) :
      Carry json (line :: lines) (chunk :: chunks)

/-- The usage comes in a last chunk without choices. -/
def usageChunk (usage : Option OpenAIUsage) : List OpenAIStreamChunk :=
  (usage.map fun u => { choices := [], usage := some u }).toList

def bodyChunk (choice : OpenAIStreamChoice) : OpenAIStreamChunk :=
  { choices := [choice], usage := none }

/-- A completion in chunks, on the lines of a body. -/
structure Splitting (json : Unmarshal) (m : Completion) where
  choices : List OpenAIStreamChoice
  indices : List Int
  increasing : indices.Pairwise (· < ·)
  content : String.join (choices.map fun c => c.delta.content) = m.content
  finish : ∀ c ∈ choices, c.finishReason = "" ∨ c.finishReason = m.finishReason
  finished : m.finishReason ≠ "" → ∃ c ∈ choices, c.finishReason = m.finishReason
  calls : List.Forall₂ (fun i call => Pieces call (ofIndex i (deltas choices))) indices
    m.toolCalls
  covered : ∀ d ∈ deltas choices, d.index ∈ indices
  lines : List String
  carried : Carry json lines (choices.map bodyChunk ++ usageChunk m.usage)
  doneLine : String
  done : IsData doneLine "[DONE]"
  after : List String

def Splitting.body {json : Unmarshal} {m : Completion} (s : Splitting json m) : List String :=
  s.lines ++ s.doneLine :: s.after

/-- The stream decodes to what the whole response decodes to, and the
chunks handed out make up the content. -/
def StreamAgrees (json : Unmarshal) (name : String) (m : Completion) (body : List String) : Prop :=
  ∃ emitted, chatStream json name body = .ok (parseResponse json m.response) emitted
    ∧ String.join (emitted.map StreamChunk.content) = m.content

/-! ## Accumulators, index by index -/

/-- What a list of deltas leaves of an accumulator. -/
def gather (acc : Option ToolCallAccumulator) (ds : List OpenAIStreamToolCall) :
    Option ToolCallAccumulator :=
  ds.foldl (fun acc d => some (accumulate acc d)) acc

/-- The accumulator of an index depends on the deltas of that index. -/
theorem lookup_addDeltas (ds : List OpenAIStreamToolCall) (accs : Accumulators) (i : Int) :
    (ds.foldl addDelta accs).lookup i = gather (accs.lookup i) (ofIndex i ds) := by
  induction ds generalizing accs with
  | nil => rfl
  | cons d ds ih =>
    rw [List.foldl_cons, ih]
    by_cases hd : d.index = i
    · subst hd
      simp [ofIndex, gather, addDelta]
    · have hne : i ≠ d.index := fun h => hd h.symm
      simp [ofIndex, gather, addDelta, hd, AList.lookup_insert_ne hne]

theorem gather_isSome {acc : Option ToolCallAccumulator} {ds : List OpenAIStreamToolCall} :
    (gather acc ds).isSome ↔ acc.isSome ∨ ds ≠ [] := by
  induction ds generalizing acc with
  | nil => simp [gather]
  | cons d ds ih =>
    have hcons : gather acc (d :: ds) = gather (some (accumulate acc d)) ds := rfl
    rw [hcons, ih]
    simp

/-- An open accumulator keeps its id, and appends the argument texts. -/
theorem gather_some (ds : List OpenAIStreamToolCall) (acc : ToolCallAccumulator) :
    ∃ acc', gather (some acc) ds = some acc' ∧ acc'.id = acc.id
      ∧ acc'.rawArgs = acc.rawArgs ++ String.join (ds.map fun d => d.function.arguments) := by
  induction ds generalizing acc with
  | nil => exact ⟨acc, rfl, rfl, by simp [String.join]⟩
  | cons d ds ih =>
    obtain ⟨acc', hacc', hid, hargs⟩ := ih (accumulate (some acc) d)
    refine ⟨acc', hacc', hid, ?_⟩
    rw [hargs]
    simp [accumulate, ToolCallAccumulator.add, String.append_assoc]

/-- The name is the one that was given, from the delta on that gives it. -/
theorem gather_name {n : String} (ds : List OpenAIStreamToolCall) (acc : ToolCallAccumulator)
    (hds : ∀ d ∈ ds, d.function.name = "" ∨ d.function.name = n)
    (hacc : acc.name = Lib.trimSpace n ∨ ∃ d ∈ ds, d.function.name = n ∧ n ≠ "") :
    ∀ acc', gather (some acc) ds = some acc' → acc'.name = Lib.trimSpace n := by
  induction ds generalizing acc with
  | nil =>
    intro acc' h
    cases h
    rcases hacc with hacc | ⟨d, hd, -⟩
    · exact hacc
    · cases hd
  | cons d ds ih =>
    have hrest : ∀ d ∈ ds, d.function.name = "" ∨ d.function.name = n :=
      fun d' hd' => hds d' (List.mem_cons_of_mem d hd')
    apply ih (accumulate (some acc) d) hrest
    by_cases hd : d.function.name = ""
    · have hname : (accumulate (some acc) d).name = acc.name := by
        simp [accumulate, ToolCallAccumulator.add, hd]
      rw [hname]
      rcases hacc with hacc | ⟨d', hd', hn, hne⟩
      · exact Or.inl hacc
      · cases hd' with
        | head => exact absurd (hn.symm.trans hd) hne
        | tail _ hd' => exact Or.inr ⟨d', hd', hn, hne⟩
    · left
      have hn := (hds d List.mem_cons_self).resolve_left hd
      simp [accumulate, ToolCallAccumulator.add, hd, ← hn]

/-- The accumulator of a call: its name and arguments, and the id of the
first delta. -/
theorem gather_pieces {call : OpenAIToolCall} {d : OpenAIStreamToolCall}
    {ds : List OpenAIStreamToolCall} (h : Pieces call (d :: ds)) :
    gather none (d :: ds)
      = some
          { id := d.id
            name := Lib.trimSpace call.function.name
            rawArgs := call.function.arguments } := by
  have hcons : gather none (d :: ds) = gather (some (accumulate none d)) ds := rfl
  obtain ⟨acc, hacc, hid, hargs⟩ := gather_some ds (accumulate none d)
  have hfirst : (accumulate none d).name = Lib.trimSpace d.function.name := by
    simp [accumulate, newAccumulator, ToolCallAccumulator.add]
  have hname : acc.name = Lib.trimSpace call.function.name := by
    apply gather_name ds (accumulate none d) _ _ acc hacc
    · exact fun d' hd' => h.name.1 d' (List.mem_cons_of_mem d hd')
    · obtain ⟨d', hd', hn⟩ := h.name.2
      have hd : d.function.name = "" ∨ d.function.name = call.function.name :=
        h.name.1 d List.mem_cons_self
      by_cases hempty : call.function.name = ""
      · left
        rw [hempty, or_self] at hd
        rw [hfirst, hd, hempty]
      · cases hd' with
        | head =>
          left
          have hgiven : d.function.name = call.function.name := hn
          rw [hfirst, hgiven]
        | tail _ hd' => exact Or.inr ⟨d', hd', hn, hempty⟩
  have hjoin : acc.rawArgs = call.function.arguments := by
    rw [hargs, ← h.arguments]
    simp [accumulate, newAccumulator, ToolCallAccumulator.add]
  rw [hcons, hacc]
  cases acc
  cases hname
  cases hjoin
  cases hid
  rfl

/-! ## The fold over the chunks -/

theorem choose_foldl (choices : List OpenAIStreamChoice) (st : StreamState) :
    let st' := choices.foldl StreamState.choose st
    st'.content = st.content ++ String.join (choices.map fun c => c.delta.content)
      ∧ st'.usage = st.usage
      ∧ st'.accumulators = (deltas choices).foldl addDelta st.accumulators
      ∧ String.join (st'.emitted.map StreamChunk.content)
        = String.join (st.emitted.map StreamChunk.content)
          ++ String.join (choices.map fun c => c.delta.content) := by
  induction choices generalizing st with
  | nil => simp [deltas, String.join]
  | cons c choices ih =>
    obtain ⟨hcontent, husage, haccs, hemitted⟩ := ih (st.choose c)
    simp only [List.foldl_cons]
    refine ⟨?_, husage, ?_, ?_⟩
    · rw [hcontent]
      simp [StreamState.choose, String.append_assoc]
    · rw [haccs]
      simp [StreamState.choose, deltas]
    · rw [hemitted]
      by_cases hc : c.delta.content = ""
      · simp [StreamState.choose, hc]
      · simp [StreamState.choose, hc, String.append_assoc]

/-- The finish reason is the one that was given, or that of before. -/
theorem choose_foldl_finish {r : String} (choices : List OpenAIStreamChoice) (st : StreamState)
    (h : ∀ c ∈ choices, c.finishReason = "" ∨ c.finishReason = r) :
    (choices.foldl StreamState.choose st).finishReason
      = if r ≠ "" ∧ ∃ c ∈ choices, c.finishReason = r then r else st.finishReason := by
  induction choices generalizing st with
  | nil => simp
  | cons c choices ih =>
    rw [List.foldl_cons, ih _ (fun c' hc' => h c' (List.mem_cons_of_mem c hc'))]
    by_cases hc : c.finishReason = ""
    · by_cases hr : r = ""
      · simp [StreamState.choose, hc, hr]
      · simp [StreamState.choose, hc, hr]
    · have hr := (h c List.mem_cons_self).resolve_left hc
      have hne : r ≠ "" := fun heq => hc (hr.trans heq)
      simp [StreamState.choose, hr, hne]

/-- The body of a splitting, chunk by chunk. -/
theorem add_foldl_body (choices : List OpenAIStreamChoice) (st : StreamState) :
    (choices.map bodyChunk).foldl StreamState.add st = choices.foldl StreamState.choose st := by
  rw [List.foldl_map]
  rfl

/-! ## The scanner -/

theorem IsData.decode {line text : String} (h : IsData line text) :
    Lib.hasPrefix (dropCR line) "data:" = true
      ∧ Lib.trimPrefix (Lib.trimPrefix (dropCR line) "data:") " " = text := by
  rcases h with h | ⟨h, hspace⟩
  · have hsplit : "data: " ++ text = "data:" ++ (" " ++ text) := by
      rw [← String.append_assoc]
      rfl
    rw [h, hsplit, Lib.trimPrefix_append, Lib.trimPrefix_append]
    exact ⟨Lib.hasPrefix_append _ _, rfl⟩
  · rw [h, Lib.trimPrefix_append]
    refine ⟨Lib.hasPrefix_append _ _, ?_⟩
    have hno : Lib.hasPrefix text " " = false := by
      rw [Lib.hasPrefix]
      cases ht : text.toList with
      | nil => rfl
      | cons c cs =>
        rw [ht] at hspace
        have hc : c ≠ ' ' := fun hc => hspace (by rw [hc]; rfl)
        have hspaced : (' ' == c) = false := by simpa using fun h : ' ' = c => hc h.symm
        show (' ' == c && [].isPrefixOf cs) = false
        rw [hspaced]
        rfl
    rw [Lib.trimPrefix, hno]
    rfl

/-- The line leaves room in the scanner's buffer. -/
def Fits (line : String) : Prop := line.utf8ByteSize < maxScanTokenSize

section
variable {json : Unmarshal} {lines : List String} {chunks : List OpenAIStreamChunk}

theorem ne_done {text : String} {chunk : OpenAIStreamChunk} (h : json.chunk text = some chunk) :
    text ≠ "[DONE]" := by
  rintro rfl
  rw [json.done_invalid] at h
  cases h

theorem scanLines_unfit {line : String} (h : ¬ Fits line) (name : String) (rest : List String)
    (st : StreamState) : ∃ err, scanLines json name (line :: rest) st = .error err := by
  rw [scanLines, if_pos (Nat.not_lt.mp h)]
  exact ⟨_, rfl⟩

theorem scanLines_skip {line : String} (hfit : Fits line)
    (hline : Lib.hasPrefix (dropCR line) "data:" = false) (name : String) (rest : List String)
    (st : StreamState) :
    scanLines json name (line :: rest) st = scanLines json name rest st := by
  rw [scanLines, if_neg (Nat.not_le.mpr hfit), hline]
  rfl

theorem scanLines_data {line text : String} {chunk : OpenAIStreamChunk} (hfit : Fits line)
    (hline : IsData line text) (hchunk : json.chunk text = some chunk) (name : String)
    (rest : List String) (st : StreamState) :
    scanLines json name (line :: rest) st = scanLines json name rest (st.add chunk) := by
  obtain ⟨hpre, htext⟩ := hline.decode
  rw [scanLines, if_neg (Nat.not_le.mpr hfit), hpre]
  simp only [htext, hchunk, if_neg (ne_done hchunk)]
  rfl

theorem scanLines_done {line : String} (hline : IsData line "[DONE]") (hfit : Fits line)
    (name : String) (rest : List String) (st : StreamState) :
    scanLines json name (line :: rest) st = .ok st := by
  obtain ⟨hpre, htext⟩ := hline.decode
  rw [scanLines, if_neg (Nat.not_le.mpr hfit), hpre]
  simp [htext]

theorem scanLines_carry (h : Carry json lines chunks) (name : String) (rest : List String)
    (st : StreamState) (hfits : ∀ line ∈ lines, Fits line) :
    scanLines json name (lines ++ rest) st
      = scanLines json name rest (chunks.foldl StreamState.add st) := by
  induction h generalizing st with
  | nil => rfl
  | skip line hline h ih =>
    rw [List.cons_append, scanLines_skip (hfits line List.mem_cons_self) hline]
    exact ih st (fun l hl => hfits l (List.mem_cons_of_mem _ hl))
  | data text hline hchunk h ih =>
    rw [List.cons_append, scanLines_data (hfits _ List.mem_cons_self) hline hchunk]
    exact ih _ (fun l hl => hfits l (List.mem_cons_of_mem _ hl))

theorem scanLines_long (h : Carry json lines chunks) (name : String) (rest : List String)
    (st : StreamState) (hlong : ∃ line ∈ lines, ¬ Fits line) :
    ∃ err, scanLines json name (lines ++ rest) st = .error err := by
  induction h generalizing st with
  | nil =>
    obtain ⟨line, hline, -⟩ := hlong
    cases hline
  | skip line hline h ih =>
    rw [List.cons_append]
    by_cases hfit : Fits line
    · rw [scanLines_skip hfit hline]
      exact ih st (by simpa [hfit] using hlong)
    · exact scanLines_unfit hfit name _ st
  | data text hline hchunk h ih =>
    rename_i line chunk lines chunks
    rw [List.cons_append]
    by_cases hfit : Fits line
    · rw [scanLines_data hfit hline hchunk]
      exact ih _ (by simpa [hfit] using hlong)
    · exact scanLines_unfit hfit name _ st

end

namespace Splitting

section
variable {json : Unmarshal} {m : Completion} (s : Splitting json m)

/-- What the loop is left with after `[DONE]`. -/
def final : StreamState :=
  (s.choices.map bodyChunk ++ usageChunk m.usage).foldl StreamState.add .start

/-- Every line up to `[DONE]` leaves room in the buffer. -/
def LinesFit : Prop := (∀ line ∈ s.lines, Fits line) ∧ Fits s.doneLine

theorem scan_body (name : String) (h : s.LinesFit) :
    scanLines json name s.body .start = .ok s.final := by
  rw [body, scanLines_carry s.carried name _ _ h.1]
  exact scanLines_done s.done h.2 name _ _

theorem scan_body_long (name : String) (h : ¬ s.LinesFit) :
    ∃ err, scanLines json name s.body .start = .error err := by
  by_cases hlines : ∀ line ∈ s.lines, Fits line
  · have hdone : ¬ Fits s.doneLine := fun hd => h ⟨hlines, hd⟩
    rw [body, scanLines_carry s.carried name _ _ hlines]
    exact scanLines_unfit hdone name _ _
  · have hlong : ∃ line ∈ s.lines, ¬ Fits line := by
      by_contra hno
      apply hlines
      intro line hline
      by_contra hfit
      exact hno ⟨line, hline, hfit⟩
    exact scanLines_long s.carried name _ _ hlong

theorem final_eq : s.final.content = m.content
    ∧ s.final.usage = m.usage.map OpenAIUsage.toUsage
    ∧ s.final.accumulators = (deltas s.choices).foldl addDelta ∅
    ∧ String.join (s.final.emitted.map StreamChunk.content) = m.content
    ∧ s.final.finishReason = if m.finishReason = "" then "stop" else m.finishReason := by
  obtain ⟨hcontent, husage, haccs, hemitted⟩ := choose_foldl s.choices .start
  have hfinish := choose_foldl_finish s.choices .start s.finish
  have hreason : (s.choices.foldl StreamState.choose .start).finishReason
      = if m.finishReason = "" then "stop" else m.finishReason := by
    rw [hfinish]
    by_cases hr : m.finishReason = ""
    · simp [hr, StreamState.start]
    · simp [hr, s.finished hr]
  have hall : (s.choices.foldl StreamState.choose .start).content = m.content := by
    rw [hcontent, s.content]
    simp [StreamState.start]
  have hout : String.join ((s.choices.foldl StreamState.choose .start).emitted.map
      StreamChunk.content) = m.content := by
    rw [hemitted, s.content]
    simp [StreamState.start, String.join]
  simp only [final, List.foldl_append, add_foldl_body]
  cases m.usage with
  | none => exact ⟨hall, husage, haccs, hout, hreason⟩
  | some u => exact ⟨hall, rfl, haccs, hout, hreason⟩

/-- The accumulator of an index, of all the deltas. -/
theorem final_lookup (i : Int) :
    s.final.accumulators.lookup i = gather none (ofIndex i (deltas s.choices)) := by
  rw [s.final_eq.2.2.1, lookup_addDeltas, AList.lookup_empty]

end

end Splitting

/-! ## Reading the accumulators back -/

/-- `n` numbers, counting up. -/
def numbered : (n i : Nat) → List Int
  | 0, _ => []
  | n + 1, i => (i : Int) :: numbered n (i + 1)

theorem length_numbered (n i : Nat) : (numbered n i).length = n := by
  induction n generalizing i with
  | zero => rfl
  | succ n ih => rw [numbered, List.length_cons, ih]

theorem le_of_mem_numbered {n i : Nat} {j : Int} (h : j ∈ numbered n i) : (i : Int) ≤ j := by
  induction n generalizing i with
  | zero => cases h
  | succ n ih =>
    cases h with
    | head => omega
    | tail _ h =>
      have := ih h
      omega

theorem numbered_increasing (n i : Nat) : (numbered n i).Pairwise (· < ·) := by
  induction n generalizing i with
  | zero => exact List.Pairwise.nil
  | succ n ih =>
    refine List.Pairwise.cons ?_ (ih (i + 1))
    intro j hj
    have := le_of_mem_numbered hj
    omega

/-- Indices that cover a count of the same length are that count. -/
theorem eq_numbered {indices : List Int} (hinc : indices.Pairwise (· < ·))
    (hsub : numbered indices.length 0 ⊆ indices) : indices = numbered indices.length 0 := by
  have hnum := numbered_increasing indices.length 0
  have hnodup : (numbered indices.length 0).Nodup := hnum.imp fun h => Int.ne_of_lt h
  have hperm : (numbered indices.length 0).Perm indices :=
    (List.subperm_of_subset hnodup hsub).perm_of_length_le (by rw [length_numbered])
  refine (hperm.eq_of_pairwise ?_ hnum hinc).symm
  intro a b _ _ hab hba
  omega

theorem exists_of_forall₂ {α β : Type} {R : α → β → Prop} {xs : List α} {ys : List β}
    (h : List.Forall₂ R xs ys) {x : α} (hx : x ∈ xs) : ∃ y, R x y := by
  induction h with
  | nil => cases hx
  | cons hab h ih =>
    cases hx with
    | head => exact ⟨_, hab⟩
    | tail _ hx => exact ih hx

/-- The id of the delta that opens an index. -/
def firstId (ds : List OpenAIStreamToolCall) : String :=
  match ds with
  | [] => ""
  | d :: _ => d.id

/-- A call as the stream decodes it, from the deltas of its index. -/
def OpenAIToolCall.streamed (json : Unmarshal) (ds : List OpenAIStreamToolCall)
    (call : OpenAIToolCall) : ToolCall :=
  { call.parse json with id := firstId ds }

section
variable {json : Unmarshal} {accs : Accumulators} {ds : List OpenAIStreamToolCall}

theorem readBack_numbered {calls : List OpenAIToolCall} {n i : Nat}
    (haccs : ∀ j, accs.lookup j = gather none (ofIndex j ds))
    (hcalls : List.Forall₂ (fun j call => Pieces call (ofIndex j ds)) (numbered n i) calls) :
    readBack json accs n i
      = some (List.zipWith (fun j => OpenAIToolCall.streamed json (ofIndex j ds)) (numbered n i)
          calls) := by
  induction n generalizing i calls with
  | zero =>
    cases hcalls
    rfl
  | succ n ih =>
    cases hcalls with
    | cons hcall hcalls =>
      rename_i call calls
      obtain ⟨d, hd, -⟩ := hcall.id.2
      cases hds : ofIndex (i : Int) ds with
      | nil =>
        rw [hds] at hd
        cases hd
      | cons d rest =>
        rw [hds] at hcall
        have hlookup := haccs (i : Int)
        rw [hds, gather_pieces hcall] at hlookup
        rw [readBack, hlookup, numbered, List.zipWith_cons_cons, hds]
        simp only [ih hcalls, Option.map_some]
        rfl

/-- Every number that is read back has an accumulator. -/
theorem isSome_of_readBack {n i : Nat} {calls : List ToolCall}
    (h : readBack json accs n i = some calls) :
    ∀ j ∈ numbered n i, (accs.lookup j).isSome := by
  induction n generalizing i calls with
  | zero =>
    intro j hj
    cases hj
  | succ n ih =>
    rw [readBack] at h
    cases hlookup : accs.lookup (i : Int) with
    | none =>
      rw [hlookup] at h
      cases h
    | some acc =>
      rw [hlookup] at h
      obtain ⟨rest, hrest, -⟩ := Option.map_eq_some_iff.mp h
      intro j hj
      cases hj with
      | head => rw [hlookup]; rfl
      | tail _ hj => exact ih hrest j hj

end

/-- The calls are decoded alike when their ids come first. -/
theorem streamed_eq_parse (json : Unmarshal) (ds : List OpenAIStreamToolCall)
    {indices : List Int} {calls : List OpenAIToolCall} (hlen : indices.length = calls.length) :
    List.zipWith (fun j => OpenAIToolCall.streamed json (ofIndex j ds)) indices calls
        = calls.map (OpenAIToolCall.parse json)
      ↔ List.Forall₂ (fun j call => firstId (ofIndex j ds) = call.id) indices calls := by
  induction indices generalizing calls with
  | nil =>
    cases calls with
    | nil => simp
    | cons call calls => cases hlen
  | cons j indices ih =>
    cases calls with
    | nil => cases hlen
    | cons call calls =>
      have hrest := ih (Nat.succ.inj hlen)
      rw [List.zipWith_cons_cons, List.map_cons, List.cons.injEq, hrest,
        List.forall₂_cons]
      simp [OpenAIToolCall.streamed, OpenAIToolCall.parse]

namespace Splitting

section
variable {json : Unmarshal} {m : Completion} (s : Splitting json m)

theorem lookup_isSome (i : Int) : (s.final.accumulators.lookup i).isSome ↔ i ∈ s.indices := by
  rw [s.final_lookup, gather_isSome]
  constructor
  · intro h
    obtain ⟨d, hd⟩ := List.exists_mem_of_ne_nil _ (h.resolve_left (by simp))
    obtain ⟨hd, hi⟩ := List.mem_filter.mp hd
    have hindex : d.index = i := by simpa using hi
    exact hindex ▸ s.covered d hd
  · intro hi
    right
    obtain ⟨call, hcall⟩ := exists_of_forall₂ s.calls hi
    obtain ⟨d, hd, -⟩ := hcall.id.2
    exact List.ne_nil_of_mem hd

/-- There are as many accumulators as indices. -/
theorem length_accumulators : s.final.accumulators.entries.length = s.indices.length := by
  have hperm : s.final.accumulators.keys.Perm s.indices := by
    rw [List.perm_ext_iff_of_nodup s.final.accumulators.keys_nodup
      (s.increasing.imp fun h => Int.ne_of_lt h)]
    intro i
    rw [← s.lookup_isSome i, AList.lookup_isSome]
    rfl
  rw [← hperm.length_eq]
  simp [AList.keys, List.keys]

/-- The indices count from 0. -/
def CountsUp : Prop := s.indices = numbered s.indices.length 0

/-- Every id is in the delta that opens its index. -/
def IdsFirst : Prop :=
  List.Forall₂ (fun i call => firstId (ofIndex i (deltas s.choices)) = call.id) s.indices
    m.toolCalls

/-- What the decoder needs of a splitting. -/
structure Regular : Prop where
  linesFit : s.LinesFit
  countsUp : s.CountsUp
  idsFirst : s.IdsFirst
  finish : m.finishReason ≠ "" ∨ m.toolCalls ≠ []

/-- The loop that reads back ends, on what the stream has of each call,
when the indices count from 0. -/
theorem readBack_final (h : s.CountsUp) :
    readBack json s.final.accumulators s.final.accumulators.entries.length 0
      = some (List.zipWith
          (fun i => OpenAIToolCall.streamed json (ofIndex i (deltas s.choices))) s.indices
          m.toolCalls) := by
  have hcalls := s.calls
  rw [h] at hcalls
  rw [s.length_accumulators, readBack_numbered s.final_lookup hcalls, ← h]

/-- Otherwise it meets an index without an accumulator. -/
theorem countsUp_of_readBack {calls : List ToolCall}
    (h : readBack json s.final.accumulators s.final.accumulators.entries.length 0 = some calls) :
    s.CountsUp := by
  rw [s.length_accumulators] at h
  apply eq_numbered s.increasing
  intro i hi
  exact (s.lookup_isSome i).mp (isSome_of_readBack h i hi)

/-- A stream that ends well. -/
theorem of_ok {name : String} {resp : ChatResponse} {emitted : List StreamChunk}
    (h : chatStream json name s.body = .ok resp emitted) : s.LinesFit ∧ s.CountsUp := by
  have hfit : s.LinesFit := by
    by_contra hlong
    obtain ⟨err, herr⟩ := s.scan_body_long name hlong
    rw [chatStream, herr] at h
    cases h
  refine ⟨hfit, ?_⟩
  rw [chatStream, s.scan_body name hfit] at h
  cases hback : readBack json s.final.accumulators s.final.accumulators.entries.length 0 with
  | none =>
    simp only [hback] at h
    cases h
  | some calls => exact s.countsUp_of_readBack hback

theorem length_indices : s.indices.length = m.toolCalls.length := s.calls.length_eq

/-- The whole outcome, of lines that fit and indices that count up. -/
theorem chatStream_body (name : String) (hfit : s.LinesFit) (hcount : s.CountsUp) :
    chatStream json name s.body
      = .ok
          { content := m.content
            toolCalls := List.zipWith
              (fun i => OpenAIToolCall.streamed json (ofIndex i (deltas s.choices))) s.indices
              m.toolCalls
            finishReason :=
              if m.toolCalls ≠ [] then "tool_calls"
              else if m.finishReason = "" then "stop" else m.finishReason
            usage := m.usage.map OpenAIUsage.toUsage }
          (s.final.emitted ++ [{ content := "", done := true }]) := by
  obtain ⟨hcontent, husage, -, -, hfinish⟩ := s.final_eq
  have hlen := s.length_indices
  rw [chatStream, s.scan_body name hfit]
  simp only [s.readBack_final hcount, hcontent, husage, hfinish]
  cases hcalls : m.toolCalls with
  | nil => simp
  | cons call calls =>
    cases hindices : s.indices with
    | nil =>
      rw [hcalls, hindices] at hlen
      cases hlen
    | cons i indices => simp

end

end Splitting

/-! ## The two decoders -/

/-- The stream decodes to the whole response exactly when its splitting
is regular. -/
theorem stream_agrees_iff (json : Unmarshal) (name : String) (m : Completion)
    (s : Splitting json m) : StreamAgrees json name m s.body ↔ s.Regular := by
  constructor
  · intro h
    obtain ⟨emitted, hok, -⟩ := h
    obtain ⟨hfit, hcount⟩ := s.of_ok hok
    rw [s.chatStream_body name hfit hcount, StreamOutcome.ok.injEq] at hok
    have hresp := hok.1
    simp only [parseResponse, Completion.response, ChatResponse.mk.injEq] at hresp
    obtain ⟨-, hcalls, hfinish, -⟩ := hresp
    refine ⟨hfit, hcount, (streamed_eq_parse json _ s.length_indices).mp hcalls, ?_⟩
    by_contra hno
    obtain ⟨hreason, hnil⟩ := not_or.mp hno
    rw [not_not] at hreason hnil
    simp [hreason, hnil] at hfinish
  · intro h
    have hreason : (if m.toolCalls ≠ [] then "tool_calls"
        else if m.finishReason = "" then "stop" else m.finishReason)
        = if m.toolCalls = [] then m.finishReason else "tool_calls" := by
      by_cases hnil : m.toolCalls = []
      · have hne : m.finishReason ≠ "" := h.finish.resolve_right fun hcalls => hcalls hnil
        simp [hnil, hne]
      · simp [hnil]
    refine ⟨s.final.emitted ++ [{ content := "", done := true }], ?_, ?_⟩
    · rw [s.chatStream_body name h.linesFit h.countsUp,
        (streamed_eq_parse json _ s.length_indices).mpr h.idsFirst, hreason]
      rfl
    · simp [s.final_eq.2.2.2.1]

/-- One call, under index 1. -/
def oneBased : OpenAIStreamChoice :=
  { delta :=
      { content := ""
        toolCalls :=
          [{ index := 1
             id := "c1"
             function := { name := "f", arguments := "\x7b\x7d" } }] }
    finishReason := "tool_calls" }

def oneBasedText : String :=
  "\x7b\x22choices\x22:["
    ++ "\x7b\x22delta\x22:\x7b\x22tool_calls\x22:["
    ++ "\x7b\x22index\x22:1,\x22id\x22:\x22c1\x22,"
    ++ "\x22function\x22:\x7b\x22name\x22:\x22f\x22,"
    ++ "\x22arguments\x22:\x22\x7b\x7d\x22\x7d\x7d]\x7d,"
    ++ "\x22finish_reason\x22:\x22tool_calls\x22\x7d]\x7d"

/-- `json.Unmarshal` of that chunk, and of its empty argument object. -/
def oneBasedJson : Unmarshal :=
  { chunk := fun text => if text = oneBasedText then some (bodyChunk oneBased) else none
    arguments := fun _ => { json := "\x7b\x7d" }
    done_invalid := by decide +kernel }

def oneBasedCompletion : Completion :=
  { content := ""
    toolCalls := [{ id := "c1", function := { name := "f", arguments := "\x7b\x7d" } }]
    finishReason := "tool_calls"
    usage := none }

def oneBasedSplitting : Splitting oneBasedJson oneBasedCompletion :=
  { choices := [oneBased]
    indices := [1]
    increasing := List.pairwise_singleton _ _
    content := by decide
    finish := by decide
    finished := fun _ => ⟨oneBased, by decide, rfl⟩
    calls := by
      refine List.Forall₂.cons ?_ List.Forall₂.nil
      exact
        { id := ⟨by decide, by decide⟩
          name := ⟨by decide, by decide⟩
          arguments := by decide }
    covered := by decide
    lines := ["data: " ++ oneBasedText, ""]
    carried := Carry.data oneBasedText (Or.inl (by decide +kernel)) (by simp [oneBasedJson])
      (Carry.skip "" (by decide) Carry.nil)
    doneLine := "data: [DONE]"
    done := Or.inl (by decide)
    after := [] }

/-- The loop that reads back starts at 0. -/
theorem oneBased_panics : ¬ ∀ (json : Unmarshal) (name : String) (m : Completion)
    (s : Splitting json m), StreamAgrees json name m s.body := by
  intro h
  obtain ⟨emitted, hok, -⟩ := h oneBasedJson "openai" oneBasedCompletion oneBasedSplitting
  obtain ⟨-, hcount⟩ := oneBasedSplitting.of_ok hok
  have hzero : ([1] : List Int) = [0] := hcount
  cases hzero

end LendingClaw.Providers
