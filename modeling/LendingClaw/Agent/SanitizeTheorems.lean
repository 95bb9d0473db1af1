/-
LendingClaw.Agent.SanitizeTheorems — what a run answers and saves, by the
text that the model gave (`SanitizeAssistantContent` and steps 4 and 5 of
`runLoop` in `internal/agent/loop.go`).

A text in which no stage finds a mark goes through unchanged
(`Unmarked.sanitizeChars`); of any other text the answer is a part, in
which no reasoning is left, or the three dots if nothing is left
(`run_sanitized`).
-/
import LendingClaw.Agent.Thoughts

namespace LendingClaw.Agent

open LendingClaw.Providers LendingClaw.Lib LendingClaw.Lib.Regex LendingClaw.Tools.Scrub

/-! ## Texts without marks -/

/-- A text in which no stage finds anything to do. -/
structure Unmarked (content : List Char) : Prop where
  trimmed : Trimmed content
  noTag : '<' ∉ content
  noBracket : '[' ∉ content
  noMedia : ¬ mediaMark <:+: content
  filled : ∀ block ∈ splitTwice '\n' content, trimChars block ≠ []
  distinct : ((splitTwice '\n' content).map trimChars).IsChain (· ≠ ·)

theorem containsOneOf_of_not_mem {words : List String} {content : List Char} {c : Char}
    (hwords : ∀ word ∈ words, c ∈ word.toList) (hc : c ∉ content) :
    containsOneOf words content = false := by
  rw [containsOneOf, List.any_eq_false]
  intro word hword hin
  exact hc ((of_decide_eq_true hin).subset (hwords word hword))

/-- Nothing is replaced where a character of every match is missing. -/
theorem replaceAll_of_not_mem_match {r : Regex Char} {new content : List Char} {c : Char}
    (hr : ∀ u ∈ r.language, c ∈ u) (hc : c ∉ content) : Regex.replaceAll r new content = content := by
  refine Regex.replaceAll_of_none fun t ht _ => ?_
  cases h : preferred r t with
  | none => rfl
  | some v =>
    obtain ⟨u, hu, rfl⟩ := of_preferred h
    exact absurd (ht.subset (List.mem_append_left v (hr u hu))) hc

theorem not_mem_lower {content : List Char} (h : '<' ∉ content) : '<' ∉ content.map lowerRune := by
  intro hmem
  obtain ⟨c, hc, hlower⟩ := List.mem_map.mp hmem
  exact h (lowerRune_eq_less hlower ▸ hc)

theorem eq_of_mem_lit {v : List Char} (h : v ∈ (lit "<").language) : v = ['<'] := by
  rw [lit, show "<".toList = ['<'] by decide, List.map_singleton, mem_word] at h
  cases h with
  | cons hc hrest =>
    cases hrest
    rw [eq_of_beq hc]

theorem less_mem_garbled {u : List Char} (hu : u ∈ garbledToolXMLPattern.language) : '<' ∈ u := by
  obtain ⟨v, hv, w, -, rfl⟩ := mem_language_seq.mp hu
  rw [eq_of_mem_lit hv]
  exact List.mem_cons_self

theorem less_mem_final {u : List Char} (hu : u ∈ finalTagPattern.language) : '<' ∈ u := by
  obtain ⟨v, hv, w, -, rfl⟩ := mem_language_seq.mp hu
  cases mem_word.mp hv with
  | cons hc _ => simp [folds_less hc]

section
variable {content : List Char}

theorem Unmarked.ne_nil (h : Unmarked content) : content ≠ [] := by
  rintro rfl
  exact h.filled [] (by simp [splitTwice]) (by decide)

theorem Unmarked.trim (h : Unmarked content) : trimChars content = content :=
  trimmed_iff.mp h.trimmed

theorem Unmarked.ungarbled (h : Unmarked content) : stripGarbledToolXML content = content := by
  unfold stripGarbledToolXML
  split
  · rw [replaceAll_of_not_mem_match (fun _ hu => less_mem_garbled hu) h.noTag, h.trim]
  · rfl

theorem Unmarked.undowngraded (h : Unmarked content) : stripDowngradedToolCallText content = content := by
  have hnone : containsOneOf downgradedMarks content = false :=
    containsOneOf_of_not_mem (by decide) h.noBracket
  exact stripDowngradedToolCallText_of_none hnone

theorem Unmarked.unthought (h : Unmarked content) : stripThinkingTags content = content := by
  have hnone : containsOneOf ["<think", "<thought", "<antthinking"] (content.map lowerRune) = false :=
    containsOneOf_of_not_mem (by decide) (not_mem_lower h.noTag)
  rw [stripThinkingTags, if_neg (by simp [hnone])]

theorem Unmarked.unfinal (h : Unmarked content) : stripFinalTags content = content := by
  unfold stripFinalTags
  split
  · exact replaceAll_of_not_mem_match (fun _ hu => less_mem_final hu) h.noTag
  · rfl

theorem Unmarked.unechoed (h : Unmarked content) : stripEchoedSystemMessages content = content := by
  have hnone : containsOneOf systemMessageMark content = false :=
    containsOneOf_of_not_mem (by decide) h.noBracket
  rw [stripEchoedSystemMessages, if_neg (by simp [hnone])]

/-- Blocks none of which is blank or repeats the one before are all kept. -/
theorem collapsed_eq {last : Option (List Char)} {blocks : List (List Char)}
    (hfilled : ∀ block ∈ blocks, trimChars block ≠ [])
    (hdistinct : (last.toList ++ blocks.map trimChars).IsChain (· ≠ ·)) :
    collapsed last blocks = blocks := by
  induction blocks generalizing last with
  | nil => rfl
  | cons block blocks ih =>
    have hblock := hfilled block List.mem_cons_self
    have hrest : collapsed (some (trimChars block)) blocks = blocks := by
      apply ih fun b hb => hfilled b (List.mem_cons_of_mem _ hb)
      cases last with
      | none => simpa using hdistinct
      | some last => exact (List.isChain_cons_cons.mp hdistinct).2
    have hlast : last ≠ some (trimChars block) := by
      rintro rfl
      simp at hdistinct
    simp [collapsed, hblock, hlast, hrest]

theorem Unmarked.collapsed (h : Unmarked content) :
    collapseConsecutiveDuplicateBlocks content = content := by
  unfold collapseConsecutiveDuplicateBlocks
  split
  · rfl
  · rw [collapsed_eq h.filled (by simpa using h.distinct), intercalate_splitTwice]

theorem Unmarked.unmedia (h : Unmarked content) : stripMediaPaths content = content := by
  rw [stripMediaPaths, if_neg h.noMedia]

theorem leadingBlankLines_within : leadingBlankLinesPattern.Within isSpace := by
  have hline : blankLine.Within isSpace := by
    refine ⟨fun c hc => ?_, ⟨⟨within_word ?_, trivial⟩, within_word ?_⟩⟩
    · simp at hc
      rcases hc with rfl | rfl <;> decide
    · simp [isSpace]
    · simp [isSpace]
  exact hline.atLeast 1

/-- Blank lines at the start of a text are blanks at its start. -/
theorem Unmarked.unled (h : Unmarked content) : stripLeadingBlankLines content = content := by
  unfold stripLeadingBlankLines
  cases hpre : preferred leadingBlankLinesPattern content with
  | none => rfl
  | some rest =>
    obtain ⟨u, hu, rfl⟩ := of_preferred hpre
    obtain ⟨c, u, rfl⟩ := List.exists_cons_of_ne_nil (ne_nil_of_mem (by decide) hu)
    have hblank := leadingBlankLines_within.of_mem hu c List.mem_cons_self
    rw [h.trimmed.head c rfl] at hblank
    cases hblank

/-- A text without marks is left as it is. -/
theorem Unmarked.sanitizeChars (h : Unmarked content) : sanitizeChars content = content := by
  unfold Agent.sanitizeChars
  rw [if_neg h.ne_nil, h.ungarbled]
  dsimp only
  rw [if_neg h.ne_nil, h.undowngraded, h.unthought, h.unfinal, h.unechoed, h.collapsed, h.unmedia,
    h.unled, h.trim]

example : Unmarked "Loan L-7 is open.\n\n1. Pay.".toList where
  trimmed := trimmed_iff.mpr (by decide +kernel)
  noTag := by decide
  noBracket := by decide
  noMedia := by decide +kernel
  filled := by decide +kernel
  distinct := by decide +kernel

example : sanitizeAssistantContent "<think>L-7?</think>Open.\nMEDIA:/tmp/l7.png\n\nPay.\n\nPay."
    = "Open.\n\nPay." := by
  decide +kernel

end

/-! ## The answer of a run -/

/-- The loop with the sanitizer of the source. -/
def AgentLoop.sanitizing (a : AgentLoop) : AgentLoop :=
  { a with sanitize := sanitizeAssistantContent }

/-- A reply of the run ended it with the text: a response without tool
calls, or a tool loop that is broken off with a message. -/
def EndedWith (a : AgentLoop) (env : Nat → Reply) (text : String) : Prop :=
  ∃ i < a.maxIterations, ∃ resp, (env i).turn.resp = .ok resp
    ∧ ((resp.toolCalls = [] ∧ text = resp.content)
      ∨ ∃ s, (a.execute s (env i).turn.forLLM resp.toolCalls).critical = some text)

/-- What the answer has of the text. -/
structure Cleaned (text answer : String) : Prop where
  part : (sanitizeChars text.toList = [] ∧ answer = "...") ∨ answer.toList.Sublist text.toList
  clear : ¬ mediaPath <:+: answer.toList
  trimmed : Trimmed answer.toList
  kept : Unmarked text.toList → answer = text
  /-- Nothing of the reasoning is answered. -/
  silent : ∀ pieces, Reasoned text.toList pieces → answer = "..." ∨ answer.toList.Sublist (said pieces)

theorem cleaned_of_toList {text answer : String} (h : answer.toList = sanitizeChars text.toList) :
    Cleaned text answer where
  part := by
    rw [h]
    exact .inr (sanitizeChars_sublist _)
  clear := by
    rw [h]
    exact sanitizeChars_clear _
  trimmed := by
    rw [h]
    exact sanitizeChars_trimmed _
  kept := fun hmarks => String.toList_inj.mp (h.trans hmarks.sanitizeChars)
  silent := by
    intro pieces hpieces
    rw [h]
    exact .inr hpieces.sanitizeChars_sublist

theorem cleaned_finalContent (a : AgentLoop) (text : String) :
    Cleaned text (a.sanitizing.finalContent text) := by
  have hfinal : a.sanitizing.finalContent text
      = trimSpace (if sanitizeAssistantContent text = "" then "..." else sanitizeAssistantContent text) :=
    rfl
  by_cases hnone : sanitizeChars text.toList = []
  · have hempty : sanitizeAssistantContent text = "" := by rw [sanitizeAssistantContent, hnone]
    have hdots : a.sanitizing.finalContent text = "..." := by
      rw [hfinal, if_pos hempty]
      decide
    rw [hdots]
    exact {
      part := .inl ⟨hnone, rfl⟩
      clear := by decide
      trimmed := trimmed_iff.mpr (by decide)
      kept := fun h => absurd (h.sanitizeChars ▸ hnone) h.ne_nil
      silent := fun _ _ => .inl rfl }
  · have hsome : sanitizeAssistantContent text ≠ "" := by
      intro h
      apply hnone
      have hlist := congrArg String.toList h
      rwa [sanitizeAssistantContent, String.toList_ofList] at hlist
    have hclean : (a.sanitizing.finalContent text).toList = sanitizeChars text.toList := by
      rw [hfinal, if_neg hsome, trimSpace, String.toList_ofList, sanitizeAssistantContent,
        String.toList_ofList, trimmed_iff.mp (sanitizeChars_trimmed _)]
    exact cleaned_of_toList hclean

section
variable (a : AgentLoop) (req : RunRequest) (args : Arguments → Lib.Json)

theorem Running.ended_start (r : RunInput) : (Running.start a req r).st.ended = none := rfl

/-- One iteration ends the run with a text only if its reply does. -/
theorem step_endedWith {env : Nat → Reply} {s : Running} {reply : Reply}
    (hs : ∀ text, s.st.ended = some (.ok text) → EndedWith a env text)
    (hreply : ∃ i < a.maxIterations, env i = reply) :
    ∀ text, (Running.step a req args s reply).st.ended = some (.ok text) → EndedWith a env text := by
  intro text htext
  cases hended : s.st.ended with
  | some result =>
    rw [Running.step, hended] at htext
    exact hs text (hended ▸ htext)
  | none =>
    have hstep : (Running.step a req args s reply).st = a.iterate s.st reply.turn := by
      rw [Running.step, hended]
    rw [hstep] at htext
    obtain ⟨i, hi, rfl⟩ := hreply
    cases hresp : (env i).turn.resp with
    | error err =>
      obtain ⟨message, hfailed⟩ := iterate_error (l := a.toLoop) hended hresp
      rw [hfailed] at htext
      cases htext
    | ok resp =>
      by_cases hcalls : resp.toolCalls = []
      · rw [iterate_ok hended hresp, Loop.act, if_pos hcalls] at htext
        cases htext
        exact ⟨i, hi, resp, hresp, .inl ⟨hcalls, rfl⟩⟩
      · rw [(iterate_calls hended hresp hcalls).2.2] at htext
        obtain ⟨message, hcritical, hmessage⟩ := Option.map_eq_some_iff.mp htext
        cases hmessage
        exact ⟨i, hi, resp, hresp, .inr ⟨s.st.loopDetector, hcritical⟩⟩

/-- A run ends with the text of one of its replies. -/
theorem run_endedWith (r : RunInput) (env : Nat → Reply) :
    ∀ text, (Lib.run (Running.step a req args) (Running.start a req r)
        (replies env a.maxIterations)).st.ended = some (.ok text) → EndedWith a env text := by
  have hstart : ∀ text, (Running.start a req r).st.ended = some (.ok text) → EndedWith a env text := by
    intro text htext
    rw [Running.ended_start] at htext
    cases htext
  have hreplies : ∀ reply ∈ replies env a.maxIterations, ∃ i < a.maxIterations, env i = reply := by
    intro reply hreply
    obtain ⟨i, hi, rfl⟩ := List.mem_map.mp hreply
    exact ⟨i, List.mem_range.mp hi, rfl⟩
  exact inv_run_of_forall (fun s : Running => ∀ text, s.st.ended = some (.ok text) → EndedWith a env text)
    (fun _ reply hs (hreply : ∃ i < a.maxIterations, env i = reply) =>
      step_endedWith a req args hs hreply) _ _ hstart hreplies

/-- The sanitizer has no part in how a run ends. -/
theorem endedWith_of_sanitizing {env : Nat → Reply} {text : String}
    (h : EndedWith a.sanitizing env text) : EndedWith a env text := by
  obtain ⟨i, hi, resp, hresp, hcalls | ⟨s, hs⟩⟩ := h
  · exact ⟨i, hi, resp, hresp, .inl hcalls⟩
  · rw [execute_eq] at hs
    refine ⟨i, hi, resp, hresp, .inr ⟨s, ?_⟩⟩
    rw [execute_eq]
    exact hs

/-- A loop that ends without an error, by a text or by its last iteration,
answers with the final content and saves it. -/
theorem answer_saved {s : Running} {text : String} (title : String)
    (h : s.st.ended = some (.ok text) ∨ s.st.ended = none ∧ text = "") :
    s.result a req title = .ok (Running.result.answer a req title s text)
      ∧ a.flushed s.st = some (s.st.pendingMsgs ++ [textMessage .assistant (a.finalContent text)]) := by
  rcases h with hended | ⟨hended, rfl⟩
  · exact ⟨by rw [Running.result, hended], by rw [Loop.flushed, hended]⟩
  · exact ⟨by rw [Running.result, hended], by rw [Loop.flushed, hended]⟩

end

end LendingClaw.Agent
