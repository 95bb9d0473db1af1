/-
LendingClaw.Agent.Sanitize — what the loop makes of the last text of a
run before it is saved and answered (`internal/agent/sanitize.go`).

The stages are applied one after the other, each with its own test of
whether there is anything to do. Lower case is only looked at for ASCII
words, so `lowerRune` says which characters have an ASCII letter as their
lower case. Every stage leaves pieces of the text out and puts nothing
in; the stage for media paths is followed by cuts at the ends only, so no
such path is left.
-/
import LendingClaw.Agent.Run
import LendingClaw.Lib.Pieces

namespace LendingClaw.Agent

open LendingClaw.Lib LendingClaw.Lib.Regex LendingClaw.Tools.Scrub

/-! ## Lower case -/

/-- `unicode.ToLower`, where it gives an ASCII letter. -/
def lowerRune (c : Char) : Char :=
  if c = '\u0130' then 'i' else if c = '\u212a' then 'k' else c.toLower

theorem toLower_eq_less {c : Char} (h : c.toLower = '<') : c = '<' := by
  unfold Char.toLower at h
  split at h
  · rename_i hupper
    exfalso
    have hval := congrArg (fun d : Char => d.val.toNat) h
    simp at hval
    have hge : 65 ≤ c.toNat := hupper.1
    have hle : c.toNat ≤ 90 := hupper.2
    omega
  · exact h

theorem lowerRune_eq_less {c : Char} (h : lowerRune c = '<') : c = '<' := by
  unfold lowerRune at h
  split at h
  · exact absurd h (by decide)
  · split at h
    · exact absurd h (by decide)
    · exact toLower_eq_less h

theorem folds_less {c : Char} (h : folds '<' c = true) : c = '<' := by
  have hcases : c = '<' ∨ c.toLower = '<' := by
    simpa [folds, show ('<' : Char).toLower = '<' by decide] using h
  rcases hcases with h | h
  · exact h
  · exact toLower_eq_less h

/-- One of the words occurs in the text. -/
def containsOneOf (words : List String) (content : List Char) : Bool :=
  words.any fun word => decide (word.toList <:+: content)

/-- The line starts with one of the words. -/
def startsWithOneOf (words : List String) (line : List Char) : Bool :=
  words.any fun word => word.toList.isPrefixOf line

/-! ## Tool calls in the text -/

def garbledToolXMLPattern : Regex Char :=
  seq (lit "<") (seq (opt (lit "/"))
    (seq (choice [seq (lit "function_call") (opt (lit "s")), lit "functioninvoke", lit "invoke",
      lit "invfunction_calls", lit "tool_call", lit "tool_use", lit "parameter"])
    (seq (star true (cls (· != '>'))) (lit ">"))))

def garbledToolXMLIndicators : List String :=
  ["invfunction_calls", "functioninvoke", "<parameter name=", "</parameter", "<function_call",
    "<tool_call", "<tool_use"]

def stripGarbledToolXML (content : List Char) : List Char :=
  if containsOneOf garbledToolXMLIndicators (content.map lowerRune) then
    trimChars (Regex.replaceAll garbledToolXMLPattern [] content)
  else content

def downgradedMarks : List String := ["[Tool Call:", "[Tool Result", "[Historical context:"]

/-- The loop over the lines. -/
def undowngraded (skipping : Bool) : List (List Char) → List (List Char)
  | [] => []
  | line :: lines =>
    let trimmed := trimChars line
    if startsWithOneOf downgradedMarks trimmed then undowngraded true lines
    else if skipping ∧ (trimmed = [] ∨ startsWithOneOf ["Arguments:", "\x7b", "\x7d"] trimmed) then
      undowngraded true lines
    else line :: undowngraded false lines

def stripDowngradedToolCallText (content : List Char) : List Char :=
  if containsOneOf downgradedMarks content then
    trimChars (['\n'].intercalate (undowngraded false (content.splitOn '\n')))
  else content

theorem stripDowngradedToolCallText_of_none {content : List Char}
    (h : containsOneOf downgradedMarks content = false) : stripDowngradedToolCallText content = content := by
  rw [stripDowngradedToolCallText, if_neg (by simp [h])]

/-! ## Tags -/

/-- `(?is)<name>.*?</name>`. -/
def thinkingTag (name : String) : Regex Char :=
  seq (litFold ("<" ++ name ++ ">"))
    (seq (star false (cls fun _ => true)) (litFold ("</" ++ name ++ ">")))

def thinkingTagPatterns : List (Regex Char) :=
  [thinkingTag "think", thinkingTag "thinking", thinkingTag "thought", thinkingTag "antThinking",
    thinkingTag "antthinking"]

def stripThinkingTags (content : List Char) : List Char :=
  if containsOneOf ["<think", "<thought", "<antthinking"] (content.map lowerRune) then
    trimChars (thinkingTagPatterns.foldl (fun result pat => Regex.replaceAll pat [] result) content)
  else content

def finalTagPattern : Regex Char :=
  seq (litFold "<") (seq blanks (seq (opt (litFold "/")) (seq blanks
    (seq (litFold "final") (seq blanks (litFold ">"))))))

def stripFinalTags (content : List Char) : List Char :=
  if containsOneOf ["final"] (content.map lowerRune) then Regex.replaceAll finalTagPattern [] content
  else content

/-! ## Echoes and repetitions -/

def systemMessageMark : List String := ["[System Message]"]

/-- The loop over the lines. -/
def unechoed (skipping : Bool) : List (List Char) → List (List Char)
  | [] => []
  | line :: lines =>
    if startsWithOneOf systemMessageMark (trimChars line) then unechoed true lines
    else if skipping then unechoed (trimChars line ≠ []) lines
    else line :: unechoed false lines

def stripEchoedSystemMessages (content : List Char) : List Char :=
  if containsOneOf systemMessageMark content then
    trimChars (['\n'].intercalate (unechoed false (content.splitOn '\n')))
  else content

/-- The loop over the blocks, with the last one kept, trimmed. -/
def collapsed (last : Option (List Char)) : List (List Char) → List (List Char)
  | [] => []
  | block :: blocks =>
    let trimmed := trimChars block
    if trimmed = [] then collapsed last blocks
    else if last = some trimmed then collapsed last blocks
    else block :: collapsed (some trimmed) blocks

def collapseConsecutiveDuplicateBlocks (content : List Char) : List Char :=
  if (splitTwice '\n' content).length ≤ 1 then content
  else ['\n', '\n'].intercalate (collapsed none (splitTwice '\n' content))

/-! ## Media paths and blank lines -/

def mediaMark : List Char := "MEDIA:".toList

def mediaPath : List Char := "MEDIA:/".toList

/-- The line is kept. -/
def withoutMedia (line : List Char) : Bool :=
  !startsWithOneOf ["[[audio_as_voice]]"] (trimChars line)
    && !decide (mediaPath <:+: trimChars line)

def stripMediaPaths (content : List Char) : List Char :=
  if mediaMark <:+: content then
    trimChars (['\n'].intercalate ((content.splitOn '\n').filter withoutMedia))
  else content

/-- `[ \t]*\r?\n`. -/
def blankLine : Regex Char :=
  seq (star true (cls fun c => c == ' ' || c == '\t')) (seq (opt (lit "\r")) (lit "\n"))

def leadingBlankLinesPattern : Regex Char := atLeast 1 blankLine

/-- The pattern is anchored at the start of the text. -/
def stripLeadingBlankLines (content : List Char) : List Char :=
  (preferred leadingBlankLinesPattern content).getD content

/-! ## The pipeline -/

def sanitizeChars (content : List Char) : List Char :=
  if content = [] then content
  else
    let ungarbled := stripGarbledToolXML content
    if ungarbled = [] then []
    else
      trimChars (stripLeadingBlankLines (stripMediaPaths (collapseConsecutiveDuplicateBlocks
        (stripEchoedSystemMessages (stripFinalTags (stripThinkingTags
          (stripDowngradedToolCallText ungarbled)))))))

def sanitizeAssistantContent (content : String) : String :=
  String.ofList (sanitizeChars content.toList)

/-! ## Nothing is put in -/

theorem stripGarbledToolXML_sublist (content : List Char) :
    (stripGarbledToolXML content).Sublist content := by
  unfold stripGarbledToolXML
  split
  · exact (trimChars_sublist _).trans (Regex.replaceAll_sublist _ _)
  · exact List.Sublist.refl _

/-- Some of the lines of a text, joined and trimmed. -/
theorem joinLines_sublist {content : List Char} {kept : List (List Char)}
    (h : kept.Sublist (content.splitOn '\n')) :
    (trimChars (['\n'].intercalate kept)).Sublist content := by
  have hjoin := intercalate_sublist ['\n'] h
  rw [List.intercalate_splitOn] at hjoin
  exact (trimChars_sublist _).trans hjoin

theorem undowngraded_sublist (skipping : Bool) (lines : List (List Char)) :
    (undowngraded skipping lines).Sublist lines := by
  induction lines generalizing skipping with
  | nil => exact List.Sublist.refl _
  | cons line lines ih =>
    simp only [undowngraded]
    split
    · exact (ih true).cons line
    · split
      · exact (ih true).cons line
      · exact (ih false).cons_cons line

theorem stripDowngradedToolCallText_sublist (content : List Char) :
    (stripDowngradedToolCallText content).Sublist content := by
  unfold stripDowngradedToolCallText
  split
  · exact joinLines_sublist (undowngraded_sublist false _)
  · exact List.Sublist.refl _

theorem foldl_replaceAll_sublist (pats : List (Regex Char)) (content : List Char) :
    (pats.foldl (fun result pat => Regex.replaceAll pat [] result) content).Sublist content := by
  induction pats generalizing content with
  | nil => exact List.Sublist.refl _
  | cons pat pats ih => exact (ih _).trans (Regex.replaceAll_sublist pat content)

theorem stripThinkingTags_sublist (content : List Char) :
    (stripThinkingTags content).Sublist content := by
  unfold stripThinkingTags
  split
  · exact (trimChars_sublist _).trans (foldl_replaceAll_sublist _ content)
  · exact List.Sublist.refl _

theorem stripFinalTags_sublist (content : List Char) :
    (stripFinalTags content).Sublist content := by
  unfold stripFinalTags
  split
  · exact Regex.replaceAll_sublist _ _
  · exact List.Sublist.refl _

theorem unechoed_sublist (skipping : Bool) (lines : List (List Char)) :
    (unechoed skipping lines).Sublist lines := by
  induction lines generalizing skipping with
  | nil => exact List.Sublist.refl _
  | cons line lines ih =>
    simp only [unechoed]
    split
    · exact (ih true).cons line
    · split
      · exact (ih _).cons line
      · exact (ih false).cons_cons line

theorem stripEchoedSystemMessages_sublist (content : List Char) :
    (stripEchoedSystemMessages content).Sublist content := by
  unfold stripEchoedSystemMessages
  split
  · exact joinLines_sublist (unechoed_sublist false _)
  · exact List.Sublist.refl _

theorem collapsed_sublist (last : Option (List Char)) (blocks : List (List Char)) :
    (collapsed last blocks).Sublist blocks := by
  induction blocks generalizing last with
  | nil => exact List.Sublist.refl _
  | cons block blocks ih =>
    simp only [collapsed]
    split
    · exact (ih last).cons block
    · split
      · exact (ih last).cons block
      · exact (ih _).cons_cons block

theorem collapseConsecutiveDuplicateBlocks_sublist (content : List Char) :
    (collapseConsecutiveDuplicateBlocks content).Sublist content := by
  unfold collapseConsecutiveDuplicateBlocks
  split
  · exact List.Sublist.refl _
  · have hjoin := intercalate_sublist ['\n', '\n'] (collapsed_sublist none (splitTwice '\n' content))
    rwa [intercalate_splitTwice] at hjoin

theorem stripMediaPaths_sublist (content : List Char) :
    (stripMediaPaths content).Sublist content := by
  unfold stripMediaPaths
  split
  · exact joinLines_sublist List.filter_sublist
  · exact List.Sublist.refl _

theorem stripLeadingBlankLines_suffix (content : List Char) :
    stripLeadingBlankLines content <:+ content := by
  unfold stripLeadingBlankLines
  cases h : preferred leadingBlankLinesPattern content with
  | none => exact List.suffix_rfl
  | some rest => exact preferred_suffix h

/-- The stages after the thinking tags. -/
theorem afterThinking_sublist (content : List Char) :
    (trimChars (stripLeadingBlankLines (stripMediaPaths (collapseConsecutiveDuplicateBlocks
      (stripEchoedSystemMessages (stripFinalTags content)))))).Sublist content :=
  (trimChars_sublist _).trans <| (stripLeadingBlankLines_suffix _).sublist.trans <|
    (stripMediaPaths_sublist _).trans <| (collapseConsecutiveDuplicateBlocks_sublist _).trans <|
    (stripEchoedSystemMessages_sublist _).trans <| stripFinalTags_sublist content

theorem sanitizeChars_sublist (content : List Char) : (sanitizeChars content).Sublist content := by
  unfold sanitizeChars
  split
  · exact List.Sublist.refl _
  · dsimp only
    split
    · exact List.nil_sublist _
    · exact (afterThinking_sublist _).trans <| (stripThinkingTags_sublist _).trans <|
        (stripDowngradedToolCallText_sublist _).trans <| stripGarbledToolXML_sublist content

/-! ## No media path is left -/

theorem mediaMark_within : mediaMark <:+: mediaPath := by decide

theorem mediaPath_ne_nil : mediaPath ≠ [] := by decide

theorem newline_not_mem_mediaPath : '\n' ∉ mediaPath := by decide

theorem mediaPath_trimmed : Trimmed mediaPath := trimmed_iff.mpr (by decide)

theorem stripMediaPaths_clear (content : List Char) : ¬ mediaPath <:+: stripMediaPaths content := by
  intro h
  unfold stripMediaPaths at h
  split at h
  · obtain ⟨line, hline, hin⟩ := infix_of_infix_intercalate newline_not_mem_mediaPath mediaPath_ne_nil
      (h.trans (trimChars_within _))
    have hkept := (List.mem_filter.mp hline).2
    have hclear : ¬ mediaPath <:+: trimChars line := by
      simp only [withoutMedia, Bool.and_eq_true, Bool.not_eq_true', decide_eq_false_iff_not] at hkept
      exact hkept.2
    exact hclear (infix_trimChars mediaPath_ne_nil mediaPath_trimmed hin)
  · exact absurd (mediaMark_within.trans h) ‹_›

theorem sanitizeChars_clear (content : List Char) : ¬ mediaPath <:+: sanitizeChars content := by
  intro h
  unfold sanitizeChars at h
  split at h
  · rename_i hnil
    rw [hnil] at h
    exact mediaPath_ne_nil (List.infix_nil.mp h)
  · dsimp only at h
    split at h
    · exact mediaPath_ne_nil (List.infix_nil.mp h)
    · exact stripMediaPaths_clear _ (h.trans ((trimChars_within _).trans
        (stripLeadingBlankLines_suffix _).isInfix))

theorem sanitizeChars_trimmed (content : List Char) : Trimmed (sanitizeChars content) := by
  unfold sanitizeChars
  split
  · rename_i hnil
    rw [hnil]
    exact trimmed_iff.mpr rfl
  · dsimp only
    split
    · exact trimmed_iff.mpr rfl
    · exact trimmed_trimChars _

end LendingClaw.Agent
