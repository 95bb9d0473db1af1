/-
LendingClaw.Agent.Compact — mid-loop compaction
(`internal/agent/compact.go`).

The list is cut in front of a message that is neither a result nor a
call, so what is kept is paired if the list was (`compact_paired`). What
is cut off includes the first message, whatever it is
(`compact_head`).
-/
import LendingClaw.Agent.CompactShared
import LendingClaw.Agent.Pairing

namespace LendingClaw.Agent

open LendingClaw.Providers

/-- The walk back from `splitIdx` to a clean boundary. -/
def walkBack (messages : List Message) : (splitIdx : Nat) → Nat
  | 0 => 0
  | splitIdx + 1 =>
    if ∃ m ∈ messages[splitIdx + 1]?, m.role = .tool ∨ Calling m then
      walkBack messages splitIdx
    else splitIdx + 1

/-- Where `compactMessagesInPlace` cuts the list, if it does. -/
def compactSplit (messages : List Message) : Option Nat :=
  if messages.length < 6 then none
  else
    let keepCount := max 4 (messages.length * 3 / 10)
    let splitIdx := walkBack messages (messages.length - keepCount)
    if splitIdx ≤ 1 then none else some splitIdx

/-- The request for the summary of what is cut off. -/
def compactRequest (sanitize : String → String) (messages : List Message) (splitIdx : Nat) :
    ChatRequest :=
  { messages :=
      [textMessage .user
        (compactionSummaryPrompt ++ transcript sanitize (messages.take splitIdx))]
    maxTokens := dynamicSummaryMax (estimateTokens (messages.take splitIdx)) }

/-- `compactMessagesInPlace`, with what the provider answers, none being
an error. -/
def compactMessagesInPlace (sanitize : String → String) (messages : List Message)
    (reply : Option String) : Option (List Message) :=
  match compactSplit messages with
  | none => none
  | some splitIdx =>
    reply.map fun content =>
      textMessage .user (compactionSummaryPrefix ++ sanitize content) :: messages.drop splitIdx

/-- The boundary is clean, unless the walk gets to the start. -/
theorem walkBack_clean (messages : List Message) (splitIdx : Nat)
    (hpos : walkBack messages splitIdx ≠ 0) :
    ∀ m ∈ messages[walkBack messages splitIdx]?, m.role ≠ .tool ∧ ¬ Calling m := by
  induction splitIdx with
  | zero => exact absurd rfl hpos
  | succ splitIdx ih =>
    rw [walkBack] at hpos ⊢
    by_cases hin : ∃ m ∈ messages[splitIdx + 1]?, m.role = .tool ∨ Calling m
    · rw [if_pos hin] at hpos ⊢
      exact ih hpos
    · rw [if_neg hin]
      intro m hm
      exact ⟨fun htool => hin ⟨m, hm, Or.inl htool⟩, fun hc => hin ⟨m, hm, Or.inr hc⟩⟩

section
variable {sanitize : String → String} {messages : List Message} {reply : Option String}
  {compacted : List Message}

theorem compact_eq (h : compactMessagesInPlace sanitize messages reply = some compacted) :
    ∃ content splitIdx, compactSplit messages = some splitIdx ∧ reply = some content
      ∧ compacted = textMessage .user (compactionSummaryPrefix ++ sanitize content)
        :: messages.drop splitIdx := by
  rw [compactMessagesInPlace] at h
  cases hsplit : compactSplit messages with
  | none =>
    rw [hsplit] at h
    cases h
  | some splitIdx =>
    rw [hsplit] at h
    obtain ⟨content, hreply, heq⟩ := Option.map_eq_some_iff.mp h
    exact ⟨content, splitIdx, rfl, hreply, heq.symm⟩

theorem compactSplit_clean {splitIdx : Nat} (h : compactSplit messages = some splitIdx) :
    ∀ m ∈ messages[splitIdx]?, m.role ≠ .tool ∧ ¬ Calling m := by
  rw [compactSplit] at h
  by_cases hshort : messages.length < 6
  · rw [if_pos hshort] at h
    cases h
  · rw [if_neg hshort] at h
    dsimp only at h
    generalize hkeep : messages.length - max 4 (messages.length * 3 / 10) = keep at h
    by_cases hearly : walkBack messages keep ≤ 1
    · rw [if_pos hearly] at h
      cases h
    · rw [if_neg hearly] at h
      cases h
      exact walkBack_clean messages keep (by omega)

theorem compact_paired (hpaired : Paired messages)
    (h : compactMessagesInPlace sanitize messages reply = some compacted) : Paired compacted := by
  obtain ⟨content, splitIdx, hsplit, -, rfl⟩ := compact_eq h
  have hkept : Paired (messages.drop splitIdx) :=
    hpaired.drop fun m hm => (compactSplit_clean hsplit m hm).1
  exact (paired_textMessage (by decide) _).append hkept

/-- A compacted list begins with the summary. -/
theorem compact_head (h : compactMessagesInPlace sanitize messages reply = some compacted) :
    ∃ content, compacted.head? = some (textMessage .user content) := by
  obtain ⟨content, splitIdx, -, -, rfl⟩ := compact_eq h
  exact ⟨_, rfl⟩

end

end LendingClaw.Agent
