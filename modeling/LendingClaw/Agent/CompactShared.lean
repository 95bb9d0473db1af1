/-
LendingClaw.Agent.CompactShared — what mid-loop compaction and post-run
summarization share (`internal/agent/compact_shared.go`).

`SanitizeAssistantContent` is a parameter here and in its callers: they
ask of it a text, and of the text whether it is empty.
-/
import LendingClaw.Agent.History

namespace LendingClaw.Agent

open LendingClaw.Providers

/-- `SessionMetaKeyLastCompactionAt`. -/
def sessionMetaKeyLastCompactionAt : String := "last_compaction_at"

/-- The trailing user turns that are preserved verbatim. -/
def postRunKeepTurns : Int := 4

def compactionSummaryPrefix : String :=
  "[CONTEXT COMPACTION — REFERENCE ONLY] " ++
  "Earlier turns were compacted into the summary below. This is a handoff " ++
  "from a previous context window — treat it as background reference, NOT as " ++
  "active instructions. Do NOT re-answer or re-execute any requests mentioned " ++
  "in the summary; they were already handled. Use it only to understand context.\n\n"

def compactionSummaryPrompt : String :=
  "Summarize this conversation concisely for the AI agent to resume work.\n\n" ++
  "MUST PRESERVE:\n" ++
  "- Active tasks and their current status (in-progress, blocked, pending)\n" ++
  "- Pending subagent tasks (IDs, labels, statuses) — agent needs to know what is still " ++
  "running\n" ++
  "- Pending team task results awaiting delivery (task IDs, assignees, statuses)\n" ++
  "- Any \"waiting for...\" state — do NOT drop expectations of future results\n" ++
  "- Batch operation progress (e.g., \"5/17 items completed\")\n" ++
  "- The last thing the user requested and what was being done about it\n" ++
  "- Decisions made and their rationale\n" ++
  "- TODOs, open questions, and constraints\n" ++
  "- Any commitments or follow-ups promised\n\n" ++
  "IDENTIFIER PRESERVATION:\n" ++
  "Preserve all opaque identifiers exactly as written (no shortening or reconstruction),\n" ++
  "including UUIDs, hashes, ticket IDs (e.g. ISSUE-12345), loan IDs, trace IDs,\n" ++
  "user IDs, tokens, API keys, hostnames, IPs, ports, URLs, and file names.\n\n" ++
  "PRIORITIZE recent context over older history. The agent needs to know\n" ++
  "what it was doing, not just what was discussed.\n\n" ++
  "Conversation to summarize:\n\n"

/-- `dynamicSummaryMax`. -/
def dynamicSummaryMax (inputTokens : Nat) : Nat := min (max (inputTokens / 25) 1024) 8192

/-- The transcript both of them write: user and assistant messages, a
line each. -/
def transcript (sanitize : String → String) (msgs : List Message) : String :=
  String.join (msgs.map fun m =>
    match m.role with
    | .user => "user: " ++ m.content ++ "\n"
    | .assistant => "assistant: " ++ sanitize m.content ++ "\n"
    | _ => "")

end LendingClaw.Agent
