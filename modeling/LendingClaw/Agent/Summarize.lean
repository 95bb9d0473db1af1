/-
LendingClaw.Agent.Summarize — the background summarizer, interleaved
with the runs of its session (`Loop.maybeSummarize` in
`internal/agent/loop.go`).

The goroutine is a program counter: each step is one call of the session
store, or the return of the provider's call, and between two steps the
runs on the session may append. It starts with the session cached, as
the run that triggers it leaves it. The per-session lock makes it the
only one.
-/
import LendingClaw.Agent.CompactShared
import LendingClaw.Store.Sessions

namespace LendingClaw.Agent

open LendingClaw.Providers LendingClaw.Store

/-- What the goroutine does next, with the locals it still needs. -/
inductive Pc where
  | getHistory
  | getSummary (history : List Message) (splitIdx : Nat)
  | chat (history : List Message) (splitIdx : Nat) (request : ChatRequest)
  | setSummary (keepLast : Int) (cleaned : String)
  | truncateHistory (keepLast : Int)
  | incrementCompaction
  | setCompactedAt
  | save
  | done
  deriving DecidableEq

/-- What the environment answers to one step; a step looks at no more
than its own part. -/
structure Answers where
  query : Fault
  reply : Except String String
  now : String
  exec : Fault

/-- The request for a summary of `toSummarize`. -/
def summaryRequest (sanitize : String → String) (summary : String)
    (toSummarize : List Message) : ChatRequest :=
  { messages :=
      [textMessage .user
        (compactionSummaryPrompt
          ++ (if summary = "" then "" else "Existing context: " ++ summary ++ "\n\n")
          ++ transcript sanitize toSummarize)]
    maxTokens := dynamicSummaryMax (estimateTokens toSummarize) }

/-- One step of the goroutine. -/
def advance (sanitize : String → String) (w : WorkspaceID) (key : String) (env : Answers)
    (s : MySQLSessionStore) : Pc → MySQLSessionStore × Pc
  | .getHistory =>
    let (s, history) := s.getHistory w key env.query
    let splitIdx := historyTurnStartIndex history postRunKeepTurns
    (s, if splitIdx ≤ 0 then .done else .getSummary history splitIdx)
  | .getSummary history splitIdx =>
    (s, .chat history splitIdx
      (summaryRequest sanitize (s.getSummary w key) (history.take splitIdx)))
  | .chat history splitIdx _ =>
    match env.reply with
    | .error _ => (s, .done)
    | .ok content =>
      let cleaned := sanitize content
      (s, if cleaned = "" then .done
        else .setSummary ((history.length : Int) - splitIdx) cleaned)
  | .setSummary keepLast cleaned => (s.setSummary w key cleaned, .truncateHistory keepLast)
  | .truncateHistory keepLast => (s.truncateHistory w key keepLast, .incrementCompaction)
  | .incrementCompaction => (s.incrementCompaction w key, .setCompactedAt)
  | .setCompactedAt =>
    (s.setSessionMetaValue w key sessionMetaKeyLastCompactionAt env.now, .save)
  | .save => ((s.save w key env.exec).1, .done)
  | .done => (s, .done)

/-- The store, and where the goroutine is. -/
structure System where
  store : MySQLSessionStore
  pc : Pc

/-- One step of the system: a run appends to the session, or the
goroutine takes its next step. -/
inductive Act where
  | append (msg : Message) (query exec : Fault)
  | summarizer (env : Answers)

def step (sanitize : String → String) (w : WorkspaceID) (key : String) (sys : System) :
    Act → System
  | .append msg query exec => { sys with store := sys.store.addMessage w key msg query exec }
  | .summarizer env =>
    let (s, pc) := advance sanitize w key env sys.store sys.pc
    { store := s, pc := pc }

end LendingClaw.Agent
