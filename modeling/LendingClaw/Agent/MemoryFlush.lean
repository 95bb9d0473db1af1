/-
LendingClaw.Agent.MemoryFlush — memory flushes and compactions of one
session (`internal/agent/memoryflush.go`, `Loop.maybeSummarize` in
`internal/agent/loop.go`).

`maybeSummarize` runs the pre-compaction flush and then leaves the
summary to the goroutine of `Agent.Summarize`, which holds the
per-session lock until it is done. Around it, in any order, come the
store calls of the runs, the periodic captures and restarts of the
process. A flush turn talks to the provider and to the tools; to the
session it is one `GetHistory`. The events record what happened.
-/
import LendingClaw.Agent.Summarize
import LendingClaw.Store.SessionsTheorems

namespace LendingClaw.Agent

open LendingClaw.Providers LendingClaw.Store

/-- `SessionMetaKeyLastPeriodicFlushTurn`. -/
def sessionMetaKeyLastPeriodicFlushTurn : String := "last_periodic_flush_turn"

/-- What `NewLoop` sets. `threshold` is the share of the context window,
both of them positive. -/
structure LoopConfig where
  hasMemory : Bool
  memoryCaptureEveryTurns : Int
  threshold : Nat

inductive FlushEvent where
  | flushed (preCompaction : Bool)
  | truncated
  | restarted
  deriving DecidableEq

/-- The store, where the goroutine is (at `done` the per-session lock is
free), how many captures have been started and have not run, and what
has happened, oldest first. -/
structure Compacting where
  store : MySQLSessionStore
  pc : Pc
  captures : Nat
  events : List FlushEvent

/-- No run deletes the session or writes its compaction counters. -/
def KeepsCounters : MySQLSessionStore.Op → Prop
  | .delete .. | .incrementCompaction .. | .setMemoryFlushAt .. => False
  | _ => True

/-- A call of the store that a run or a request makes for the session. -/
structure RunCall (w : WorkspaceID) (key : String) where
  op : MySQLSessionStore.Op
  target : op.target = (w, key)
  keepsCounters : KeepsCounters op

inductive FlushAct (w : WorkspaceID) (key : String) where
  | call (c : RunCall w key)
  | maybeSummarize (query flushQuery : Fault)
  | summarizer (env : Answers)
  | maybePeriodicMemoryCapture (query : Fault)
  | capture (query : Fault)
  | restart

namespace Compacting

section
variable (cfg : LoopConfig) (sanitize : String → String) (w : WorkspaceID) (key : String)

/-- `doMemoryFlush`, as the session sees it. -/
def doMemoryFlush (sys : Compacting) (preCompaction : Bool) (query : Fault) : Compacting :=
  { sys with
    store := (sys.store.getHistory w key query).1
    events := sys.events ++ [.flushed preCompaction] }

/-- `memoryFlush`. -/
def memoryFlush (sys : Compacting) (query : Fault) : Compacting :=
  if !cfg.hasMemory then sys
  else
    let compactionCount := sys.store.getCompactionCount w key
    let lastFlushAt := sys.store.getMemoryFlushAt w key
    -- already flushed in this compaction cycle
    if lastFlushAt ≥ compactionCount then sys
    else
      let sys := sys.doMemoryFlush w key true query
      { sys with store := sys.store.setMemoryFlushAt w key compactionCount }

/-- `maybeSummarize`, up to the goroutine it starts. -/
def maybeSummarize (sys : Compacting) (query flushQuery : Fault) : Compacting :=
  let (store, history) := sys.store.getHistory w key query
  let (lastTokens, lastCount) := store.getLastPromptTokens w key
  let sys := { sys with store := store }
  if history.length ≤ 50
      ∧ estimateTokensWithCalibration history lastTokens lastCount ≤ cfg.threshold then sys
  else if sys.pc ≠ .done then sys
  else { sys.memoryFlush cfg w key flushQuery with pc := .getHistory }

/-- The number of user turns. -/
def userTurns (history : List Message) : Nat :=
  (history.filter (fun m => m.role = .user)).length

/-- `maybePeriodicMemoryCapture`: the flush turn runs in the background. -/
def maybePeriodicMemoryCapture (sys : Compacting) (query : Fault) : Compacting :=
  if !cfg.hasMemory || cfg.memoryCaptureEveryTurns ≤ 0 then sys
  else
    let (store, history) := sys.store.getHistory w key query
    let turns := userTurns history
    let sys := { sys with store := store }
    if turns = 0 ∨ (turns : Int) % cfg.memoryCaptureEveryTurns ≠ 0 then sys
    else
      let marker := toString turns
      if store.getSessionMetaValue w key sessionMetaKeyLastPeriodicFlushTurn = marker then sys
      else
        { sys with
          store := store.setSessionMetaValue w key sessionMetaKeyLastPeriodicFlushTurn marker
          captures := sys.captures + 1 }

/-- The next step of the goroutine. -/
def summarizer (sys : Compacting) (env : Answers) : Compacting :=
  let (store, pc) := advance sanitize w key env sys.store sys.pc
  { sys with
    store := store
    pc := pc
    events :=
      match sys.pc with
      | .truncateHistory _ => sys.events ++ [.truncated]
      | _ => sys.events }

/-- A process starts with an empty cache, and with no goroutine. -/
def restart (sys : Compacting) : Compacting :=
  { store := newMySQLSessionStore sys.store.db
    pc := .done
    captures := 0
    events := sys.events ++ [.restarted] }

def step (sys : Compacting) : FlushAct w key → Compacting
  | .call c => { sys with store := sys.store.step c.op }
  | .maybeSummarize query flushQuery => sys.maybeSummarize cfg w key query flushQuery
  | .summarizer env => sys.summarizer sanitize w key env
  | .maybePeriodicMemoryCapture query => sys.maybePeriodicMemoryCapture cfg w key query
  | .capture query =>
    if sys.captures = 0 then sys
    else { sys.doMemoryFlush w key false query with captures := sys.captures - 1 }
  | .restart => sys.restart

end

end Compacting

end LendingClaw.Agent
