/-
LendingClaw.Agent.Capture — the period of the memory captures of a
session (`maybePeriodicMemoryCapture`, at the end of `runLoop`).

The runs of a session come one after the other: each flushes its
messages and then makes the check. Around their steps come the other
store calls of the runs, the summarizer of `Agent.Summarize` and the
flush turns. The log has one entry a completed run, the captures its
check has started.

The check counts the user messages of the history. A warning of the tool
loop counts as one, and a compaction takes turns away:
`captures_keep_period` has the condition under which the count still
tells the turns since the last capture.
-/
import LendingClaw.Agent.Flush
import LendingClaw.Agent.Loop
import LendingClaw.Agent.MemoryFlush
import LendingClaw.Lib.Windows

namespace LendingClaw.Agent

open LendingClaw.Providers LendingClaw.Store

/-! ## Completed runs -/

/-- A run that ends with an answer: the message it was asked, and what
it flushes after that. -/
structure CompletedRun (l : Loop) where
  input : RunInput
  env : Nat → Turn
  rest : List Message
  flushed : l.flushed (l.runLoop input env) = some (textMessage .user input.message :: rest)

def CompletedRun.question {l : Loop} (run : CompletedRun l) : Message :=
  textMessage .user run.input.message

/-- The pending messages begin with the question. -/
def Asked (r : RunInput) (st : LoopState) : Prop :=
  ∃ rest, st.pendingMsgs = textMessage .user r.message :: rest

theorem Asked.iterate {l : Loop} {r : RunInput} {st : LoopState} (h : Asked r st) (turn : Turn) :
    Asked r (l.iterate st turn) := by
  by_cases hended : st.ended = none
  · cases hresp : turn.resp with
    | error err =>
      obtain ⟨text, heq⟩ := iterate_error (l := l) hended hresp
      rw [heq]
      exact h
    | ok resp =>
      obtain ⟨rest, hrest⟩ := h
      by_cases hcalls : resp.toolCalls = []
      · rw [iterate_ok hended hresp, Loop.act, if_pos hcalls]
        refine ⟨rest, ?_⟩
        rw [← hrest]
        exact (compact_frame l st.send resp turn.compaction).1
      · refine ⟨rest ++ assistantMessage resp
            :: (l.execute st.loopDetector turn.forLLM resp.toolCalls).msgs, ?_⟩
        rw [(iterate_calls hended hresp hcalls).2.1, hrest]
        rfl
  · rw [iterate_ended hended]
    exact h

/-- Every run that flushes is a completed run. -/
theorem exists_completedRun {l : Loop} {r : RunInput} {env : Nat → Turn} {msgs : List Message}
    (h : l.flushed (l.runLoop r env) = some msgs) :
    ∃ run : CompletedRun l, run.input = r ∧ msgs = run.question :: run.rest := by
  have hstep : ∀ st turn, Asked r st → True → Asked r (l.iterate st turn) :=
    fun _ turn hst _ => hst.iterate turn
  have hasked : Asked r (l.runLoop r env) :=
    Lib.inv_run_of_forall (Asked r) hstep (turns env l.maxIterations) (l.start r) ⟨[], rfl⟩
      (fun _ _ => trivial)
  obtain ⟨rest, hrest⟩ := hasked
  rcases flushed_cases l (l.runLoop r env) with ⟨hnone, -⟩ | ⟨content, hsome⟩
  · rw [hnone] at h
    cases h
  · have hmsgs : msgs
        = textMessage .user r.message :: (rest ++ [textMessage .assistant content]) := by
      rw [hsome, hrest] at h
      simpa using h.symm
    exact ⟨{ input := r, env := env, rest := _, flushed := hmsgs ▸ h }, rfl, hmsgs⟩

/-- A run that is answered at once flushes the question and the answer. -/
theorem flushed_of_answer (l : Loop) (r : RunInput) {env : Nat → Turn} {resp : ChatResponse}
    (hresp : (env 0).resp = .ok resp) (hcalls : resp.toolCalls = []) :
    l.flushed (l.runLoop r env)
      = some [textMessage .user r.message,
          textMessage .assistant (l.finalContent resp.content)] := by
  obtain ⟨n, hn⟩ := Nat.exists_eq_succ_of_ne_zero (Nat.pos_iff_ne_zero.mp l.iterates)
  have hiter : l.iterate (l.start r) (env 0)
      = { l.compact (l.start r).send resp (env 0).compaction with
          ended := some (.ok resp.content) } := by
    rw [iterate_ok rfl hresp, Loop.act, if_pos hcalls]
  have hrun : l.runLoop r env = l.iterate (l.start r) (env 0) := by
    rw [Loop.runLoop, hn, turns_succ, Lib.run_cons, run_ended]
    rw [hiter]
    simp
  rw [hrun, hiter, Loop.flushed]
  simp only [(compact_frame l (l.start r).send resp (env 0).compaction).1]
  rfl

/-! ## The runs of a session -/

/-- What the run under way has still to flush. -/
inductive Phase (l : Loop) where
  | idle
  | begun (run : CompletedRun l)
  | flushing (pendingMsgs : List Message)

/-- The question of the run under way is in the session. -/
def Phase.asked {l : Loop} : Phase l → Prop
  | .flushing _ => True
  | _ => False

instance {l : Loop} (phase : Phase l) : Decidable phase.asked :=
  match phase with
  | .idle => isFalse id
  | .begun _ => isFalse id
  | .flushing _ => isTrue trivial

/-- No call that writes the messages of the session. -/
def KeepsMessages : MySQLSessionStore.Op → Prop
  | .addMessage .. | .setMessages .. | .truncateHistory .. | .reset .. | .delete .. => False
  | _ => True

/-- What goes on beside the flushes and the checks. -/
def GoesBeside {w : WorkspaceID} {key : String} : FlushAct w key → Prop
  | .call c => KeepsMessages c.op
  | .maybePeriodicMemoryCapture _ | .restart => False
  | _ => True

/-- The session, the run under way, and for each completed run how many
captures its check has started. -/
structure Capturing (l : Loop) where
  sys : Compacting
  phase : Phase l
  log : List Nat

inductive CaptureAct (l : Loop) (w : WorkspaceID) (key : String) where
  | begin (run : CompletedRun l)
  | flush (query exec : Fault)
  | endRun (query : Fault)
  | beside (act : FlushAct w key) (h : GoesBeside act)

namespace Capturing

section
variable (cfg : LoopConfig) (sanitize : String → String) {l : Loop} (w : WorkspaceID)
  (key : String)

def addMessage (t : Capturing l) (msg : Message) (query exec : Fault)
    (pendingMsgs : List Message) : Capturing l :=
  { t with
    sys := { t.sys with store := t.sys.store.addMessage w key msg query exec }
    phase := .flushing pendingMsgs }

def step (t : Capturing l) : CaptureAct l w key → Capturing l
  | .begin run =>
    match t.phase with
    | .idle =>
      -- a run starts from the session as it finds it
      if run.input.history = t.sys.store.history w key
          ∧ run.input.summary = t.sys.store.getSummary w key then { t with phase := .begun run }
      else t
    | _ => t
  | .flush query exec =>
    match t.phase with
    | .begun run => t.addMessage w key run.question query exec run.rest
    | .flushing (msg :: rest) => t.addMessage w key msg query exec rest
    | _ => t
  | .endRun query =>
    match t.phase with
    | .flushing [] =>
      let sys := t.sys.maybePeriodicMemoryCapture cfg w key query
      { sys := sys, phase := .idle, log := t.log ++ [sys.captures - t.sys.captures] }
    | _ => t
  | .beside act _ => { t with sys := t.sys.step cfg sanitize w key act }

end

/-- A session that is open, with no run and no summarization under way. -/
def start {w : WorkspaceID} {key : String} (l : Loop) (s : OpenSession w key) : Capturing l :=
  { sys := { store := s.store, pc := .done, captures := 0, events := [] }
    phase := .idle
    log := [] }

end Capturing

/-- Among any `n` consecutive completed runs one starts a capture, and no
run starts two. -/
def KeepsPeriod (n : Nat) (log : List Nat) : Prop :=
  Lib.EveryWindow (fun k => 0 < k) n log ∧ ∀ k ∈ log, k ≤ 1

/-- The turns of the current period, as the count of user messages tells
them: all `n` when the count is a multiple and its check is to come. -/
def turnsOfPeriod (n : Nat) (asked : Prop) [Decidable asked] (turns : Nat) : Nat :=
  if asked ∧ turns ≠ 0 ∧ n ∣ turns then n else turns % n

namespace Capturing

section
variable (n : Nat) {l : Loop} (w : WorkspaceID) (key : String) (t : Capturing l)

def turns : Nat := Compacting.userTurns (t.sys.store.history w key)

/-- With this many user messages the period would not be set back. -/
def NotBack (turns : Nat) : Prop :=
  turnsOfPeriod n t.phase.asked (t.turns w key) ≤ turnsOfPeriod n t.phase.asked turns

/-- The count goes on as the runs do: neither a warning's message nor a
truncation sets the period back, and a capture that is due was not
already made at the same count. -/
def CountsOn : CaptureAct l w key → Prop
  | .begin _ => True
  | .flush _ _ =>
    match t.phase with
    | .flushing (msg :: _) => msg.role = .user → t.NotBack n w key (t.turns w key + 1)
    | _ => True
  | .endRun _ =>
    match t.phase with
    | .flushing [] =>
      t.turns w key ≠ 0 → n ∣ t.turns w key →
        t.sys.store.getSessionMetaValue w key sessionMetaKeyLastPeriodicFlushTurn
          ≠ toString (t.turns w key)
    | _ => True
  | .beside act _ =>
    match act, t.sys.pc with
    | .summarizer _, .truncateHistory keepLast =>
      t.NotBack n w key
        (Compacting.userTurns (keepLastMessages keepLast (t.sys.store.history w key)))
    | _, _ => True

end

end Capturing

end LendingClaw.Agent
