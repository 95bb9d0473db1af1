/-
LendingClaw.Agent.RunGuard — what the input guard lets into a run
(`runLoop` of `internal/agent/loop.go`, `internal/agent/input_guard.go`).

The message is cut before it is scanned, so the guard sees what the
provider would get, the notice of the truncation included. An agent that
blocks rejects exactly the messages in which a pattern is found then.
-/
import LendingClaw.Agent.Run

namespace LendingClaw.Agent

open LendingClaw.Providers LendingClaw.Lib

/-! ## Truncation -/

/-- What ends before the limit is not cut. -/
theorem cutText_front {n : Nat} {text : String} {front back : List Char}
    (htext : text.toList = front ++ back) (hfits : (utf8 front).length ≤ n) :
    ∃ rest, (cutText n text).toList = front ++ rest := by
  rw [cutText]
  split
  · refine ⟨runes ((utf8 back).take (n - (utf8 front).length)), ?_⟩
    rw [String.toList_ofList, htext, utf8_append, List.take_append,
      List.take_of_length_le hfits, runes_append]
  · exact ⟨back, htext⟩

theorem truncate_front {a : AgentLoop} {message : String} {front back : List Char}
    (htext : message.toList = front ++ back) (hfits : (utf8 front).length ≤ a.maxMessageChars) :
    ∃ rest, (a.truncate message).toList = front ++ rest := by
  rw [AgentLoop.truncate]
  split
  · obtain ⟨rest, hrest⟩ := cutText_front htext hfits
    simp only [String.append_assoc, String.toList_append, hrest, List.append_assoc]
    exact ⟨_, rfl⟩
  · exact ⟨back, htext⟩

/-- What is left of a message that is cut: its first characters, at most
three replacement characters for the one that the limit falls in, and the
notice. -/
theorem truncate_cut (a : AgentLoop) (message : String)
    (h : a.maxMessageChars < (utf8 message.toList).length) :
    ∃ k j, j ≤ 3 ∧ (utf8 (message.toList.take k)).length ≤ a.maxMessageChars
      ∧ a.truncate message = String.ofList (message.toList.take k ++ List.replicate j '\uFFFD')
        ++ "\n\n[System: Message was truncated from " ++ toString (utf8 message.toList).length
        ++ " to " ++ toString a.maxMessageChars ++ " characters due to size limit.]" := by
  obtain ⟨k, j, hrunes, hj, hlen⟩ := runes_take message.toList a.maxMessageChars
  refine ⟨k, j, hj, hlen, ?_⟩
  rw [AgentLoop.truncate, if_pos h, cutText, if_pos h, hrunes]

/-! ## The guard -/

theorem rejects_iff {a : AgentLoop} (hblock : a.injectionAction = "block") (message : String) :
    a.rejects message = true ↔ ∃ fragment, Injection fragment ∧ fragment <:+: message.toList := by
  rw [← scan_ne_nil_iff, AgentLoop.rejects, hblock]
  simp

/-- A run keeps its user message in front. -/
theorem head_pendingMsgs {l : Loop} {st : LoopState} {m : Message} (turn : Turn)
    (h : st.pendingMsgs.head? = some m) : (l.iterate st turn).pendingMsgs.head? = some m := by
  by_cases hended : st.ended = none
  · cases hresp : turn.resp with
    | error err =>
      obtain ⟨text, heq⟩ := iterate_error (l := l) hended hresp
      rw [heq]
      exact h
    | ok resp =>
      by_cases hnil : resp.toolCalls = []
      · rw [iterate_ok hended hresp, Loop.act, if_pos hnil]
        show (l.compact st.send resp turn.compaction).pendingMsgs.head? = some m
        rw [(compact_frame l st.send resp turn.compaction).1]
        exact h
      · rw [(iterate_calls hended hresp hnil).2.1, List.head?_append, h]
        rfl
  · rw [iterate_ended hended]
    exact h

/-- What a rejected run leaves. -/
def rejectedRun (a : AgentLoop) (req : RunRequest) : Ran :=
  let err := "message rejected: potential prompt injection detected"
  { events := [runStarted a req, .runFailed a.id req.runID err], result := .error err, flushed := none }

section
variable (a : AgentLoop) (req : RunRequest) (args : Arguments → Lib.Json) (r : RunInput)
  (env : Nat → Reply) (title : String)

theorem run_rejected (h : a.rejects (a.truncate req.message) = true) :
    a.run req args r env title = rejectedRun a req := by
  rw [AgentLoop.run]
  simp only [h, if_true]
  rfl

/-- The first message that a run flushes is the scanned one. -/
theorem head_flushed (h : ¬ a.rejects (a.truncate req.message) = true) {msgs : List Message}
    (hflushed : (a.run req args r env title).flushed = some msgs) :
    msgs.head? = some (textMessage .user (a.truncate req.message)) := by
  rw [AgentLoop.run] at hflushed
  simp only [h] at hflushed
  have hhead : (Lib.run (Running.step a req args)
      (Running.start a req { r with message := a.truncate req.message })
      (replies env a.maxIterations)).st.pendingMsgs.head?
        = some (textMessage .user (a.truncate req.message)) := by
    refine Lib.inv_run_of_step
      (fun s : Running => s.st.pendingMsgs.head? = some (textMessage .user (a.truncate req.message)))
      (fun s reply hs => ?_) _ _ rfl
    rw [Running.step]
    split
    · exact hs
    · exact head_pendingMsgs reply.turn hs
  rcases flushed_cases a.toLoop _ with ⟨hnone, -⟩ | ⟨content, hsome⟩
  · rw [hnone] at hflushed
    cases hflushed
  · rw [hsome] at hflushed
    rw [← Option.some.inj hflushed, List.head?_append, hhead]
    rfl

/-- An agent that blocks: a message with an injection before its limit is
rejected, whatever stands around it; and a run that flushes anything has
a user message without one. -/
theorem injections_blocked (hblock : a.injectionAction = "block") :
    (∀ front fragment back, Injection fragment → req.message.toList = front ++ fragment ++ back →
        (utf8 (front ++ fragment)).length ≤ a.maxMessageChars →
        a.run req args r env title = rejectedRun a req)
      ∧ ∀ msgs, (a.run req args r env title).flushed = some msgs →
        ∃ text, msgs.head? = some (textMessage .user text)
          ∧ ∀ fragment, Injection fragment → ¬ fragment <:+: text.toList := by
  constructor
  · intro front fragment back hinjection hmessage hfits
    refine run_rejected a req args r env title ((rejects_iff hblock _).mpr ?_)
    obtain ⟨rest, hrest⟩ := truncate_front hmessage hfits
    exact ⟨fragment, hinjection, front, rest, hrest.symm⟩
  · intro msgs hflushed
    have hpassed : ¬ a.rejects (a.truncate req.message) = true := by
      intro h
      rw [run_rejected a req args r env title h] at hflushed
      cases hflushed
    refine ⟨_, head_flushed a req args r env title hpassed hflushed, ?_⟩
    intro fragment hinjection hin
    exact hpassed ((rejects_iff hblock _).mpr ⟨fragment, hinjection, hin⟩)

end

/-- An agent that blocks. -/
def strictAgent : AgentLoop := { lendingAgent with injectionAction := "block" }

theorem injections_blocked_strict :
    (∀ front fragment back, Injection fragment →
        openLoans.message.toList = front ++ fragment ++ back →
        (utf8 (front ++ fragment)).length ≤ strictAgent.maxMessageChars →
        strictAgent.run openLoans (fun _ => .obj []) firstMessage searchThenAnswer "Open loans"
          = rejectedRun strictAgent openLoans)
      ∧ ∀ msgs, (strictAgent.run openLoans (fun _ => .obj []) firstMessage searchThenAnswer
          "Open loans").flushed = some msgs →
        ∃ text, msgs.head? = some (textMessage .user text)
          ∧ ∀ fragment, Injection fragment → ¬ fragment <:+: text.toList :=
  injections_blocked strictAgent openLoans (fun _ => .obj []) firstMessage searchThenAnswer
    "Open loans" rfl

end LendingClaw.Agent
