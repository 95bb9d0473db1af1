/-
LendingClaw.Agent.History — the history pipeline of a request
(`internal/agent/history.go`): where the last user turns start, the limit
on turns, and the repair of tool pairing.
-/
import Mathlib.Algebra.BigOperators.Group.List.Basic
import Mathlib.Algebra.Order.Ring.Nat
import Mathlib.Data.List.Dedup
import LendingClaw.Providers.Types

namespace LendingClaw.Agent

open LendingClaw.Providers

/-! ## Turns -/

/-- The loop of `historyTurnStartIndex`: `i` counts down, and is one more
than the index looked at. -/
def turnStartScan (msgs : List Message) (keepTurns : Int) :
    (i : Nat) → (userCount : Int) → (lastUserIndex : Nat) → Nat
  | 0, _, _ => 0
  | i + 1, userCount, lastUserIndex =>
    if (msgs[i]?).map Message.role = some .user then
      if userCount + 1 > keepTurns then lastUserIndex
      else turnStartScan msgs keepTurns i (userCount + 1) i
    else turnStartScan msgs keepTurns i userCount lastUserIndex

/-- `historyTurnStartIndex`. -/
def historyTurnStartIndex (msgs : List Message) (keepTurns : Int) : Nat :=
  if keepTurns ≤ 0 then msgs.length
  else if msgs = [] then 0
  else turnStartScan msgs keepTurns msgs.length 0 msgs.length

/-- `limitHistoryTurns`. -/
def limitHistoryTurns (msgs : List Message) (limit : Int) : List Message :=
  if limit ≤ 0 ∨ msgs = [] then msgs else msgs.drop (historyTurnStartIndex msgs limit)

theorem turnStartScan_le (msgs : List Message) (keepTurns : Int) (i : Nat) (userCount : Int)
    (lastUserIndex : Nat) (hi : i ≤ msgs.length) (hl : lastUserIndex ≤ msgs.length) :
    turnStartScan msgs keepTurns i userCount lastUserIndex ≤ msgs.length := by
  induction i generalizing userCount lastUserIndex with
  | zero => simp [turnStartScan]
  | succ i ih =>
    unfold turnStartScan
    split
    · split
      · exact hl
      · exact ih (userCount + 1) i (by omega) (by omega)
    · exact ih userCount lastUserIndex (by omega) hl

theorem historyTurnStartIndex_le (msgs : List Message) (keepTurns : Int) :
    historyTurnStartIndex msgs keepTurns ≤ msgs.length := by
  unfold historyTurnStartIndex
  split
  · exact Nat.le_refl _
  · split
    · omega
    · exact turnStartScan_le msgs keepTurns _ 0 _ (Nat.le_refl _) (Nat.le_refl _)

/-! ## Tool pairing -/

/-- Ranging over a map takes its keys in any order, at each place another
one. -/
structure MapOrder where
  range : Nat → List String → List String
  perm : ∀ place keys, (range place keys).Perm keys

/-- The result made up for a call that has none. -/
def missingResult (id : String) : Message :=
  { role := .tool
    content := "[Tool result missing — session was compacted]"
    toolCalls := []
    toolCallID := id }

/-- An assistant message with tool calls. -/
def Calling (m : Message) : Prop := m.role = .assistant ∧ m.toolCalls ≠ []

instance (m : Message) : Decidable (Calling m) := inferInstanceAs (Decidable (_ ∧ _))

/-- The set of ids that a message waits for. -/
def expectedIDs (msg : Message) : List String :=
  if Calling msg then (msg.toolCalls.map ToolCall.id).dedup else []

/-- The loop of `sanitizeHistory`. The inner loop that collects the
results of a message is its state: the ids still expected, none outside
of it. -/
def sanitizeFrom (order : MapOrder) : (expected : List String) → List Message → List Message
  | expected, [] => (order.range 0 expected).map missingResult
  | expected, msg :: rest =>
    if msg.role = .tool then
      if msg.toolCallID ∈ expected then
        msg :: sanitizeFrom order (expected.erase msg.toolCallID) rest
      else sanitizeFrom order expected rest
    else
      (order.range (rest.length + 1) expected).map missingResult
        ++ msg :: sanitizeFrom order (expectedIDs msg) rest

/-- `sanitizeHistory`. -/
def sanitizeHistory (order : MapOrder) (msgs : List Message) : List Message :=
  sanitizeFrom order [] msgs

/-! ## Tokens -/

/-- `EstimateTokens`: about four bytes a token. -/
def estimateTokens (msgs : List Message) : Nat :=
  (msgs.map (fun m => m.content.utf8ByteSize / 4)).sum

/-- `EstimateTokensWithCalibration`: the last prompt, and what was added
since. -/
def estimateTokensWithCalibration (msgs : List Message) (lastPromptTokens lastMsgCount : Int) :
    Int :=
  if lastPromptTokens ≤ 0 ∨ lastMsgCount ≤ 0 ∨ lastMsgCount > msgs.length then estimateTokens msgs
  else lastPromptTokens + estimateTokens (msgs.drop lastMsgCount.toNat)

end LendingClaw.Agent
