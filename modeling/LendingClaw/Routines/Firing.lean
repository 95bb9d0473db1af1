/-
LendingClaw.Routines.Firing — one firing of a routine
(`RoutineRunWorkflow` and `ExecuteRoutineActivity` of
`internal/services/temporal/routine_workflow.go`, `Upsert` and `Finish`
of `MySQLRoutineRunStore` in `internal/store/mysql/routines.go`).

A firing is up to three attempts of one activity. The next one starts
when an attempt returns an error that may be retried, or has sent no
heartbeat for two minutes: the activity sends none. The database accepts
exactly the parameters that are valid UTF-8.

`fires_once_iff` says which firings that succeed are not executed again.
-/
import LendingClaw.Lib.Utf8
import LendingClaw.Providers.Types
import LendingClaw.Routines.Store

namespace LendingClaw.Routines

open LendingClaw.Lib

/-! ## The workflow's options, in milliseconds -/

def startToCloseTimeout : Nat := 3600000

def heartbeatTimeout : Nat := 120000

def maximumAttempts : Nat := 3

/-! ## Rows -/

/-- `store.RoutineRun`, its ids and times left out; a text of the
program is a byte sequence. -/
structure RoutineRun where
  triggerType : String
  status : String
  inputText : Option Bytes
  outputPreview : Option Bytes := none
  error : Option Bytes := none
  inputTokens : Int := 0
  outputTokens : Int := 0
  iterations : Int := 0

/-- A statement is served if its text parameters are valid; the others are
constants and ids. -/
def accepts (params : List (Option Bytes)) : Bool := params.all (fun param => param.all validUtf8)

/-- `Upsert`, of a new id. -/
def upsertRun (run : RoutineRun) : Option RoutineRun :=
  if accepts [run.inputText] then some run else none

/-- The columns of `Finish`. -/
structure Finished where
  status : String
  outputPreview : Option Bytes
  error : Option Bytes
  inputTokens : Int
  outputTokens : Int
  iterations : Int

/-- `Finish`: the row, if the statement is served. -/
def finishRun (run : RoutineRun) (f : Finished) : Option RoutineRun :=
  if accepts [f.outputPreview, f.error] then
    some { run with
      status := f.status
      outputPreview := f.outputPreview
      error := f.error
      inputTokens := f.inputTokens
      outputTokens := f.outputTokens
      iterations := f.iterations }
  else none

/-! ## The activity -/

structure WorkflowInput where
  triggerType : String
  inputText : Bytes

/-- `agent.RunResult`, as far as the activity reads it. -/
structure AgentResult where
  content : List Char
  usage : Option Providers.Usage
  iterations : Int

/-- What an attempt meets: the answer of `GetByID`, the agent on its
message, and the time from its start to its end. -/
structure Attempt where
  routine : Except String Routine
  agent : Bytes → Except Bytes (Option AgentResult)
  duration : Nat
  below : duration < startToCloseTimeout

/-- How the activity ends. -/
inductive Ending where
  | success
  | retryable
  | nonRetryable
  deriving DecidableEq

/-- What an attempt leaves: whether it has started an agent run, whether
that has completed without an error, its row, and how it ended. -/
structure Attempted where
  agentStarted : Bool
  agentCompleted : Bool
  row : Option RoutineRun
  ending : Ending

/-- The bytes of a text. -/
def textBytes (s : String) : Bytes := utf8 s.toList

/-- `preview[:2000]`. -/
def previewLength : Nat := 2000

def preview (content : Bytes) : Bytes :=
  if content.length > previewLength then content.take previewLength else content

/-- The message of a run. -/
def agentMessage (routine : Routine) (input : WorkflowInput) : Bytes :=
  if input.inputText = [] then textBytes routine.prompt
  else textBytes routine.prompt ++ textBytes "\n\n" ++ input.inputText

/-- What is written of a run. -/
def finishedOf : Except Bytes (Option AgentResult) → Finished
  | .error err =>
    { status := "failed", outputPreview := none, error := some err
      inputTokens := 0, outputTokens := 0, iterations := 0 }
  | .ok none =>
    { status := "success", outputPreview := none, error := none
      inputTokens := 0, outputTokens := 0, iterations := 0 }
  | .ok (some result) =>
    { status := "success", outputPreview := some (preview (utf8 result.content)), error := none
      inputTokens := (result.usage.map Providers.Usage.promptTokens).getD 0
      outputTokens := (result.usage.map Providers.Usage.completionTokens).getD 0
      iterations := result.iterations }

/-- The row that an attempt starts with. -/
def newRun (input : WorkflowInput) : RoutineRun :=
  { triggerType := input.triggerType
    status := "running"
    inputText := if input.inputText = [] then none else some input.inputText }

/-- `ExecuteRoutineActivity`. -/
def executeRoutineActivity (input : WorkflowInput) (attempt : Attempt) : Attempted :=
  match attempt.routine with
  | .error _ => { agentStarted := false, agentCompleted := false, row := none, ending := .nonRetryable }
  | .ok routine =>
    match upsertRun (newRun input) with
    | none => { agentStarted := false, agentCompleted := false, row := none, ending := .retryable }
    | some run =>
      let answer := attempt.agent (agentMessage routine input)
      let completed := answer.isOk
      match finishRun run (finishedOf answer) with
      | none =>
        { agentStarted := true, agentCompleted := completed, row := some run, ending := .retryable }
      | some row =>
        { agentStarted := true, agentCompleted := completed, row := some row
          ending := if completed then .success else .retryable }

/-! ## The firing -/

/-- The attempts that are started, of those that there could be. -/
def startAttempts (input : WorkflowInput) : List Attempt → List Attempted
  | [] => []
  | attempt :: attempts =>
    let attempted := executeRoutineActivity input attempt
    attempted ::
      if heartbeatTimeout ≤ attempt.duration ∨ attempted.ending = .retryable then
        startAttempts input attempts
      else []

/-- `RoutineRunWorkflow`. -/
def routineRunWorkflow (input : WorkflowInput) (attempts : List Attempt) : List Attempted :=
  startAttempts input (attempts.take maximumAttempts)

/-- An attempt whose agent run completes has a row that says so, and no
attempt after it starts an agent run. -/
def FiresOnce : List Attempted → Prop
  | [] => True
  | attempted :: later =>
    (attempted.agentCompleted = true →
        (∃ row, attempted.row = some row ∧ row.status = "success")
          ∧ ∀ other ∈ later, other.agentStarted = false)
      ∧ FiresOnce later

/-! ## The condition -/

namespace Attempt

variable (input : WorkflowInput) (attempt : Attempt)

/-- The routine is found, and the input is a text. -/
def Reaches : Prop := attempt.routine.isOk ∧ validUtf8 input.inputText = true

/-- The agent's answer, if the routine is found. -/
def answer : Option (Except Bytes (Option AgentResult)) :=
  match attempt.routine with
  | .error _ => none
  | .ok routine => some (attempt.agent (agentMessage routine input))

/-- The agent run is started and completes without an error. -/
def Completes : Prop := attempt.Reaches input ∧ ∃ result, attempt.answer input = some (.ok result)

/-- The cut after 2000 bytes falls between two characters of the answer,
or behind it. -/
def CutsBetween : Prop :=
  ∀ result, attempt.answer input = some (.ok (some result)) →
    ∃ a b, result.content = a ++ b
      ∧ (utf8 a).length = min previewLength (utf8 result.content).length

/-- It ends before the server misses its heartbeat. -/
def Quick : Prop := attempt.duration < heartbeatTimeout

/-- The server starts another attempt after it. -/
def Repeats : Prop :=
  ¬ attempt.Quick ∨ (attempt.routine.isOk ∧ ¬ (attempt.Completes input ∧ attempt.CutsBetween input))

end Attempt

/-- Of these attempts, taken in turn, one starts an agent run. -/
def StartsAgent (input : WorkflowInput) : List Attempt → Prop
  | [] => False
  | attempt :: attempts =>
    attempt.Reaches input ∨ (attempt.Repeats input ∧ StartsAgent input attempts)

/-- An attempt that completes its agent run cuts the answer between two
characters and is quick, or nothing after it starts an agent run; and so
on for the attempt after it, if there is one. -/
def Sure (input : WorkflowInput) : List Attempt → Prop
  | [] => True
  | attempt :: attempts =>
    (attempt.Completes input →
        attempt.CutsBetween input ∧ (attempt.Quick ∨ ¬ StartsAgent input attempts))
      ∧ (attempt.Repeats input → Sure input attempts)

/-! ## What an attempt leaves -/

theorem finish_status {run row : RoutineRun} {f : Finished} (h : finishRun run f = some row) :
    row.status = f.status := by
  unfold finishRun at h
  split at h
  · cases h
    rfl
  · cases h

theorem finish_isSome_iff (run : RoutineRun) (result : Option AgentResult) :
    (finishRun run (finishedOf (.ok result))).isSome
      ↔ ∀ r, result = some r → ValidUtf8 (preview (utf8 r.content)) := by
  have hserved : (finishRun run (finishedOf (.ok result))).isSome
      ↔ accepts [(finishedOf (.ok result)).outputPreview, (finishedOf (.ok result)).error] = true := by
    unfold finishRun
    split <;> simp [*]
  rw [hserved]
  cases result with
  | none => simp [finishedOf, accepts]
  | some r => simp [finishedOf, accepts, validUtf8_iff]

theorem validUtf8_preview_iff (text : List Char) :
    ValidUtf8 (preview (utf8 text))
      ↔ ∃ a b, text = a ++ b ∧ (utf8 a).length = min previewLength (utf8 text).length := by
  have hcut : preview (utf8 text) = (utf8 text).take previewLength := by
    unfold preview
    split
    · rfl
    · exact (List.take_of_length_le (by omega)).symm
  rw [hcut, validUtf8_take_iff]

theorem upsert_newRun (input : WorkflowInput) :
    upsertRun (newRun input) = if validUtf8 input.inputText = true then some (newRun input) else none := by
  by_cases hempty : input.inputText = []
  · have hvalid : validUtf8 input.inputText = true := by
      rw [validUtf8_iff, hempty]
      exact ⟨[], rfl⟩
    rw [if_pos hvalid]
    simp [upsertRun, newRun, accepts, hempty]
  · simp [upsertRun, newRun, accepts, hempty]

section Attempt

variable {input : WorkflowInput} {attempt : Attempt}

theorem started_iff :
    (executeRoutineActivity input attempt).agentStarted = true ↔ attempt.Reaches input := by
  unfold executeRoutineActivity Attempt.Reaches
  cases attempt.routine with
  | error err => simp [Except.isOk, Except.toBool]
  | ok routine =>
    rw [upsert_newRun]
    by_cases hvalid : validUtf8 input.inputText = true
    · simp only [hvalid, if_true]
      split <;> simp [Except.isOk, Except.toBool]
    · simp [hvalid]

theorem completed_iff :
    (executeRoutineActivity input attempt).agentCompleted = true ↔ attempt.Completes input := by
  unfold executeRoutineActivity Attempt.Completes Attempt.Reaches Attempt.answer
  cases attempt.routine with
  | error err => simp
  | ok routine =>
    rw [upsert_newRun]
    by_cases hvalid : validUtf8 input.inputText = true
    · simp only [hvalid, if_true]
      cases attempt.agent (agentMessage routine input) <;> split <;> simp [Except.isOk, Except.toBool]
    · simp [hvalid]

/-- An attempt that reaches its agent run. -/
theorem run_of_reaches (h : attempt.Reaches input) :
    ∃ routine, attempt.routine = .ok routine
      ∧ attempt.answer input = some (attempt.agent (agentMessage routine input))
      ∧ upsertRun (newRun input) = some (newRun input) := by
  obtain ⟨hfound, hvalid⟩ := h
  unfold Attempt.answer
  cases hroutine : attempt.routine with
  | error err => rw [hroutine] at hfound; cases hfound
  | ok routine =>
    refine ⟨routine, rfl, rfl, ?_⟩
    rw [upsert_newRun, if_pos hvalid]

/-- After an agent run that completes, the cut decides. -/
theorem spec_of_completes (h : attempt.Completes input) :
    ((∃ row, (executeRoutineActivity input attempt).row = some row ∧ row.status = "success")
        ↔ attempt.CutsBetween input)
      ∧ ((executeRoutineActivity input attempt).ending = .retryable ↔ ¬ attempt.CutsBetween input) := by
  obtain ⟨hreaches, result, hresult⟩ := h
  obtain ⟨routine, hroutine, hanswer, hrun⟩ := run_of_reaches hreaches
  have hagent : attempt.agent (agentMessage routine input) = .ok result := by
    rw [hanswer] at hresult
    exact Option.some.inj hresult
  have hcuts : attempt.CutsBetween input
      ↔ ∀ r, result = some r → ValidUtf8 (preview (utf8 r.content)) := by
    simp only [Attempt.CutsBetween, hresult, Option.some.injEq, Except.ok.injEq,
      validUtf8_preview_iff]
  rw [hcuts, ← finish_isSome_iff (newRun input)]
  simp only [executeRoutineActivity, hroutine, hrun, hagent]
  cases hrow : finishRun (newRun input) (finishedOf (.ok result)) with
  | none => simp [newRun]
  | some row =>
    have hstatus : row.status = "success" := by
      rw [finish_status hrow]
      cases result <;> rfl
    simp [hstatus, Except.isOk, Except.toBool]

/-- An attempt at a routine that is found and that does not complete an
agent run is retried. -/
theorem retryable_of_not_completes (hfound : attempt.routine.isOk)
    (h : ¬ attempt.Completes input) :
    (executeRoutineActivity input attempt).ending = .retryable := by
  have hnot : (executeRoutineActivity input attempt).agentCompleted ≠ true := mt completed_iff.1 h
  unfold executeRoutineActivity at hnot ⊢
  cases hroutine : attempt.routine with
  | error err => rw [hroutine] at hfound; cases hfound
  | ok routine =>
    simp only [hroutine] at hnot ⊢
    cases hrun : upsertRun (newRun input) with
    | none => rfl
    | some run =>
      simp only [hrun] at hnot ⊢
      cases hfinish : finishRun run (finishedOf (attempt.agent (agentMessage routine input))) with
      | none => rfl
      | some row =>
        simp only [hfinish] at hnot
        exact if_neg hnot

/-- The server starts another attempt exactly after one that `Repeats`. -/
theorem repeats_iff :
    (heartbeatTimeout ≤ attempt.duration ∨ (executeRoutineActivity input attempt).ending = .retryable)
      ↔ attempt.Repeats input := by
  have hquick : heartbeatTimeout ≤ attempt.duration ↔ ¬ attempt.Quick := by
    simp [Attempt.Quick]
  rw [hquick]
  unfold Attempt.Repeats
  refine or_congr_right ?_
  by_cases hcompletes : attempt.Completes input
  · simp [(spec_of_completes hcompletes).2, hcompletes, hcompletes.1.1]
  · by_cases hfound : attempt.routine.isOk
    · simp [retryable_of_not_completes hfound hcompletes, hfound, hcompletes]
    · have hmissing : (executeRoutineActivity input attempt).ending = .nonRetryable := by
        unfold executeRoutineActivity
        cases hroutine : attempt.routine with
        | error err => rfl
        | ok routine => rw [hroutine] at hfound; exact absurd rfl hfound
      simp [hmissing, hfound]

end Attempt

/-! ## The firing -/

theorem startAttempts_of_repeats {input : WorkflowInput} {attempt : Attempt}
    (h : attempt.Repeats input) (attempts : List Attempt) :
    startAttempts input (attempt :: attempts)
      = executeRoutineActivity input attempt :: startAttempts input attempts := by
  rw [startAttempts, if_pos (repeats_iff.2 h)]

theorem startAttempts_of_not_repeats {input : WorkflowInput} {attempt : Attempt}
    (h : ¬ attempt.Repeats input) (attempts : List Attempt) :
    startAttempts input (attempt :: attempts) = [executeRoutineActivity input attempt] := by
  rw [startAttempts, if_neg (mt repeats_iff.1 h)]

theorem startsAgent_iff (input : WorkflowInput) (attempts : List Attempt) :
    (∃ attempted ∈ startAttempts input attempts, attempted.agentStarted = true)
      ↔ StartsAgent input attempts := by
  induction attempts with
  | nil => simp [startAttempts, StartsAgent]
  | cons attempt attempts ih =>
    by_cases hrepeats : attempt.Repeats input
    · simp [startAttempts_of_repeats hrepeats, StartsAgent, started_iff, hrepeats, ← ih]
    · simp [startAttempts_of_not_repeats hrepeats, StartsAgent, started_iff, hrepeats]

theorem none_started_iff (input : WorkflowInput) (attempts : List Attempt) :
    (∀ attempted ∈ startAttempts input attempts, attempted.agentStarted = false)
      ↔ ¬ StartsAgent input attempts := by
  simp [← startsAgent_iff]

theorem startAttempts_iff (input : WorkflowInput) (attempts : List Attempt) :
    FiresOnce (startAttempts input attempts) ↔ Sure input attempts := by
  induction attempts with
  | nil => simp [startAttempts, FiresOnce, Sure]
  | cons attempt attempts ih =>
    by_cases hrepeats : attempt.Repeats input
    · rw [startAttempts_of_repeats hrepeats, FiresOnce, Sure, completed_iff, none_started_iff, ih]
      refine and_congr (imp_congr_right fun hcompletes => ?_) (by simp [hrepeats])
      rw [(spec_of_completes hcompletes).1]
      refine and_congr_right fun hcuts => ?_
      have hslow : ¬ attempt.Quick := by
        obtain hslow | ⟨-, hnot⟩ := hrepeats
        · exact hslow
        · exact absurd ⟨hcompletes, hcuts⟩ hnot
      simp [hslow]
    · rw [startAttempts_of_not_repeats hrepeats, FiresOnce, Sure, completed_iff]
      refine and_congr (imp_congr_right fun hcompletes => ?_) (by simp [hrepeats, FiresOnce])
      rw [(spec_of_completes hcompletes).1]
      have hquick : attempt.Quick := not_not.1 fun hslow => hrepeats (.inl hslow)
      simp [hquick]

/-- A firing that succeeds is not executed again: exactly of the firings
that are `Sure`. -/
theorem fires_once_iff (input : WorkflowInput) (attempts : List Attempt) :
    FiresOnce (routineRunWorkflow input attempts) ↔ Sure input (attempts.take maximumAttempts) :=
  startAttempts_iff input _

/-- A scheduled firing. -/
def scheduledInput : WorkflowInput := { triggerType := "schedule", inputText := [] }

/-- An attempt of some minutes whose agent answers with a text. -/
def answering (content : List Char) (minutes : Nat) (h : minutes < 60) : Attempt :=
  { routine := .ok hourlyRoutine
    agent := fun _ => .ok (some { content := content, usage := none, iterations := 1 })
    duration := minutes * 60000
    below := by unfold startToCloseTimeout; omega }

theorem answering_completes (content : List Char) (minutes : Nat) (h : minutes < 60) :
    (answering content minutes h).Completes scheduledInput :=
  ⟨⟨rfl, rfl⟩, _, rfl⟩

theorem length_utf8_replicate (n : Nat) (c : Char) :
    (utf8 (List.replicate n c)).length = n * c.utf8Size := by
  simp [utf8]

/-- A cut inside a character of two bytes. -/
theorem preview_cut {text : List Char} (h : (utf8 text).length = 1999) :
    preview (utf8 (text ++ ['é'])) = utf8 text ++ [0xC3] := by
  have hbytes : utf8 (text ++ ['é']) = utf8 text ++ [0xC3, 0xA9] := utf8_append _ _
  have hlong : (utf8 (text ++ ['é'])).length > previewLength := by
    rw [hbytes, List.length_append, h]
    decide
  have htake : (utf8 text).take 2000 = utf8 text := List.take_of_length_le (by omega)
  rw [preview, if_pos hlong, hbytes, previewLength, List.take_append, h, htake]
  rfl

/-- 1999 bytes, and a character of two. -/
def longAnswer : List Char := List.replicate 1999 'a' ++ ['é']

theorem longAnswer_cut : ¬ ValidUtf8 (preview (utf8 longAnswer)) := by
  intro hvalid
  have hlen : (utf8 (List.replicate 1999 'a')).length = 1999 := length_utf8_replicate 1999 'a'
  rw [longAnswer, preview_cut hlen, validUtf8_append, ← validUtf8_iff] at hvalid
  exact absurd hvalid (by decide)

theorem cutsBetween_of_firesOnce {input : WorkflowInput} {attempt : Attempt} {attempts : List Attempt}
    (h : FiresOnce (routineRunWorkflow input (attempt :: attempts)))
    (hcompletes : attempt.Completes input) : attempt.CutsBetween input :=
  (spec_of_completes hcompletes).1.1 (h.1 (completed_iff.2 hcompletes)).1

/-- An answer after three minutes is given twice; and an answer cut inside
a character is not written, and is given twice as well. -/
theorem success_is_repeated :
    ¬ FiresOnce (routineRunWorkflow scheduledInput
        [answering ['o', 'k'] 3 (by decide), answering ['o', 'k'] 3 (by decide)])
      ∧ ¬ FiresOnce (routineRunWorkflow scheduledInput
        [answering longAnswer 1 (by decide), answering longAnswer 1 (by decide)]) := by
  refine ⟨fun h => ?_, fun h => ?_⟩
  · have hcompletes := answering_completes ['o', 'k'] 3 (by decide)
    have hnone := (h.1 (completed_iff.2 hcompletes)).2 _ List.mem_cons_self
    rw [started_iff.2 hcompletes.1] at hnone
    cases hnone
  · have hcompletes := answering_completes longAnswer 1 (by decide)
    have hcuts := cutsBetween_of_firesOnce h hcompletes
      { content := longAnswer, usage := none, iterations := 1 } rfl
    exact longAnswer_cut ((validUtf8_preview_iff longAnswer).2 hcuts)

end LendingClaw.Routines
