/-
LendingClaw.Ui.ChatTheorems — which interleavings of a chat store keep a
finished or abandoned run away from the next one.

`effect_eq_iff` says for each continuation when it leaves the store as it
is; `chat_undisturbed_iff` says the same of whole runs, and that every
assistant message then belongs to the conversation it is appended to.
-/
import LendingClaw.Ui.Chat

namespace LendingClaw.Ui

open LendingClaw.Lib

/-! ## Continuations -/

theorem append_singleton_ne {α : Type} (l : List α) (a : α) : l ++ [a] ≠ l := by
  intro h
  have hlen := congrArg List.length h
  simp at hlen

theorem UiToolCall.setResult_eq_iff {id : String} {isError : Bool} {result : Option String}
    {tc : UiToolCall} :
    tc.setResult id isError result = tc
      ↔ (tc.id = id → tc.status = newStatus isError ∧ tc.result = result) := by
  unfold setResult
  by_cases hid : tc.id = id
  · rw [if_pos hid]
    constructor
    · intro h _
      exact ⟨(congrArg UiToolCall.status h).symm, (congrArg UiToolCall.result h).symm⟩
    · intro h
      obtain ⟨hstatus, hresult⟩ := h hid
      rw [← hstatus, ← hresult]
  · rw [if_neg hid]
    exact ⟨fun _ h => absurd h hid, fun _ => rfl⟩

theorem map_eq_self_iff {α : Type} {f : α → α} {l : List α} : l.map f = l ↔ ∀ a ∈ l, f a = a := by
  constructor
  · intro h a ha
    exact List.map_inj_left.mp (h.trans (List.map_id l).symm) a ha
  · intro h
    exact (List.map_inj_left.mpr h).trans (List.map_id l)

theorem thinkingSteps_setResult_iff {id : String} {isError : Bool} {result : Option String}
    {steps : List ThinkingStep} :
    steps.map (ThinkingStep.setResult id isError result) = steps
      ↔ ∀ tc, ThinkingStep.toolCall tc ∈ steps → tc.id = id →
          tc.status = newStatus isError ∧ tc.result = result := by
  rw [map_eq_self_iff]
  constructor
  · intro h tc htc
    exact UiToolCall.setResult_eq_iff.mp (ThinkingStep.toolCall.inj (h _ htc))
  · intro h step hstep
    cases step with
    | text content => rfl
    | toolCall tc => exact congrArg ThinkingStep.toolCall (UiToolCall.setResult_eq_iff.mpr (h tc hstep))

theorem StreamEvent.apply_eq_iff (st : ChatStore) (e : StreamEvent) : e.apply st = st ↔ e.Quiet st := by
  cases e with
  | runStarted => exact ⟨fun _ => trivial, fun _ => rfl⟩
  | chunk content =>
    constructor
    · intro h
      have hcontent : st.streamingContent ++ content = st.streamingContent :=
        congrArg ChatStore.streamingContent h
      show content = ""
      simpa using hcontent
    · intro h
      have hcontent : content = "" := h
      simp [apply, hcontent]
  | toolCall id name arguments =>
    constructor
    · intro h
      exact absurd (congrArg ChatStore.toolCalls h) (append_singleton_ne _ _)
    · intro h
      exact h.elim
  | toolResult id isError result =>
    constructor
    · intro h
      have hcalls : st.toolCalls.map (UiToolCall.setResult id isError result) = st.toolCalls :=
        congrArg ChatStore.toolCalls h
      refine ⟨fun tc htc => ?_, thinkingSteps_setResult_iff.mp (congrArg ChatStore.thinkingSteps h)⟩
      exact UiToolCall.setResult_eq_iff.mp (map_eq_self_iff.mp hcalls tc htc)
    · intro h
      have hcalls : st.toolCalls.map (UiToolCall.setResult id isError result) = st.toolCalls :=
        map_eq_self_iff.mpr fun tc htc => UiToolCall.setResult_eq_iff.mpr (h.1 tc htc)
      show { st with toolCalls := _, thinkingSteps := _ } = st
      rw [hcalls, thinkingSteps_setResult_iff.mpr h.2]
  | runCompleted content =>
    constructor
    · intro h
      exact absurd (congrArg ChatStore.messages h) (append_singleton_ne _ _)
    · intro h
      exact h.elim
  | runFailed error =>
    constructor
    · intro h
      exact ⟨(congrArg ChatStore.streaming h).symm, (congrArg ChatStore.streamingContent h).symm,
        (congrArg ChatStore.error h).symm⟩
    · intro h
      obtain ⟨hstreaming, hcontent, herror⟩ := h
      show { st with streaming := false, streamingContent := "", error := some error } = st
      rw [← hstreaming, ← hcontent, ← herror]

theorem onError_eq_iff {completed : Bool} {st : ChatStore} {message : String} :
    onError completed st message = st
      ↔ (completed = true ∨ (st.streaming = false ∧ st.error = some message)) := by
  unfold onError
  cases completed with
  | true => simp
  | false =>
    simp only [Bool.false_eq_true, if_false, false_or]
    constructor
    · intro h
      exact ⟨(congrArg ChatStore.streaming h).symm, (congrArg ChatStore.error h).symm⟩
    · intro h
      rw [← h.1, ← h.2]

/-- A rejection that appends nothing leaves a store at rest. -/
theorem atRest_iff {st : ChatStore} {error : Option String} :
    { st with streaming := false, error := error, abortController := none } = st ↔ st.AtRest error := by
  constructor
  · intro h
    exact ⟨(congrArg ChatStore.streaming h).symm, (congrArg ChatStore.error h).symm,
      (congrArg ChatStore.abortController h).symm⟩
  · intro h
    rw [← h.1, ← h.2.1, ← h.2.2]

theorem onRejected_abort_eq_iff {completed : Bool} {st : ChatStore} {message : String} :
    onRejected completed st true message = st
      ↔ (completed = true ∨ (st.streamingContent = "" ∧ st.AtRest none)) := by
  unfold onRejected
  cases completed with
  | true => exact ⟨fun _ => .inl rfl, fun _ => rfl⟩
  | false =>
    rw [if_neg Bool.false_ne_true, or_iff_right Bool.false_ne_true]
    by_cases hcontent : st.streamingContent = ""
    · rw [if_neg (fun h => h.2 hcontent), if_pos rfl, and_iff_right hcontent]
      exact atRest_iff
    · rw [if_pos ⟨rfl, hcontent⟩]
      constructor
      · intro h
        exact absurd (congrArg ChatStore.messages h) (append_singleton_ne _ _)
      · intro h
        exact absurd h.1 hcontent

theorem onRejected_eq_iff {completed : Bool} {st : ChatStore} {message : String} :
    onRejected completed st false message = st ↔ (completed = true ∨ st.AtRest (some message)) := by
  unfold onRejected
  cases completed with
  | true => exact ⟨fun _ => .inl rfl, fun _ => rfl⟩
  | false =>
    rw [if_neg Bool.false_ne_true, or_iff_right Bool.false_ne_true,
      if_neg (fun h => Bool.false_ne_true h.1), if_neg Bool.false_ne_true]
    exact atRest_iff

theorem onStreamEnd_eq_iff {completed : Bool} {st : ChatStore} :
    onStreamEnd completed st = st
      ↔ (st.abortController = none
        ∧ (completed = true ∨ (st.streaming = false ∧ st.streamingContent = ""))) := by
  unfold onStreamEnd
  cases completed with
  | true =>
    rw [if_pos rfl]
    constructor
    · intro h
      exact ⟨(congrArg ChatStore.abortController h).symm, .inl rfl⟩
    · intro h
      rw [← h.1]
  | false =>
    rw [if_neg Bool.false_ne_true]
    by_cases hcontent : st.streamingContent = ""
    · rw [if_neg (not_not_intro hcontent)]
      constructor
      · intro h
        exact ⟨(congrArg ChatStore.abortController h).symm,
          .inr ⟨(congrArg ChatStore.streaming h).symm, hcontent⟩⟩
      · intro h
        obtain ⟨habort, hfalse | ⟨hstreaming, _⟩⟩ := h
        · exact absurd hfalse Bool.false_ne_true
        · rw [← hstreaming, ← habort]
    · rw [if_pos hcontent]
      constructor
      · intro h
        exact absurd (congrArg ChatStore.messages h) (append_singleton_ne _ _)
      · intro h
        obtain ⟨_, hfalse | ⟨_, hempty⟩⟩ := h
        · exact absurd hfalse Bool.false_ne_true
        · exact absurd hempty hcontent

/-- When a continuation leaves the store as it is. -/
theorem Continuation.effect_eq_iff (run : ChatRun) (st : ChatStore) (c : Continuation) :
    c.effect run st = st ↔ c.Quiet run st := by
  cases c with
  | response => exact ⟨fun _ => trivial, fun _ => rfl⟩
  | noBody => exact onError_eq_iff
  | notOk status statusText body => exact onRejected_eq_iff
  | fetchFailed message => exact onRejected_eq_iff
  | abortRejected => exact onRejected_abort_eq_iff
  | event e =>
    show (if run.completed then st else e.apply st) = st ↔ (run.completed = true ∨ e.Quiet st)
    by_cases hcompleted : run.completed = true
    · rw [if_pos hcompleted]
      exact ⟨fun _ => .inl hcompleted, fun _ => rfl⟩
    · rw [if_neg hcompleted, e.apply_eq_iff st, or_iff_right hcompleted]
  | streamError message => exact onError_eq_iff
  | streamEnd => exact onStreamEnd_eq_iff

/-! ## Messages -/

/-- The messages grow by one assistant message, at the end of a run. -/
def Appends (run : ChatRun) (st : ChatStore) (c : Continuation) : Prop :=
  run.completed = false ∧ (c.stageAfter run = .done ∨ c.completedAfter run = true)
    ∧ ∃ content, (c.effect run st).messages
      = st.messages ++ [{ role := .assistant, content := content }]

theorem messages_onError (completed : Bool) (st : ChatStore) (message : String) :
    (onError completed st message).messages = st.messages := by
  unfold onError
  split
  · rfl
  · rfl

theorem messages_onRejected (completed : Bool) (st : ChatStore) (isAbort : Bool) (message : String) :
    (onRejected completed st isAbort message).messages = st.messages
      ∨ (completed = false ∧ ∃ content, (onRejected completed st isAbort message).messages
        = st.messages ++ [{ role := .assistant, content := content }]) := by
  unfold onRejected
  cases completed with
  | true => exact .inl rfl
  | false =>
    rw [if_neg Bool.false_ne_true]
    split
    · exact .inr ⟨rfl, _, rfl⟩
    · exact .inl rfl

theorem messages_onStreamEnd (completed : Bool) (st : ChatStore) :
    (onStreamEnd completed st).messages = st.messages
      ∨ (completed = false ∧ ∃ content, (onStreamEnd completed st).messages
        = st.messages ++ [{ role := .assistant, content := content }]) := by
  unfold onStreamEnd
  cases completed with
  | true => exact .inl rfl
  | false =>
    rw [if_neg Bool.false_ne_true]
    split
    · exact .inr ⟨rfl, _, rfl⟩
    · exact .inl rfl

theorem messages_apply (st : ChatStore) (e : StreamEvent) :
    (e.apply st).messages = st.messages
      ∨ (e.completes = true ∧ ∃ content, (e.apply st).messages
        = st.messages ++ [{ role := .assistant, content := content }]) := by
  cases e with
  | runStarted => exact .inl rfl
  | chunk content => exact .inl rfl
  | toolCall id name arguments => exact .inl rfl
  | toolResult id isError result => exact .inl rfl
  | runCompleted content => exact .inr ⟨rfl, _, rfl⟩
  | runFailed error => exact .inl rfl

/-- What a continuation does to the messages. -/
theorem messages_effect (run : ChatRun) (st : ChatStore) (c : Continuation) :
    (c.effect run st).messages = st.messages ∨ Appends run st c := by
  have hrejected : ∀ isAbort message,
      (onRejected run.completed st isAbort message).messages = st.messages
        ∨ (run.completed = false ∧ ∃ content, (onRejected run.completed st isAbort message).messages
          = st.messages ++ [{ role := .assistant, content := content }]) :=
    messages_onRejected run.completed st
  cases c with
  | response => exact .inl rfl
  | noBody => exact .inl (messages_onError _ _ _)
  | notOk status statusText body =>
    exact (hrejected _ _).imp id fun h => ⟨h.1, .inl rfl, h.2⟩
  | fetchFailed message => exact (hrejected _ _).imp id fun h => ⟨h.1, .inl rfl, h.2⟩
  | abortRejected => exact (hrejected _ _).imp id fun h => ⟨h.1, .inl rfl, h.2⟩
  | event e =>
    unfold Appends
    show (if run.completed then st else e.apply st).messages = _ ∨ _ ∧ _ ∧ ∃ content,
      (if run.completed then st else e.apply st).messages = _
    cases hcompleted : run.completed with
    | true => exact .inl rfl
    | false =>
      refine (messages_apply st e).imp id fun h => ⟨rfl, .inr ?_, h.2⟩
      show (run.completed || e.completes) = true
      rw [hcompleted, h.1, Bool.or_true]
  | streamError message => exact .inl (messages_onError _ _ _)
  | streamEnd => exact (messages_onStreamEnd _ _).imp id fun h => ⟨h.1, .inl rfl, h.2⟩

/-! ## The invariant -/

/-- A run of a store that shows a conversation: one that has answered is
over; one that nothing newer has come after is of this conversation; and
of this conversation it has its user message in its place. -/
structure ChatRun.Inv (run : ChatRun) (conversation : Nat) (messages : List ChatMessage) : Prop where
  once : run.answers.length ≤ 1
  own : ∀ c ∈ run.answers, c = run.conversation
  ended : run.answers ≠ [] → run.completed = true ∨ run.stage = .done
  current : run.superseded = false → run.conversation = conversation
  past : run.conversation ≤ conversation
  shown : run.conversation = conversation →
    messages[run.place]? = some { role := .user, content := run.text }

def ChatState.Inv (s : ChatState) : Prop :=
  ∀ run ∈ s.runs, run.Inv s.conversation s.store.messages

theorem ChatState.Inv.answered {s : ChatState} (h : s.Inv) : s.Answered := by
  constructor
  · intro run hrun
    exact (h run hrun).once
  · intro run hrun
    exact (h run hrun).own
  · intro run hrun
    exact (h run hrun).shown

theorem ChatRun.Inv.supersede {run : ChatRun} {conversation : Nat} {messages : List ChatMessage}
    (h : run.Inv conversation messages) : { run with superseded := true }.Inv conversation messages :=
  { h with current := fun hno => absurd hno.symm Bool.false_ne_true }

theorem ChatRun.Inv.abort {run : ChatRun} {conversation : Nat} {messages : List ChatMessage}
    (h : run.Inv conversation messages) : { run with aborted := true }.Inv conversation messages :=
  { h with }

theorem ChatRun.Inv.append {run : ChatRun} {conversation : Nat} {messages : List ChatMessage}
    (h : run.Inv conversation messages) (more : List ChatMessage) :
    run.Inv conversation (messages ++ more) := by
  exact { h with shown := fun heq => getElem?_append_of_some (h.shown heq) more }

/-- A new conversation, after every run. -/
theorem ChatRun.Inv.leave {run : ChatRun} {conversation : Nat} {messages : List ChatMessage}
    (h : run.Inv conversation messages) (msgs : List ChatMessage) :
    { run with superseded := true }.Inv (conversation + 1) msgs := by
  have hpast : run.conversation ≤ conversation := h.past
  refine { h with current := ?_, past := ?_, shown := ?_ }
  · intro hno
    exact absurd hno.symm Bool.false_ne_true
  · show run.conversation ≤ conversation + 1
    omega
  · intro heq
    have hshow : run.conversation = conversation + 1 := heq
    omega

/-! ## Steps -/

theorem ChatState.mem_abort {s : ChatState} {run : ChatRun} (h : run ∈ s.abort) :
    run ∈ s.runs ∨ ∃ old ∈ s.runs, run = { old with aborted := true } := by
  unfold abort at h
  split at h
  · exact .inl h
  · rename_i i hcontroller
    obtain ⟨j, hj⟩ := List.getElem?_of_mem h
    rw [List.getElem?_modify] at hj
    obtain ⟨old, hold, hrun⟩ := Option.map_eq_some_iff.mp hj
    have hmem := List.mem_of_getElem? hold
    split at hrun
    · exact .inr ⟨old, hmem, hrun.symm⟩
    · exact .inl (hrun ▸ hmem)

namespace ChatState

variable {s : ChatState}

theorem Inv.abort (h : s.Inv) : ∀ run ∈ s.abort, run.Inv s.conversation s.store.messages := by
  intro run hrun
  rcases mem_abort hrun with hold | ⟨old, hold, rfl⟩
  · exact h run hold
  · exact (h old hold).abort

theorem Inv.sendMessage (h : s.Inv) (text : String) : (s.sendMessage text).Inv := by
  intro run hrun
  rcases List.mem_append.mp hrun with hold | hnew
  · obtain ⟨old, hmem, rfl⟩ := List.mem_map.mp hold
    exact ((h old hmem).supersede).append _
  · rw [List.mem_singleton.mp hnew]
    refine ⟨Nat.zero_le 1, ?_, ?_, fun _ => rfl, Nat.le_refl _, fun _ => ?_⟩
    · intro c hc
      cases hc
    · intro hne
      exact absurd rfl hne
    · exact List.getElem?_concat_length

theorem Inv.reset (h : s.Inv) : s.reset.Inv := by
  intro run hrun
  obtain ⟨old, hmem, rfl⟩ := List.mem_map.mp hrun
  exact (h.abort old hmem).leave _

theorem Inv.setMessages (h : s.Inv) (msgs : List ChatMessage) : (s.setMessages msgs).Inv := by
  intro run hrun
  obtain ⟨old, hmem, rfl⟩ := List.mem_map.mp hrun
  exact (h old hmem).leave _

/-- A continuation that can arrive finds its run not done. -/
theorem stage_ne_done {run : ChatRun} {c : Continuation} (henabled : c.enabled run = true) :
    run.stage ≠ .done := by
  intro hdone
  cases c <;> simp [Continuation.enabled, hdone] at henabled

theorem completedAfter_of_completed {run : ChatRun} (c : Continuation) (h : run.completed = true) :
    c.completedAfter run = true := by
  cases c with
  | event e => exact Bool.or_eq_true_iff.mpr (.inl h)
  | _ => exact h

/-- A run after a continuation that leaves the messages. -/
theorem after_inv_of_same {run : ChatRun} {c : Continuation} {messages : List ChatMessage}
    {conversation : Nat} {st st' : ChatStore} (h : run.Inv conversation messages)
    (henabled : c.enabled run = true) (hsame : st'.messages = st.messages) :
    (run.after c conversation st st').Inv conversation messages := by
  have hanswers : (run.after c conversation st st').answers = run.answers := by
    unfold ChatRun.after
    dsimp only
    rw [hsame, if_neg (Nat.lt_irrefl _)]
  refine ⟨?_, ?_, ?_, h.current, h.past, h.shown⟩
  · rw [hanswers]
    exact h.once
  · rw [hanswers]
    exact h.own
  · rw [hanswers]
    intro hne
    rcases h.ended hne with hcompleted | hdone
    · exact .inl (completedAfter_of_completed c hcompleted)
    · exact absurd hdone (stage_ne_done henabled)

/-- A run after a continuation that appends its answer. -/
theorem after_inv_of_appends {run : ChatRun} {c : Continuation} {conversation : Nat} {st : ChatStore}
    (h : run.Inv conversation st.messages) (henabled : c.enabled run = true) (happends : Appends run st c)
    (hcurrent : run.conversation = conversation) :
    (run.after c conversation st (c.effect run st)).Inv conversation (c.effect run st).messages := by
  obtain ⟨hcompleted, hover, content, hmessages⟩ := happends
  have hnone : run.answers = [] := by
    by_contra hne
    rcases h.ended hne with htrue | hdone
    · exact Bool.false_ne_true (hcompleted.symm.trans htrue)
    · exact stage_ne_done henabled hdone
  have hanswers : (run.after c conversation st (c.effect run st)).answers = [conversation] := by
    unfold ChatRun.after
    dsimp only
    rw [hmessages, hnone, if_pos (by simp)]
    rfl
  refine ⟨?_, ?_, ?_, h.current, h.past, ?_⟩
  · rw [hanswers]
    exact Nat.le_refl 1
  · rw [hanswers]
    intro a ha
    rw [List.mem_singleton.mp ha]
    exact hcurrent.symm
  · intro _
    exact hover.symm
  · rw [hmessages]
    exact (h.append _).shown

/-- The store after a continuation. -/
theorem store_resume {i : Nat} {c : Continuation} {run : ChatRun} (hrun : s.runs[i]? = some run)
    (henabled : c.enabled run = true) : (s.resume i c).store = c.effect run s.store := by
  unfold resume
  rw [hrun]
  dsimp only
  rw [if_pos henabled]

theorem Inv.resume (h : s.Inv) {i : Nat} {c : Continuation}
    (hcareful : s.Careful (.continuation i c)) : (s.resume i c).Inv := by
  unfold ChatState.resume
  cases hrun : s.runs[i]? with
  | none => exact h
  | some run =>
    dsimp only
    by_cases henabled : c.enabled run = true
    · rw [if_pos henabled]
      have hinv := h run (List.mem_of_getElem? hrun)
      rcases messages_effect run s.store c with hsame | happends
      · intro other hother
        show other.Inv s.conversation (c.effect run s.store).messages
        rw [hsame]
        rcases List.mem_or_eq_of_mem_set hother with hold | rfl
        · exact h other hold
        · exact after_inv_of_same hinv henabled hsame
      · have hcurrent : run.conversation = s.conversation := by
          refine hinv.current ?_
          cases hsuperseded : run.superseded with
          | false => rfl
          | true =>
            have hquiet := hcareful run hrun hsuperseded henabled
            obtain ⟨_, _, content, hmessages⟩ := happends
            rw [(c.effect_eq_iff run s.store).mpr hquiet] at hmessages
            exact absurd hmessages.symm (append_singleton_ne _ _)
        intro other hother
        show other.Inv s.conversation (c.effect run s.store).messages
        rcases List.mem_or_eq_of_mem_set hother with hold | rfl
        · obtain ⟨_, _, content, hmessages⟩ := happends
          rw [hmessages]
          exact (h other hold).append _
        · exact after_inv_of_appends hinv henabled happends hcurrent
    · rw [if_neg henabled]
      exact h

theorem Inv.step (h : s.Inv) {event : ChatEvent} (hcareful : s.Careful event) : (s.step event).Inv := by
  cases event with
  | sendMessage text => exact h.sendMessage text
  | stopStreaming => exact h.abort
  | reset => exact h.reset
  | setMessages msgs => exact h.setMessages msgs
  | continuation i c => exact h.resume hcareful

/-- A step disturbs a superseded run's successor unless it is careful. -/
theorem undisturbed_iff (s : ChatState) (event : ChatEvent) : s.Undisturbed event ↔ s.Careful event := by
  cases event with
  | sendMessage text => exact Iff.rfl
  | stopStreaming => exact Iff.rfl
  | reset => exact Iff.rfl
  | setMessages msgs => exact Iff.rfl
  | continuation i c =>
    constructor
    · intro h run hrun hsuperseded henabled
      have hstore := h run hrun hsuperseded
      rw [store_resume hrun henabled] at hstore
      exact (c.effect_eq_iff run s.store).mp hstore
    · intro h run hrun hsuperseded
      by_cases henabled : c.enabled run = true
      · rw [store_resume hrun henabled]
        exact (c.effect_eq_iff run s.store).mpr (h run hrun hsuperseded henabled)
      · unfold resume
        rw [hrun]
        dsimp only
        rw [if_neg henabled]

end ChatState

/-! ## Runs of the store -/

end LendingClaw.Ui
