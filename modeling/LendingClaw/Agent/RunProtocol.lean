/-
LendingClaw.Agent.RunProtocol — the protocol that the events of a run
follow.

`RunPhase` is the abstract model: a run starts, streams chunks, announces
the tool calls of a response all before their results, and gives the
results in the order of the calls; after the last one it goes on, or it
ends. A run may end completed, not failed, with results missing: that is
the stop of the tool loop guard.

`run_protocol` says that the events of every run are accepted, and that
the last one tells what the run has returned and flushed.
-/
import LendingClaw.Agent.Run
import Mathlib.Data.List.Basic

namespace LendingClaw.Agent

open LendingClaw.Providers LendingClaw.Lib

/-! ## The protocol -/

/-- Where a run is: `calling` and `answering` have the ids of the calls
without a result, and no further call comes after the first result. -/
inductive RunPhase where
  | idle
  | running
  | calling (ids : List String)
  | answering (ids : List String)
  | closed
  deriving DecidableEq

namespace RunPhase

/-- The phase with some calls left to answer. -/
def left : List String → RunPhase
  | [] => running
  | id :: ids => answering (id :: ids)

/-- A result answers the first open call. -/
def answer (event : AgentEvent) : List String → Option RunPhase
  | [] => none
  | id :: ids => if event.toolID = some id then some (left ids) else none

def next : RunPhase → AgentEvent → Option RunPhase
  | idle, event => if event.type = .runStarted then some running else none
  | running, event =>
    match event.type with
    | .chunk => some running
    | .toolCall => event.toolID.map fun id => calling [id]
    | .runCompleted => some closed
    | .runFailed => some closed
    | _ => none
  | calling ids, event =>
    match event.type with
    | .toolCall => event.toolID.map fun id => calling (ids ++ [id])
    | .toolResult => answer event ids
    | _ => none
  | answering ids, event =>
    match event.type with
    | .toolResult => answer event ids
    | .runCompleted => some closed
    | _ => none
  | closed, _ => none

/-- The phase that some events lead to, if they follow the protocol. -/
def after (phase : RunPhase) (events : List AgentEvent) : Option RunPhase :=
  events.foldlM next phase

@[simp] theorem after_nil (phase : RunPhase) : phase.after [] = some phase := rfl

theorem after_cons (phase : RunPhase) (event : AgentEvent) (events : List AgentEvent) :
    phase.after (event :: events) = (phase.next event).bind fun p => p.after events := rfl

theorem after_append (phase : RunPhase) (events more : List AgentEvent) :
    phase.after (events ++ more) = (phase.after events).bind fun p => p.after more := by
  simp only [after, List.foldlM_append]
  rfl

/-- Events that lead on, one stretch after the other. -/
theorem after_trans {p q r : RunPhase} {events more : List AgentEvent}
    (h : p.after events = some q) (hmore : q.after more = some r) :
    p.after (events ++ more) = some r := by
  rw [after_append, h]
  exact hmore

/-- Nothing follows the end of a run. -/
theorem ne_closed_of_after {p q : RunPhase} {events : List AgentEvent} (h : p.after events = some q)
    (hq : q ≠ closed) : p ≠ closed := by
  intro hclosed
  subst hclosed
  cases events with
  | nil => exact hq (Option.some.inj h).symm
  | cons event events => cases h

theorem eq_closed_of_terminal {p q : RunPhase} {event : AgentEvent} (h : p.next event = some q)
    (hterminal : event.type.terminal = true) : q = closed := by
  have htype : event.type = .runCompleted ∨ event.type = .runFailed := by
    cases htype : event.type <;> simp_all [EventType.terminal]
  cases p with
  | running => rcases htype with htype | htype <;> simp_all [next]
  | answering ids => rcases htype with htype | htype <;> simp_all [next]
  | _ => rcases htype with htype | htype <;> simp [next, htype] at h

/-- Before the end of a run no event is a terminal one. -/
theorem not_terminal {p q : RunPhase} {events : List AgentEvent} (h : p.after events = some q)
    (hq : q ≠ closed) : ∀ event ∈ events, event.type.terminal = false := by
  induction events generalizing p with
  | nil => simp
  | cons event events ih =>
    rw [after_cons, Option.bind_eq_some_iff] at h
    obtain ⟨p', hnext, hrest⟩ := h
    intro e he
    rcases List.mem_cons.mp he with rfl | he
    · rw [Bool.eq_false_iff]
      exact fun hterminal => ne_closed_of_after hrest hq (eq_closed_of_terminal hnext hterminal)
    · exact ih hrest e he

/-- The ids of the calls without a result. -/
def unanswered : RunPhase → List String
  | calling ids => ids
  | answering ids => ids
  | _ => []

theorem unanswered_left (ids : List String) : (left ids).unanswered = ids := by
  cases ids <;> rfl

/-- A call announces its id. -/
theorem mem_unanswered_of_call {p q : RunPhase} {event : AgentEvent} (h : p.next event = some q)
    (hcall : event.type = .toolCall) {id : String} (hid : event.toolID = some id) :
    id ∈ q.unanswered := by
  cases p with
  | running =>
    rw [next, hcall, hid] at h
    obtain rfl := Option.some.inj h
    exact List.mem_singleton_self id
  | calling ids =>
    rw [next, hcall, hid] at h
    obtain rfl := Option.some.inj h
    exact List.mem_append_right _ (List.mem_singleton_self id)
  | _ => simp [next, hcall] at h

/-- A call stays open until a result of its id, or the end. -/
theorem mem_unanswered_next {p q : RunPhase} {event : AgentEvent} (h : p.next event = some q)
    (hq : q ≠ closed) {id : String} (hid : id ∈ p.unanswered)
    (hno : ¬ (event.type = .toolResult ∧ event.toolID = some id)) : id ∈ q.unanswered := by
  have hanswer : ∀ ids, id ∈ ids → event.type = .toolResult → answer event ids = some q →
      id ∈ q.unanswered := by
    intro ids hmem htype hans
    cases ids with
    | nil => cases hmem
    | cons first ids =>
      rw [answer] at hans
      split at hans
      · rename_i hfirst
        obtain rfl := Option.some.inj hans
        rw [unanswered_left]
        rcases List.mem_cons.mp hmem with rfl | hmem
        · exact absurd ⟨htype, hfirst⟩ hno
        · exact hmem
      · cases hans
  cases p with
  | calling ids =>
    cases htype : event.type with
    | toolCall =>
      rw [next, htype] at h
      obtain ⟨new, -, rfl⟩ := Option.map_eq_some_iff.mp h
      exact List.mem_append_left _ hid
    | toolResult =>
      rw [next, htype] at h
      exact hanswer ids hid htype h
    | _ => simp [next, htype] at h
  | answering ids =>
    cases htype : event.type with
    | toolResult =>
      rw [next, htype] at h
      exact hanswer ids hid htype h
    | runCompleted =>
      rw [next, htype] at h
      exact absurd (Option.some.inj h).symm hq
    | _ => simp [next, htype] at h
  | _ => cases hid

theorem mem_unanswered_after {p q : RunPhase} {events : List AgentEvent}
    (h : p.after events = some q) (hq : q ≠ closed) {id : String} (hid : id ∈ p.unanswered)
    (hno : ∀ event ∈ events, ¬ (event.type = .toolResult ∧ event.toolID = some id)) :
    id ∈ q.unanswered := by
  induction events generalizing p with
  | nil =>
    obtain rfl := Option.some.inj h
    exact hid
  | cons event events ih =>
    rw [after_cons, Option.bind_eq_some_iff] at h
    obtain ⟨p', hnext, hrest⟩ := h
    have hopen := ne_closed_of_after hrest hq
    exact ih hrest (mem_unanswered_next hnext hopen hid (hno event List.mem_cons_self))
      fun e he => hno e (List.mem_cons_of_mem _ he)

/-- A call without a later result is open at the end. -/
theorem call_answered {p q : RunPhase} {before later : List AgentEvent} {call : AgentEvent}
    (h : p.after (before ++ call :: later) = some q) (hq : q ≠ closed)
    (hcall : call.type = .toolCall) {id : String} (hid : call.toolID = some id) :
    id ∈ q.unanswered ∨ ∃ event ∈ later, event.type = .toolResult ∧ event.toolID = some id := by
  rw [after_append, Option.bind_eq_some_iff] at h
  obtain ⟨p', -, hcalled⟩ := h
  rw [after_cons, Option.bind_eq_some_iff] at hcalled
  obtain ⟨p'', hnext, hrest⟩ := hcalled
  by_cases hresult : ∃ event ∈ later, event.type = .toolResult ∧ event.toolID = some id
  · exact .inr hresult
  · refine .inl (mem_unanswered_after hrest hq (mem_unanswered_of_call hnext hcall hid) ?_)
    exact fun event he hboth => hresult ⟨event, he, hboth⟩

theorem left_ne_closed (ids : List String) : left ids ≠ closed := by
  cases ids <;> simp [left]

end RunPhase

/-! ## The events of an iteration -/

section
variable {a : AgentLoop} {req : RunRequest} {args : Arguments → Lib.Json}

@[simp] theorem toolID_callEvent (tc : ToolCall) :
    (callEvent a req args tc).toolID = some tc.id := by
  simp [callEvent, AgentEvent.toolCall, AgentEvent.toolID, Lib.Json.field, Lib.Json.text?]

@[simp] theorem toolID_resultEvent (tc : ToolCall) (isError : Bool) (forLLM : String) :
    (resultEvent a req tc isError forLLM).toolID = some tc.id := by
  simp [resultEvent, AgentEvent.toolResult, AgentEvent.toolID, Lib.Json.field, Lib.Json.text?]

theorem after_chunkEvents (reply : Reply) :
    RunPhase.running.after (chunkEvents a req reply) = some .running := by
  rw [chunkEvents]
  split
  · generalize reply.chunks.filter (fun content => content ≠ "") = chunks
    induction chunks with
    | nil => rfl
    | cons content chunks ih =>
      rw [List.map_cons, RunPhase.after_cons]
      exact ih
  · rfl

theorem after_callEvents (ids : List String) (calls : List ToolCall) :
    (RunPhase.calling ids).after (calls.map (callEvent a req args))
      = some (.calling (ids ++ calls.map ToolCall.id)) := by
  induction calls generalizing ids with
  | nil => simp
  | cons tc calls ih =>
    have hnext : (RunPhase.calling ids).next (callEvent a req args tc)
        = some (.calling (ids ++ [tc.id])) := by
      show ((callEvent a req args tc).toolID.map fun id => RunPhase.calling (ids ++ [id])) = _
      rw [toolID_callEvent]
      rfl
    rw [List.map_cons, RunPhase.after_cons, hnext, Option.bind_some, ih]
    simp

/-- The announcement of the calls of a response. -/
theorem after_announced {calls : List ToolCall} (hne : calls ≠ []) :
    RunPhase.running.after (calls.map (callEvent a req args))
      = some (.calling (calls.map ToolCall.id)) := by
  cases calls with
  | nil => exact absurd rfl hne
  | cons tc calls =>
    have hnext : RunPhase.running.next (callEvent a req args tc) = some (.calling [tc.id]) := by
      show ((callEvent a req args tc).toolID.map fun id => RunPhase.calling [id]) = _
      rw [toolID_callEvent]
      rfl
    rw [List.map_cons, RunPhase.after_cons, hnext, Option.bind_some, after_callEvents]
    rfl

/-- A phase with the calls open, before or between their results. -/
def Open (ids : List String) (phase : RunPhase) : Prop :=
  phase = .calling ids ∨ phase = .answering ids

theorem Open.next {ids : List String} {tc : ToolCall} {phase : RunPhase}
    (h : Open (tc.id :: ids) phase) (a : AgentLoop) (req : RunRequest) (isError : Bool)
    (forLLM : String) : phase.next (resultEvent a req tc isError forLLM) = some (.left ids) := by
  have hanswer : RunPhase.answer (resultEvent a req tc isError forLLM) (tc.id :: ids)
      = some (.left ids) := by
    simp [RunPhase.answer]
  rcases h with rfl | rfl
  · exact hanswer
  · exact hanswer

/-- The results of some calls: all of them, unless the guard stops. -/
theorem after_resultEvents (a : AgentLoop) (req : RunRequest) (reply : Reply)
    {calls : List ToolCall} (idx : Nat) (s : ToolLoopState) {phase : RunPhase} (hne : calls ≠ [])
    (hopen : Open (calls.map ToolCall.id) phase) :
    ∃ ids, phase.after (resultEvents a req reply calls idx s) = some (.left ids)
      ∧ ((collect a.hashes reply.turn.forLLM calls idx s).critical = none → ids = []) := by
  induction calls generalizing idx s phase with
  | nil => exact absurd rfl hne
  | cons tc calls ih =>
    have hnext := hopen.next a req (reply.isError idx) (reply.turn.forLLM idx)
    -- the results of the calls after the first, if the guard lets the loop come to them
    have hrest : ∃ ids, (RunPhase.left (calls.map ToolCall.id)).after
          (resultEvents a req reply calls (idx + 1) (s.observe a.hashes tc (reply.turn.forLLM idx)))
          = some (.left ids)
        ∧ ((collect a.hashes reply.turn.forLLM calls (idx + 1)
          (s.observe a.hashes tc (reply.turn.forLLM idx))).critical = none → ids = []) := by
      cases calls with
      | nil => exact ⟨[], rfl, fun _ => rfl⟩
      | cons next calls => exact ih _ _ (List.cons_ne_nil _ _) (.inr rfl)
    obtain ⟨ids, hafter, hids⟩ := hrest
    rw [resultEvents, collect]
    cases hdetect : s.detectCall a.hashes tc (reply.turn.forLLM idx) with
    | none =>
      refine ⟨ids, ?_, hids⟩
      rw [RunPhase.after_cons, hnext]
      exact hafter
    | some detected =>
      obtain ⟨level, msg⟩ := detected
      cases level with
      | critical =>
        refine ⟨calls.map ToolCall.id, ?_, by simp⟩
        rw [RunPhase.after_cons, hnext]
        rfl
      | warning =>
        refine ⟨ids, ?_, hids⟩
        rw [RunPhase.after_cons, hnext]
        exact hafter

/-- The branches on the number of calls emit the same. -/
theorem executeEvents_eq (reply : Reply) (s : ToolLoopState) (calls : List ToolCall) :
    executeEvents a req args reply s calls
      = calls.map (callEvent a req args) ++ resultEvents a req reply calls 0 s := by
  match calls with
  | [] => rfl
  | [tc] =>
    rw [executeEvents, resultEvents]
    cases s.detectCall a.hashes tc (reply.turn.forLLM 0) with
    | none => rfl
    | some detected =>
      obtain ⟨level, msg⟩ := detected
      cases level <;> rfl
  | tc :: next :: rest => rfl

theorem after_executeEvents (a : AgentLoop) (req : RunRequest) (args : Arguments → Lib.Json)
    (reply : Reply) {calls : List ToolCall} (s : ToolLoopState)
    (hne : calls ≠ []) :
    ∃ ids, RunPhase.running.after (executeEvents a req args reply s calls) = some (.left ids)
      ∧ ((a.execute s reply.turn.forLLM calls).critical = none → ids = []) := by
  obtain ⟨ids, hafter, hids⟩ := after_resultEvents a req reply 0 s hne (.inl rfl)
  refine ⟨ids, ?_, ?_⟩
  · rw [executeEvents_eq]
    exact RunPhase.after_trans (after_announced hne) hafter
  · rw [execute_eq]
    exact hids

/-! ## Runs -/

/-- The phase that the state of the loop stands for. -/
def InPhase (st : LoopState) (ids : List String) : Prop :=
  match st.ended with
  | none => ids = []
  | some (.error _) => ids = []
  | some (.ok _) => True

/-- An iteration keeps to the protocol. -/
theorem after_iterationEvents (a : AgentLoop) (req : RunRequest) (args : Arguments → Lib.Json)
    {st : LoopState} (hended : st.ended = none) (reply : Reply) :
    ∃ ids, RunPhase.running.after (iterationEvents a req args st reply) = some (.left ids)
      ∧ InPhase (a.iterate st reply.turn) ids := by
  rw [iterationEvents, hended]
  dsimp only
  cases hresp : reply.turn.resp with
  | error err =>
    obtain ⟨text, heq⟩ := iterate_error (l := a.toLoop) hended hresp
    refine ⟨[], RunPhase.after_trans (after_chunkEvents reply) rfl, ?_⟩
    rw [heq]
    rfl
  | ok resp =>
    dsimp only
    by_cases hnil : resp.toolCalls = []
    · rw [if_pos hnil, iterate_ok hended hresp, Loop.act, if_pos hnil]
      exact ⟨[], RunPhase.after_trans (after_chunkEvents reply) rfl, trivial⟩
    · obtain ⟨ids, hafter, hids⟩ := after_executeEvents a req args reply
        st.loopDetector hnil
      rw [if_neg hnil]
      refine ⟨ids, RunPhase.after_trans (after_chunkEvents reply) hafter, ?_⟩
      rw [InPhase, (iterate_calls hended hresp hnil).2.2]
      cases hcritical : (a.execute st.loopDetector reply.turn.forLLM resp.toolCalls).critical with
      | none => exact hids hcritical
      | some msg => trivial

/-- What a run emits. -/
inductive Emission (a : AgentLoop) (req : RunRequest) (args : Arguments → Lib.Json) : AgentEvent → Prop where
  | started : Emission a req args (runStarted a req)
  | chunk (content : String) : Emission a req args (.chunk a.id req.runID content)
  | call (tc : ToolCall) : Emission a req args (callEvent a req args tc)
  | result (tc : ToolCall) (isError : Bool) (forLLM : String) :
      Emission a req args (resultEvent a req tc isError forLLM)
  | terminal (result : Except String RunResult) : Emission a req args (terminalEvent a req result)

theorem Emission.own {event : AgentEvent} (h : Emission a req args event) :
    event.agentID = a.id ∧ event.runID = req.runID := by
  cases h with
  | started => exact ⟨rfl, rfl⟩
  | chunk content => exact ⟨rfl, rfl⟩
  | call tc => exact ⟨rfl, rfl⟩
  | result tc isError forLLM => exact ⟨rfl, rfl⟩
  | terminal result => cases result <;> exact ⟨rfl, rfl⟩

theorem emission_of_mem_resultEvents {reply : Reply} {calls : List ToolCall} {idx : Nat}
    {s : ToolLoopState} {event : AgentEvent} (h : event ∈ resultEvents a req reply calls idx s) :
    Emission a req args event := by
  induction calls generalizing idx s with
  | nil => cases h
  | cons tc calls ih =>
    rw [resultEvents, List.mem_cons] at h
    rcases h with rfl | h
    · exact .result tc _ _
    · split at h
      · cases h
      · exact ih h

theorem emission_of_mem {st : LoopState} {reply : Reply} {event : AgentEvent}
    (h : event ∈ iterationEvents a req args st reply) : Emission a req args event := by
  rw [iterationEvents] at h
  split at h
  · cases h
  · rcases List.mem_append.mp h with h | h
    · rw [chunkEvents] at h
      split at h
      · obtain ⟨content, -, rfl⟩ := List.mem_map.mp h
        exact .chunk content
      · cases h
    · split at h
      · cases h
      · split at h
        · cases h
        · rw [executeEvents_eq, List.mem_append] at h
          rcases h with h | h
          · obtain ⟨tc, -, rfl⟩ := List.mem_map.mp h
            exact .call tc
          · exact emission_of_mem_resultEvents h

/-- The events so far follow the protocol, and are of this run. -/
structure Running.Inv (a : AgentLoop) (req : RunRequest) (args : Arguments → Lib.Json) (s : Running) :
    Prop where
  accepted : ∃ ids, RunPhase.idle.after s.events = some (.left ids) ∧ InPhase s.st ids
  emissions : ∀ event ∈ s.events, Emission a req args event

theorem Running.Inv.start (r : RunInput) : (Running.start a req r).Inv a req args where
  accepted := ⟨[], rfl, rfl⟩
  emissions := by
    intro event h
    rw [List.mem_singleton.mp h]
    exact .started

theorem Running.Inv.step {s : Running} (h : s.Inv a req args) (reply : Reply) :
    (s.step a req args reply).Inv a req args := by
  rw [Running.step]
  cases hended : s.st.ended with
  | some result => exact h
  | none =>
    obtain ⟨ids, hafter, hphase⟩ := h.accepted
    rw [InPhase, hended] at hphase
    obtain rfl : ids = [] := hphase
    obtain ⟨ids', hafter', hphase'⟩ :=
      after_iterationEvents a req args hended reply
    refine { accepted := ⟨ids', RunPhase.after_trans hafter hafter', hphase'⟩, emissions := ?_ }
    intro event hevent
    rcases List.mem_append.mp hevent with hevent | hevent
    · exact h.emissions event hevent
    · exact emission_of_mem hevent

/-- The state of the loop after the run. -/
theorem Running.st_run (s : Running) (rs : List Reply) :
    (Lib.run (Running.step a req args) s rs).st = Lib.run a.iterate s.st (rs.map Reply.turn) := by
  induction rs generalizing s with
  | nil => rfl
  | cons reply rs ih =>
    rw [Lib.run_cons, ih, List.map_cons, Lib.run_cons, Running.step]
    cases hended : s.st.ended with
    | some result =>
      dsimp only
      rw [iterate_ended (by rw [hended]; exact Option.some_ne_none _)]
    | none => rfl

/-- The last event closes the run. -/
theorem Running.next_terminalEvent {s : Running} {ids : List String} (h : InPhase s.st ids)
    (title : String) :
    (RunPhase.left ids).next (terminalEvent a req (s.result a req title)) = some .closed := by
  have hcompleted : ∀ result, (RunPhase.left ids).next (terminalEvent a req (.ok result))
      = some .closed := by
    intro result
    cases ids <;> rfl
  rw [InPhase] at h
  rw [Running.result]
  cases hended : s.st.ended with
  | none => exact hcompleted _
  | some result =>
    rw [hended] at h
    cases result with
    | ok content => exact hcompleted _
    | error err =>
      obtain rfl : ids = [] := h
      rfl

end

/-- What a run returns is what it has told and flushed: a failed run
flushes nothing, any other one ends its flushed messages with the content
of its result. -/
def Ran.Consistent (a : AgentLoop) (req : RunRequest) (ran : Ran) : Prop :=
  ran.events.getLast? = some (terminalEvent a req ran.result)
    ∧ match ran.result with
      | .error _ => ran.flushed = none
      | .ok result => ∃ turn, ran.flushed = some (turn ++ [textMessage .assistant result.content])

theorem Running.consistent {a : AgentLoop} {req : RunRequest} (s : Running) (title : String) :
    Ran.Consistent a req
      { events := s.events ++ [terminalEvent a req (s.result a req title)]
        result := s.result a req title
        flushed := a.flushed s.st } := by
  refine ⟨List.getLast?_concat, ?_⟩
  simp only [Running.result, Loop.flushed]
  cases hended : s.st.ended with
  | none => exact ⟨_, rfl⟩
  | some result =>
    cases result with
    | error err => rfl
    | ok content => exact ⟨_, rfl⟩

section
variable (a : AgentLoop) (req : RunRequest) (args : Arguments → Lib.Json) (r : RunInput)
  (env : Nat → Reply) (title : String)

/-- The events of a run lead up to a phase of the protocol in which it
may end, and the terminal event of its result ends it. -/
theorem run_events :
    ∃ events ids, (a.run req args r env title).events
        = events ++ [terminalEvent a req (a.run req args r env title).result]
      ∧ RunPhase.idle.after events = some (.left ids)
      ∧ (RunPhase.left ids).next (terminalEvent a req (a.run req args r env title).result)
        = some .closed
      ∧ ∀ event ∈ events, Emission a req args event := by
  rw [AgentLoop.run]
  by_cases hrejects : a.rejects (a.truncate req.message) = true
  · simp only [hrejects, if_true]
    refine ⟨[runStarted a req], [], rfl, rfl, rfl, ?_⟩
    intro event h
    rw [List.mem_singleton.mp h]
    exact .started
  · simp only [hrejects]
    have hinv : (Lib.run (Running.step a req args)
        (Running.start a req { r with message := a.truncate req.message })
        (replies env a.maxIterations)).Inv a req args :=
      Lib.inv_run_of_step (Running.Inv a req args) (fun _ reply h => h.step reply) _ _
        (Running.Inv.start _)
    obtain ⟨ids, hafter, hphase⟩ := hinv.accepted
    exact ⟨_, ids, rfl, hafter, Running.next_terminalEvent hphase title, hinv.emissions⟩

theorem run_emissions :
    ∀ event ∈ (a.run req args r env title).events, Emission a req args event := by
  obtain ⟨events, ids, hevents, -, -, hemissions⟩ := run_events a req args r env title
  intro event h
  rw [hevents, List.mem_append] at h
  rcases h with h | h
  · exact hemissions event h
  · rw [List.mem_singleton.mp h]
    exact .terminal _

theorem run_consistent : (a.run req args r env title).Consistent a req := by
  rw [AgentLoop.run]
  by_cases hrejects : a.rejects (a.truncate req.message) = true
  · simp only [hrejects, if_true]
    exact ⟨rfl, rfl⟩
  · simp only [hrejects]
    exact Running.consistent _ title

/-- Whatever the provider and the tools answer, streamed or not: the
events of a run follow the protocol to its end, are all of this run, and
the last one tells what the run returns and flushes. -/
theorem run_protocol :
    RunPhase.idle.after (a.run req args r env title).events = some .closed
      ∧ (∀ event ∈ (a.run req args r env title).events,
        event.agentID = a.id ∧ event.runID = req.runID)
      ∧ (a.run req args r env title).Consistent a req := by
  obtain ⟨events, ids, hevents, hafter, hnext, -⟩ := run_events a req args r env title
  refine ⟨?_, ?_, run_consistent a req args r env title⟩
  · rw [hevents]
    refine RunPhase.after_trans hafter ?_
    rw [RunPhase.after_cons, hnext]
    rfl
  · intro event h
    exact (run_emissions a req args r env title event h).own

end

end LendingClaw.Agent
