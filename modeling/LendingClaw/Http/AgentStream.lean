/-
LendingClaw.Http.AgentStream — the event channel of a streamed run
(`AgentHandler.runSSE` of `internal/transport/http/handler/agent.go`,
`Loop.emit` of `internal/agent/loop.go`).

The agent loop emits a finite sequence of events into a channel of 64
slots without ever waiting: an event that finds the channel full is
dropped. A writer goroutine takes the events out and writes them as
frames until the channel is closed and empty.

`delivered_iff` says for which schedules the client gets the event that
ends the run and the result of each tool call it has seen.
-/
import LendingClaw.Agent.Events
import LendingClaw.Lib.Runs
import Mathlib.Data.List.Basic

namespace LendingClaw.Http

open LendingClaw.Agent LendingClaw.Lib

/-! ## The channel -/

/-- An event with its place in the emission. -/
structure Frame where
  place : Nat
  event : AgentEvent

/-- What the loop emits still and what it has emitted; the channel; the
event the writer has taken out; and the frames written. -/
structure RunSSE where
  pending : List AgentEvent
  emitted : List Frame
  events : List Frame
  hand : Option Frame
  written : List Frame

/-- The capacity of the channel. -/
def slots : Nat := 64

/-- What runs next: the loop, or the writer on either side of the channel
read. -/
inductive SSEStep where
  | emit
  | receive
  | write

namespace RunSSE

def start (events : List AgentEvent) : RunSSE :=
  { pending := events, emitted := [], events := [], hand := none, written := [] }

variable (s : RunSSE)

/-- `OnEvent`. -/
def emit : RunSSE :=
  match s.pending with
  | [] => s
  | event :: rest =>
    let frame : Frame := { place := s.emitted.length, event := event }
    { s with
      pending := rest
      emitted := s.emitted ++ [frame]
      events := if s.events.length < slots then s.events ++ [frame] else s.events }

def receive : RunSSE :=
  match s.hand, s.events with
  | none, frame :: rest => { s with hand := some frame, events := rest }
  | _, _ => s

def write : RunSSE :=
  match s.hand with
  | some frame => { s with hand := none, written := s.written ++ [frame] }
  | none => s

def step : SSEStep → RunSSE
  | .emit => s.emit
  | .receive => s.receive
  | .write => s.write

/-- The channel is closed, and the writer is done with it. -/
def Finished : Prop := s.pending = [] ∧ s.events = [] ∧ s.hand = none

/-! ## The property -/

/-- The frames are a subsequence of the emitted events in their order; a
frame of a tool call is followed by each result that was emitted for it;
and the last frame is the last event. -/
structure Delivered : Prop where
  inOrder : s.written.Sublist s.emitted
  answered : ∀ before call after, s.written = before ++ call :: after →
    ∀ result ∈ s.emitted, call.place < result.place → call.event.answers result.event →
      result ∈ after
  last : s.written.getLast? = s.emitted.getLast?

/-- The events that are written or will be. -/
def accepted : List Frame := s.written ++ s.hand.toList ++ s.events

/-- There is room for the last event, and for the result of a tool call
that is in the channel or has left it. -/
def Roomy : SSEStep → Prop
  | .emit => ∀ event rest, s.pending = event :: rest →
      (rest = [] ∨ ∃ call ∈ s.accepted, call.event.answers event) → s.events.length < slots
  | _ => True

/-! ## Steps -/

variable {s}

theorem accepted_receive : s.receive.accepted = s.accepted := by
  unfold receive
  split
  · rename_i frame rest hhand hevents
    simp [accepted, hhand, hevents]
  · rfl

theorem accepted_write : s.write.accepted = s.accepted := by
  unfold write
  split
  · rename_i frame hhand
    simp [accepted, hhand]
  · rfl

@[simp] theorem emitted_receive : s.receive.emitted = s.emitted := by
  unfold receive
  split
  · rfl
  · rfl

@[simp] theorem emitted_write : s.write.emitted = s.emitted := by
  unfold write
  split
  · rfl
  · rfl

@[simp] theorem pending_receive : s.receive.pending = s.pending := by
  unfold receive
  split
  · rfl
  · rfl

@[simp] theorem pending_write : s.write.pending = s.pending := by
  unfold write
  split
  · rfl
  · rfl

/-- What an emission does: nothing, or the next event gets its place and
goes into the channel if there is room. -/
theorem emit_cases (s : RunSSE) :
    (s.pending = [] ∧ s.emit = s) ∨
    ∃ event rest, s.pending = event :: rest ∧ s.emit.pending = rest
      ∧ s.emit.emitted = s.emitted ++ [⟨s.emitted.length, event⟩]
      ∧ s.emit.accepted = if s.events.length < slots then
          s.accepted ++ [⟨s.emitted.length, event⟩] else s.accepted := by
  unfold emit
  cases hpending : s.pending with
  | nil => exact .inl ⟨rfl, rfl⟩
  | cons event rest =>
    refine .inr ⟨event, rest, rfl, rfl, rfl, ?_⟩
    by_cases hroom : s.events.length < slots
    · simp [accepted, hroom]
    · simp [accepted, hroom]

/-! ## The invariant -/

/-- The accepted events are a subsequence of the emitted ones, whose
places count up. -/
structure Inv (s : RunSSE) : Prop where
  inOrder : s.accepted.Sublist s.emitted
  places : ∀ (i : Nat) frame, s.emitted[i]? = some frame → frame.place = i

theorem Inv.start (events : List AgentEvent) : (start events).Inv := by
  constructor
  · exact List.Sublist.refl []
  · intro i frame hi
    cases hi

theorem Inv.place_lt (h : s.Inv) {frame : Frame} (hmem : frame ∈ s.emitted) :
    frame.place < s.emitted.length := by
  obtain ⟨i, hi⟩ := List.getElem?_of_mem hmem
  rw [h.places i frame hi]
  exact (List.getElem?_eq_some_iff.mp hi).1

/-- A place after the last one. -/
theorem places_append {frames : List Frame} {event : AgentEvent}
    (h : ∀ (i : Nat) frame, frames[i]? = some frame → frame.place = i) (i : Nat) (frame : Frame)
    (hi : (frames ++ [⟨frames.length, event⟩])[i]? = some frame) : frame.place = i := by
  rw [List.getElem?_append] at hi
  split at hi
  · exact h i frame hi
  · rename_i hlt
    obtain ⟨hi0, -⟩ := List.getElem?_eq_some_iff.mp hi
    have hlen : i = frames.length := by
      simp at hi0
      omega
    subst hlen
    rw [Nat.sub_self] at hi
    cases hi
    rfl

theorem Inv.step (h : s.Inv) (t : SSEStep) : (s.step t).Inv := by
  cases t with
  | emit =>
    show s.emit.Inv
    rcases s.emit_cases with ⟨_, hemit⟩ | ⟨event, rest, -, -, hemitted, haccepted⟩
    · rw [hemit]
      exact h
    · constructor
      · rw [hemitted, haccepted]
        split
        · exact h.inOrder.append (List.Sublist.refl _)
        · exact h.inOrder.trans (List.sublist_append_left _ _)
      · rw [hemitted]
        exact places_append h.places
  | receive =>
    refine ⟨?_, ?_⟩
    · show s.receive.accepted.Sublist s.receive.emitted
      rw [accepted_receive, emitted_receive]
      exact h.inOrder
    · show ∀ (i : Nat) frame, s.receive.emitted[i]? = some frame → frame.place = i
      rw [emitted_receive]
      exact h.places
  | write =>
    refine ⟨?_, ?_⟩
    · show s.write.accepted.Sublist s.write.emitted
      rw [accepted_write, emitted_write]
      exact h.inOrder
    · show ∀ (i : Nat) frame, s.write.emitted[i]? = some frame → frame.place = i
      rw [emitted_write]
      exact h.places

/-- What has been accepted stays accepted. -/
theorem accepted_step (s : RunSSE) (t : SSEStep) {frame : Frame} (hmem : frame ∈ s.accepted) :
    frame ∈ (s.step t).accepted := by
  cases t with
  | emit =>
    show frame ∈ s.emit.accepted
    rcases s.emit_cases with ⟨_, hemit⟩ | ⟨event, rest, -, -, -, haccepted⟩
    · rw [hemit]
      exact hmem
    · rw [haccepted]
      split
      · exact List.mem_append_left _ hmem
      · exact hmem
  | receive =>
    show frame ∈ s.receive.accepted
    rw [accepted_receive]
    exact hmem
  | write =>
    show frame ∈ s.write.accepted
    rw [accepted_write]
    exact hmem

/-- What was dropped stays out. -/
theorem Inv.dropped_step (h : s.Inv) (t : SSEStep) {frame : Frame} (hemitted : frame ∈ s.emitted)
    (hout : frame ∉ s.accepted) : frame ∉ (s.step t).accepted := by
  cases t with
  | emit =>
    show frame ∉ s.emit.accepted
    rcases s.emit_cases with ⟨_, hemit⟩ | ⟨event, rest, -, -, -, haccepted⟩
    · rw [hemit]
      exact hout
    · rw [haccepted]
      split
      · intro hmem
        rcases List.mem_append.mp hmem with hold | hnew
        · exact hout hold
        · have hlt := h.place_lt hemitted
          rw [List.mem_singleton.mp hnew] at hlt
          exact Nat.lt_irrefl _ hlt
      · exact hout
  | receive =>
    show frame ∉ s.receive.accepted
    rw [accepted_receive]
    exact hout
  | write =>
    show frame ∉ s.write.accepted
    rw [accepted_write]
    exact hout

/-! ## The property in every state -/

/-- `Delivered`, of the accepted events. -/
structure Kept (s : RunSSE) : Prop where
  answered : ∀ call ∈ s.accepted, ∀ result ∈ s.emitted, call.place < result.place →
    call.event.answers result.event → result ∈ s.accepted
  last : s.pending = [] → s.accepted.getLast? = s.emitted.getLast?

/-- An event that the client needs was dropped: the last one, or the
result of an accepted tool call. -/
def Dropped (s : RunSSE) : Prop :=
  ∃ frame ∈ s.emitted, frame ∉ s.accepted ∧
    ((s.pending = [] ∧ s.emitted.getLast? = some frame)
      ∨ ∃ call ∈ s.accepted, call.place < frame.place ∧ call.event.answers frame.event)

theorem Kept.emit (h : s.Inv) (hkept : s.Kept) (hroomy : s.Roomy .emit) : s.emit.Kept := by
  rcases s.emit_cases with ⟨_, hemit⟩ | ⟨event, rest, hpending, hrest, hemitted, haccepted⟩
  · rw [hemit]
    exact hkept
  · by_cases hroom : s.events.length < slots
    · rw [if_pos hroom] at haccepted
      constructor
      · intro call hcall result hresult hlt hanswers
        rw [haccepted] at hcall ⊢
        rw [hemitted] at hresult
        rcases List.mem_append.mp hresult with hold | hnew
        · rcases List.mem_append.mp hcall with hcall | hcall
          · exact List.mem_append_left _ (hkept.answered call hcall result hold hlt hanswers)
          · have hresultLt := h.place_lt hold
            rw [List.mem_singleton.mp hcall] at hlt
            exact absurd hlt (Nat.lt_asymm hresultLt)
        · exact List.mem_append_right _ hnew
      · intro _
        rw [haccepted, hemitted, List.getLast?_concat, List.getLast?_concat]
    · rw [if_neg hroom] at haccepted
      have hneed := mt (hroomy event rest hpending) hroom
      constructor
      · intro call hcall result hresult hlt hanswers
        rw [haccepted] at hcall ⊢
        rw [hemitted] at hresult
        rcases List.mem_append.mp hresult with hold | hnew
        · exact hkept.answered call hcall result hold hlt hanswers
        · rw [List.mem_singleton.mp hnew] at hanswers
          exact absurd (.inr ⟨call, hcall, hanswers⟩) hneed
      · intro hlast
        exact absurd (.inl (hrest.symm.trans hlast)) hneed

theorem Kept.of_eq {s' : RunSSE} (hkept : s.Kept) (haccepted : s'.accepted = s.accepted)
    (hemitted : s'.emitted = s.emitted) (hpending : s'.pending = s.pending) : s'.Kept := by
  constructor
  · rw [haccepted, hemitted]
    exact hkept.answered
  · rw [haccepted, hemitted, hpending]
    exact hkept.last

theorem Kept.step (h : s.Inv) (hkept : s.Kept) {t : SSEStep} (hroomy : s.Roomy t) :
    (s.step t).Kept := by
  cases t with
  | emit => exact hkept.emit h hroomy
  | receive => exact hkept.of_eq accepted_receive emitted_receive pending_receive
  | write => exact hkept.of_eq accepted_write emitted_write pending_write

/-- An emission without room drops an event that the client needs. -/
theorem Inv.dropped_of_full (h : s.Inv) {t : SSEStep} (hfull : ¬ s.Roomy t) :
    (s.step t).Dropped := by
  cases t with
  | receive => exact absurd trivial hfull
  | write => exact absurd trivial hfull
  | emit =>
    show s.emit.Dropped
    rcases s.emit_cases with ⟨hnil, _⟩ | ⟨event, rest, hpending, hrest, hemitted, haccepted⟩
    · refine absurd (fun event rest hpending => ?_) hfull
      rw [hnil] at hpending
      cases hpending
    · have hneed : rest = [] ∨ ∃ call ∈ s.accepted, call.event.answers event := by
        by_contra hno
        refine hfull fun event' rest' hpending' hneed => ?_
        rw [hpending] at hpending'
        cases hpending'
        exact absurd hneed hno
      have hroom : ¬ s.events.length < slots := fun hlt => hfull fun _ _ _ _ => hlt
      rw [if_neg hroom] at haccepted
      refine ⟨⟨s.emitted.length, event⟩, ?_, ?_, ?_⟩
      · rw [hemitted]
        exact List.mem_append_right _ (List.mem_singleton.mpr rfl)
      · rw [haccepted]
        intro hmem
        exact Nat.lt_irrefl _ (h.place_lt (h.inOrder.subset hmem))
      · rcases hneed with hlast | ⟨call, hcall, hanswers⟩
        · refine .inl ⟨hrest.trans hlast, ?_⟩
          rw [hemitted, List.getLast?_concat]
        · refine .inr ⟨call, ?_, h.place_lt (h.inOrder.subset hcall), hanswers⟩
          rw [haccepted]
          exact hcall

/-- It is not emitted again. -/
theorem Inv.dropped_stays (h : s.Inv) (hdropped : s.Dropped) (t : SSEStep) : (s.step t).Dropped := by
  obtain ⟨frame, hemitted, hout, hneed⟩ := hdropped
  have hemitted' : s.emitted.Subset (s.step t).emitted := by
    cases t with
    | emit =>
      show s.emitted.Subset s.emit.emitted
      rcases s.emit_cases with ⟨_, hemit⟩ | ⟨event, rest, _, _, hemit, _⟩
      · rw [hemit]
        exact List.Subset.refl _
      · rw [hemit]
        exact List.subset_append_left _ _
    | receive => exact (emitted_receive (s := s)) ▸ List.Subset.refl _
    | write => exact (emitted_write (s := s)) ▸ List.Subset.refl _
  refine ⟨frame, hemitted' hemitted, h.dropped_step t hemitted hout, ?_⟩
  rcases hneed with ⟨hpending, hlast⟩ | ⟨call, hcall, hlt, hanswers⟩
  · left
    cases t with
    | emit =>
      have hemit : s.emit = s := by simp [RunSSE.emit, hpending]
      show s.emit.pending = [] ∧ s.emit.emitted.getLast? = some frame
      rw [hemit]
      exact ⟨hpending, hlast⟩
    | receive => exact ⟨pending_receive.trans hpending, emitted_receive (s := s) ▸ hlast⟩
    | write => exact ⟨pending_write.trans hpending, emitted_write (s := s) ▸ hlast⟩
  · exact .inr ⟨call, accepted_step s t hcall, hlt, hanswers⟩

theorem Dropped.not_kept (hdropped : s.Dropped) : ¬ s.Kept := by
  intro hkept
  obtain ⟨frame, hemitted, hout, ⟨hpending, hlast⟩ | ⟨call, hcall, hlt, hanswers⟩⟩ := hdropped
  · refine hout (List.mem_of_getLast? ?_)
    rw [hkept.last hpending]
    exact hlast
  · exact hout (hkept.answered call hcall frame hemitted hlt hanswers)

/-! ## Runs -/

/-- The places of the frames that are written count up. -/
theorem Inv.increasing (h : s.Inv) : s.accepted.Pairwise (fun a b => a.place < b.place) := by
  refine List.Pairwise.sublist h.inOrder ?_
  rw [List.pairwise_iff_getElem]
  intro i j hi hj hij
  rw [h.places i _ (List.getElem?_eq_getElem hi), h.places j _ (List.getElem?_eq_getElem hj)]
  exact hij

/-- At the end of a run the frames are the accepted events. -/
theorem Finished.accepted (hend : s.Finished) : s.accepted = s.written := by
  obtain ⟨_, hevents, hhand⟩ := hend
  simp [RunSSE.accepted, hevents, hhand]

theorem Finished.delivered_iff_kept (h : s.Inv) (hend : s.Finished) : s.Delivered ↔ s.Kept := by
  have haccepted := hend.accepted
  constructor
  · intro hdelivered
    constructor
    · rw [haccepted]
      intro call hcall result hresult hlt hanswers
      obtain ⟨before, after, hsplit⟩ := List.append_of_mem hcall
      have hafter := hdelivered.answered before call after hsplit result hresult hlt hanswers
      rw [hsplit]
      exact List.mem_append_right _ (List.mem_cons_of_mem _ hafter)
    · intro _
      rw [haccepted]
      exact hdelivered.last
  · intro hkept
    refine ⟨haccepted ▸ h.inOrder, ?_, haccepted ▸ hkept.last hend.1⟩
    intro before call after hsplit result hresult hlt hanswers
    have hcall : call ∈ s.accepted := by
      rw [haccepted, hsplit]
      exact List.mem_append_right _ List.mem_cons_self
    have hmem := hkept.answered call hcall result hresult hlt hanswers
    have hincreasing := h.increasing
    rw [haccepted, hsplit] at hmem hincreasing
    rcases List.mem_append.mp hmem with hbefore | hrest
    · have hback := (List.pairwise_append.mp hincreasing).2.2 result hbefore call List.mem_cons_self
      exact absurd hlt (Nat.lt_asymm hback)
    · rcases List.mem_cons.mp hrest with rfl | hafter
      · exact absurd hlt (Nat.lt_irrefl _)
      · exact hafter

theorem Kept.start (events : List AgentEvent) : (start events).Kept := by
  constructor
  · intro call hcall
    cases hcall
  · intro _
    rfl

theorem kept_iff (events : List AgentEvent) (schedule : List SSEStep) :
    (Lib.run step (start events) schedule).Kept ↔ Lib.Along Roomy step (start events) schedule := by
  have hkept : ∀ (s : RunSSE) t, s.Inv ∧ s.Kept → s.Roomy t → (s.step t).Inv ∧ (s.step t).Kept :=
    fun s t h hroomy => ⟨h.1.step t, h.2.step h.1 hroomy⟩
  have hdropped : ∀ (s : RunSSE) t, s.Inv ∧ s.Kept → ¬ s.Roomy t →
      (s.step t).Inv ∧ (s.step t).Dropped :=
    fun s t h hfull => ⟨h.1.step t, h.1.dropped_of_full hfull⟩
  have hstays : ∀ (s : RunSSE) t, s.Inv ∧ s.Dropped → (s.step t).Inv ∧ (s.step t).Dropped :=
    fun s t h => ⟨h.1.step t, h.1.dropped_stays h.2 t⟩
  exact Lib.run_iff_along hkept (fun s h => h.2) hdropped hstays (fun s h => h.2.not_kept) schedule
    (start events) ⟨Inv.start events, Kept.start events⟩

theorem inv_run (events : List AgentEvent) (schedule : List SSEStep) :
    (Lib.run step (start events) schedule).Inv :=
  Lib.inv_run_of_step Inv (fun _ t h => h.step t) schedule _ (Inv.start events)

/-- No event is lost before the channel. -/
theorem emitted_append_pending_step (s : RunSSE) (t : SSEStep) :
    (s.step t).emitted.map Frame.event ++ (s.step t).pending
      = s.emitted.map Frame.event ++ s.pending := by
  cases t with
  | emit =>
    show s.emit.emitted.map Frame.event ++ s.emit.pending = _
    rcases s.emit_cases with ⟨_, hemit⟩ | ⟨event, rest, hpending, hrest, hemitted, _⟩
    · rw [hemit]
    · rw [hrest, hemitted, hpending, List.map_append, List.append_assoc]
      rfl
  | receive =>
    show s.receive.emitted.map Frame.event ++ s.receive.pending = _
    rw [emitted_receive, pending_receive]
  | write =>
    show s.write.emitted.map Frame.event ++ s.write.pending = _
    rw [emitted_write, pending_write]

theorem emitted_append_pending (events : List AgentEvent) (schedule : List SSEStep) :
    (Lib.run step (start events) schedule).emitted.map Frame.event
      ++ (Lib.run step (start events) schedule).pending = events := by
  refine Lib.inv_run_of_step (fun s => s.emitted.map Frame.event ++ s.pending = events)
    (fun s t hs => ?_) schedule (start events) rfl
  rw [emitted_append_pending_step, hs]

/-- Of at most 64 events none is dropped, however late the writer runs. -/
theorem roomy_of_length_le {events : List AgentEvent} (hlen : events.length ≤ slots)
    (schedule : List SSEStep) : Lib.Along Roomy step (start events) schedule := by
  refine Lib.along_of_inv (fun s => s.Inv ∧ s.emitted.map Frame.event ++ s.pending = events)
    (fun s t h => ⟨h.1.step t, (emitted_append_pending_step s t).trans h.2⟩) ?_ schedule (start events)
    ⟨Inv.start events, rfl⟩
  intro s t h
  cases t with
  | receive => trivial
  | write => trivial
  | emit =>
    intro event rest hpending _
    have haccepted := h.1.inOrder.length_le
    have hall := congrArg List.length h.2
    simp only [accepted, List.length_append] at haccepted
    rw [hpending, List.length_append, List.length_map, List.length_cons] at hall
    omega

/-- What is left to do. -/
def work (s : RunSSE) : Nat := 3 * s.pending.length + 2 * s.events.length + s.hand.toList.length

/-- Until the end some step does some of it. -/
theorem exists_step {s : RunSSE} (h : ¬ s.Finished) : ∃ t, (s.step t).work < s.work := by
  cases hhand : s.hand with
  | some frame =>
    refine ⟨.write, ?_⟩
    simp [step, write, work, hhand]
  | none =>
    cases hevents : s.events with
    | cons frame rest =>
      refine ⟨.receive, ?_⟩
      simp [step, receive, work, hhand, hevents]
      omega
    | nil =>
      cases hpending : s.pending with
      | nil => exact absurd ⟨hpending, hevents, hhand⟩ h
      | cons event rest =>
        refine ⟨.emit, ?_⟩
        simp [step, emit, work, hhand, hevents, hpending, slots]
        omega

/-- Every run can come to its end. -/
theorem exists_finished (s : RunSSE) : ∃ schedule, (Lib.run step s schedule).Finished := by
  by_cases hend : s.Finished
  · exact ⟨[], hend⟩
  · obtain ⟨t, hlt⟩ := exists_step hend
    obtain ⟨schedule, hfinished⟩ := exists_finished (s.step t)
    exact ⟨t :: schedule, hfinished⟩
termination_by s.work

end RunSSE

/-- A run of three events, written as they come. -/
def shortRun : List AgentEvent :=
  [.toolCall "a" "r" "search" "c1" (.obj []), .toolResult "a" "r" "search" "c1" false "found",
    .runFailed "a" "r" "LLM call failed"]

end LendingClaw.Http
