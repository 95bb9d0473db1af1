/-
LendingClaw.Agent.RunCallbacks — the callbacks of concurrent runs
(`runCallbacks`, `Run` and `emit` of `internal/agent/loop.go`).

One loop serves all runs. A run that has a callback stores it under its
run id and deletes it when it returns; `emit` looks the callback up under
the id in the event. The runs emit in any interleaving, each the events
that `Agent.Run` gives it.

`events_routed` says that no event reaches the callback of another run,
and that a loop without running runs holds no callback.
-/
import LendingClaw.Agent.RunProtocol
import LendingClaw.Lib.Parties
import Mathlib.Data.List.AList

namespace LendingClaw.Agent

open LendingClaw.Lib

/-! ## The model -/

inductive CallStage where
  | waiting
  | running
  | returned
  deriving DecidableEq

/-- A call of `Run`: its id, whether it has a callback, what it has still
to emit and has emitted, and what its callback has got. -/
structure ActiveRun where
  runID : String
  subscribed : Bool
  stage : CallStage
  pending : List AgentEvent
  emitted : List AgentEvent
  received : List AgentEvent

/-- The map from run ids to callbacks, known by the place of their call. -/
structure Dispatch where
  callbacks : AList (fun _ : String => Nat)
  calls : List ActiveRun

inductive DispatchStep where
  | enter (i : Nat)
  | emit (i : Nat)
  | leave (i : Nat)

/-- A callback gets an event. -/
def deliver (target : Option Nat) (event : AgentEvent) (calls : List ActiveRun) : List ActiveRun :=
  match target with
  | none => calls
  | some j => calls.modify j fun call => { call with received := call.received ++ [event] }

namespace Dispatch

variable (s : Dispatch)

def enter (i : Nat) (call : ActiveRun) : Dispatch :=
  match call.stage with
  | .waiting =>
    { callbacks := if call.subscribed then s.callbacks.insert call.runID i else s.callbacks
      calls := s.calls.set i { call with stage := .running } }
  | _ => s

def emit (i : Nat) (call : ActiveRun) : Dispatch :=
  match call.stage, call.pending with
  | .running, event :: rest =>
    { s with
      calls := deliver (s.callbacks.lookup event.runID) event
        (s.calls.set i { call with pending := rest, emitted := call.emitted ++ [event] }) }
  | _, _ => s

/-- The deferred deletion. -/
def leave (i : Nat) (call : ActiveRun) : Dispatch :=
  match call.stage, call.pending with
  | .running, [] =>
    { callbacks := if call.subscribed then s.callbacks.erase call.runID else s.callbacks
      calls := s.calls.set i { call with stage := .returned } }
  | _, _ => s

def step : DispatchStep → Dispatch
  | .enter i => (s.calls[i]?.map (s.enter i)).getD s
  | .emit i => (s.calls[i]?.map (s.emit i)).getD s
  | .leave i => (s.calls[i]?.map (s.leave i)).getD s

end Dispatch

/-! ## Runs -/

/-- A run that is asked for, with everything its environment does. -/
structure RunPlan where
  req : RunRequest
  subscribed : Bool
  input : RunInput
  env : Nat → Reply
  title : String

section
variable (a : AgentLoop) (args : Providers.Arguments → Json)

def RunPlan.events (plan : RunPlan) : List AgentEvent :=
  (a.run plan.req args plan.input plan.env plan.title).events

def RunPlan.call (plan : RunPlan) : ActiveRun :=
  { runID := plan.req.runID
    subscribed := plan.subscribed
    stage := .waiting
    pending := plan.events a args
    emitted := []
    received := [] }

def Dispatch.start (plans : List RunPlan) : Dispatch :=
  { callbacks := ∅, calls := plans.map (RunPlan.call a args) }

/-- The call of a plan, somewhere in its run: its callback, if it has
one, has got what the run has emitted. -/
structure Follows (plan : RunPlan) (call : ActiveRun) : Prop where
  runID : call.runID = plan.req.runID
  subscribed : call.subscribed = plan.subscribed
  events : call.emitted ++ call.pending = plan.events a args
  received : call.received = if plan.subscribed then call.emitted else []
  returned : call.stage = .returned → call.pending = []

/-- The events of a run carry its id. -/
theorem Follows.own {plan : RunPlan} {call : ActiveRun} (h : Follows a args plan call)
    {event : AgentEvent} (hevent : event ∈ call.pending) : event.runID = call.runID := by
  have hmem : event ∈ plan.events a args := by
    rw [← h.events]
    exact List.mem_append_right _ hevent
  rw [h.runID]
  exact (run_emissions a plan.req args plan.input plan.env plan.title event hmem).own.2

theorem follows_set {plans : List RunPlan} {calls : List ActiveRun} {i : Nat} {call call' : ActiveRun}
    (h : List.Forall₂ (Follows a args) plans calls) (hcall : calls[i]? = some call)
    (hnext : ∀ plan, Follows a args plan call → Follows a args plan call') :
    List.Forall₂ (Follows a args) plans (calls.set i call') := by
  induction h generalizing i with
  | nil => cases hcall
  | cons hfirst hrest ih =>
    cases i with
    | zero =>
      obtain rfl := Option.some.inj hcall
      exact .cons (hnext _ hfirst) hrest
    | succ i => exact .cons hfirst (ih hcall)

theorem exists_plan {plans : List RunPlan} {calls : List ActiveRun}
    (h : List.Forall₂ (Follows a args) plans calls) {call : ActiveRun} (hcall : call ∈ calls) :
    ∃ plan ∈ plans, Follows a args plan call := by
  induction h with
  | nil => cases hcall
  | cons hfirst _ ih =>
    rcases List.mem_cons.mp hcall with rfl | hcall
    · exact ⟨_, List.mem_cons_self, hfirst⟩
    · obtain ⟨plan, hplan, hfollows⟩ := ih hcall
      exact ⟨plan, List.mem_cons_of_mem _ hplan, hfollows⟩

/-! ## The property -/

/-- The callback that a call has in the map. -/
def ActiveRun.entry (call : ActiveRun) (i : Nat) : Option Nat :=
  if call.subscribed ∧ call.stage = .running then some i else none

/-- The calls follow their plans, and the map has the callbacks of the
running calls and no others. -/
structure Routed (plans : List RunPlan) (s : Dispatch) : Prop where
  follows : List.Forall₂ (Follows a args) plans s.calls
  ids : (s.calls.map ActiveRun.runID).Nodup
  entries : ∀ (i : Nat) call, s.calls[i]? = some call →
    s.callbacks.lookup call.runID = call.entry i
  known : ∀ id i, s.callbacks.lookup id = some i → ∃ call ∈ s.calls, call.runID = id

end

section
variable {a : AgentLoop} {args : Providers.Arguments → Json} {plans : List RunPlan} {s : Dispatch}
  {i : Nat} {call : ActiveRun}

/-- Two calls have two ids. -/
theorem Routed.runID_ne (h : Routed a args plans s) (hcall : s.calls[i]? = some call) {j : Nat}
    {other : ActiveRun} (hother : s.calls[j]? = some other) (hne : j ≠ i) :
    other.runID ≠ call.runID := by
  intro heq
  have hj : (s.calls.map ActiveRun.runID)[j]? = some call.runID := by
    rw [List.getElem?_map, hother, ← heq]
    rfl
  have hi : (s.calls.map ActiveRun.runID)[i]? = some call.runID := by
    rw [List.getElem?_map, hcall]
    rfl
  have hlt := (List.getElem?_eq_some_iff.mp hj).1
  exact hne ((List.getElem?_inj hlt h.ids).mp (hj.trans hi.symm))

/-- A call goes on, and the map changes for its id alone. -/
theorem Routed.set (h : Routed a args plans s) (hcall : s.calls[i]? = some call) (call' : ActiveRun)
    (hnext : ∀ plan, Follows a args plan call → Follows a args plan call')
    {callbacks : AList (fun _ : String => Nat)}
    (hentry : callbacks.lookup call.runID = call'.entry i)
    (hother : ∀ id, id ≠ call.runID → callbacks.lookup id = s.callbacks.lookup id) :
    Routed a args plans { callbacks := callbacks, calls := s.calls.set i call' } := by
  have hid : call'.runID = call.runID := by
    obtain ⟨plan, -, hfollows⟩ := exists_plan a args h.follows (List.mem_of_getElem? hcall)
    exact (hnext plan hfollows).runID.trans hfollows.runID.symm
  have hsame : (s.calls.set i call').map ActiveRun.runID = s.calls.map ActiveRun.runID := by
    have hi : (s.calls.map ActiveRun.runID)[i]? = some call.runID := by
      rw [List.getElem?_map, hcall]
      rfl
    refine List.ext_getElem? fun j => ?_
    rw [List.map_set, hid, getElem?_set_of_some hi]
    split
    · rename_i hji
      rw [hji, hi]
    · rfl
  refine { follows := follows_set a args h.follows hcall hnext
           ids := by rw [hsame]; exact h.ids
           entries := ?_
           known := ?_ }
  · intro j c hc
    rw [getElem?_set_of_some hcall] at hc
    split at hc
    · rename_i hji
      obtain rfl := Option.some.inj hc
      rw [hid, hji]
      exact hentry
    · rename_i hji
      rw [hother _ (h.runID_ne hcall hc hji)]
      exact h.entries j c hc
  · intro id j hlookup
    by_cases heq : id = call.runID
    · exact ⟨call', mem_set_of_some hcall call', hid.trans heq.symm⟩
    · rw [hother id heq] at hlookup
      obtain ⟨c, hc, hcid⟩ := h.known id j hlookup
      have hne : c ≠ call := fun hsame => heq (by rw [← hcid, hsame])
      exact ⟨c, mem_set_of_ne hcall hc hne call', hcid⟩

/-! ## Steps -/

theorem Routed.enter (h : Routed a args plans s) (hcall : s.calls[i]? = some call) :
    Routed a args plans (s.enter i call) := by
  rw [Dispatch.enter]
  cases hstage : call.stage with
  | running => exact h
  | returned => exact h
  | waiting =>
    have hbefore := h.entries i call hcall
    rw [ActiveRun.entry, hstage] at hbefore
    refine h.set hcall { call with stage := .running } ?_ ?_ ?_
    · intro plan hplan
      exact { hplan with returned := by simp }
    · cases hsub : call.subscribed with
      | true => simp [ActiveRun.entry]
      | false => simpa [ActiveRun.entry, hsub] using hbefore
    · intro id hid
      cases call.subscribed with
      | true => exact AList.lookup_insert_ne hid
      | false => rfl

theorem Routed.leave (h : Routed a args plans s) (hcall : s.calls[i]? = some call) :
    Routed a args plans (s.leave i call) := by
  rw [Dispatch.leave]
  split
  · rename_i hstage hpending
    have hbefore := h.entries i call hcall
    rw [ActiveRun.entry, hstage] at hbefore
    refine h.set hcall { call with stage := .returned } ?_ ?_ ?_
    · intro plan hplan
      exact { hplan with returned := fun _ => hpending }
    · cases hsub : call.subscribed with
      | true => simp [ActiveRun.entry, AList.lookup_erase]
      | false =>
        rw [hsub] at hbefore
        simpa [ActiveRun.entry, hsub] using hbefore
    · intro id hid
      cases call.subscribed with
      | true => exact AList.lookup_erase_ne hid
      | false => rfl
  · exact h

/-- The event of a run finds the callback of its own run, or none. -/
theorem Routed.deliver (h : Routed a args plans s) (hcall : s.calls[i]? = some call)
    (hstage : call.stage = .running) {event : AgentEvent} (hevent : event.runID = call.runID)
    (next : ActiveRun) :
    deliver (s.callbacks.lookup event.runID) event (s.calls.set i next)
      = s.calls.set i { next with
          received := if call.subscribed then next.received ++ [event] else next.received } := by
  have hlt := (List.getElem?_eq_some_iff.mp hcall).1
  rw [hevent, h.entries i call hcall, ActiveRun.entry, hstage]
  cases call.subscribed with
  | true =>
    simp only [Agent.deliver, and_self, if_true]
    rw [List.modify_eq_set_getElem?, List.getElem?_set_self hlt]
    simp
  | false => simp [Agent.deliver]

theorem Routed.emit (h : Routed a args plans s) (hcall : s.calls[i]? = some call) :
    Routed a args plans (s.emit i call) := by
  rw [Dispatch.emit]
  split
  · rename_i event rest hstage hpending
    obtain ⟨plan, -, hplan⟩ := exists_plan a args h.follows (List.mem_of_getElem? hcall)
    have hevent : event.runID = call.runID :=
      hplan.own a args (by rw [hpending]; exact List.mem_cons_self)
    rw [h.deliver hcall hstage hevent]
    refine h.set hcall
      { call with
        pending := rest
        emitted := call.emitted ++ [event]
        received := if call.subscribed then call.received ++ [event] else call.received }
      ?_ (h.entries i call hcall) (fun _ _ => rfl)
    intro plan hplan
    refine { runID := hplan.runID, subscribed := hplan.subscribed, events := ?_, received := ?_
             returned := ?_ }
    · rw [← hplan.events, hpending]
      simp
    · dsimp only
      rw [hplan.received, hplan.subscribed]
      split
      · rfl
      · rfl
    · intro hreturned
      rw [hstage] at hreturned
      cases hreturned
  · exact h

theorem Routed.step (h : Routed a args plans s) (t : DispatchStep) :
    Routed a args plans (s.step t) := by
  cases t with
  | enter i =>
    rw [Dispatch.step]
    cases hcall : s.calls[i]? with
    | none => exact h
    | some call => exact h.enter hcall
  | emit i =>
    rw [Dispatch.step]
    cases hcall : s.calls[i]? with
    | none => exact h
    | some call => exact h.emit hcall
  | leave i =>
    rw [Dispatch.step]
    cases hcall : s.calls[i]? with
    | none => exact h
    | some call => exact h.leave hcall

theorem Routed.start (hids : (plans.map fun plan => plan.req.runID).Nodup) :
    Routed a args plans (Dispatch.start a args plans) where
  follows := by
    rw [Dispatch.start, List.forall₂_map_right_iff]
    refine List.forall₂_same.mpr fun plan _ => ?_
    exact { runID := rfl, subscribed := rfl, events := rfl
            received := by simp [RunPlan.call]
            returned := by simp [RunPlan.call] }
  ids := by
    rw [Dispatch.start, List.map_map]
    exact hids
  entries := by
    intro i call hcall
    obtain ⟨plan, -, rfl⟩ := List.mem_map.mp (List.mem_of_getElem? hcall)
    simp [Dispatch.start, RunPlan.call, ActiveRun.entry]
  known := by
    intro id i hlookup
    simp [Dispatch.start] at hlookup

/-- When all calls have returned, no callback is left. -/
theorem Routed.no_callbacks (h : Routed a args plans s)
    (hreturned : ∀ call ∈ s.calls, call.stage = .returned) (id : String) :
    s.callbacks.lookup id = none := by
  cases hlookup : s.callbacks.lookup id with
  | none => rfl
  | some i =>
    obtain ⟨call, hcall, rfl⟩ := h.known id i hlookup
    obtain ⟨j, hj⟩ := List.getElem?_of_mem hcall
    have hentry := h.entries j call hj
    rw [hlookup, ActiveRun.entry, hreturned call hcall] at hentry
    simp at hentry

end

/-- Whatever the runs do and however their steps interleave: the callback
of a run gets the events of its run in order, and no other; a run without
one disturbs nobody; and when all have returned the map is empty. -/
theorem events_routed (a : AgentLoop) (args : Providers.Arguments → Json) (plans : List RunPlan)
    (hids : (plans.map fun plan => plan.req.runID).Nodup) (schedule : List DispatchStep) :
    List.Forall₂ (Follows a args) plans
        (Lib.run Dispatch.step (Dispatch.start a args plans) schedule).calls
      ∧ ((∀ call ∈ (Lib.run Dispatch.step (Dispatch.start a args plans) schedule).calls,
          call.stage = .returned) →
        ∀ id, (Lib.run Dispatch.step (Dispatch.start a args plans) schedule).callbacks.lookup id
          = none) := by
  have h : Routed a args plans (Lib.run Dispatch.step (Dispatch.start a args plans) schedule) :=
    Lib.inv_run_of_step (Routed a args plans) (fun _ t h => h.step t) schedule _
      (Routed.start hids)
  exact ⟨h.follows, h.no_callbacks⟩

/-- A streamed run and one that nobody listens to. -/
def twoPlans : List RunPlan :=
  [{ req := openLoans, subscribed := true, input := firstMessage, env := searchThenAnswer
     title := "Open loans" },
   { req := { openLoans with runID := "r2", channel := "routine", stream := false }
     subscribed := false, input := firstMessage, env := searchThenAnswer, title := "Open loans" }]

theorem events_routed_two :
    List.Forall₂ (Follows lendingAgent fun _ => .obj []) twoPlans
        (Lib.run Dispatch.step (Dispatch.start lendingAgent (fun _ => .obj []) twoPlans)
          [.enter 0, .enter 1, .emit 1, .emit 0, .emit 1, .emit 0]).calls
      ∧ ((∀ call ∈ (Lib.run Dispatch.step (Dispatch.start lendingAgent (fun _ => .obj []) twoPlans)
            [.enter 0, .enter 1, .emit 1, .emit 0, .emit 1, .emit 0]).calls,
          call.stage = .returned) →
        ∀ id, (Lib.run Dispatch.step (Dispatch.start lendingAgent (fun _ => .obj []) twoPlans)
          [.enter 0, .enter 1, .emit 1, .emit 0, .emit 1, .emit 0]).callbacks.lookup id = none) :=
  events_routed lendingAgent (fun _ => .obj []) twoPlans (by decide) _

end LendingClaw.Agent
