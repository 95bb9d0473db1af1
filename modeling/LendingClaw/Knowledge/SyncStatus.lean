/-
LendingClaw.Knowledge.SyncStatus — the status of one knowledge base
under concurrent sync requests, background runs and process restarts
(`KnowledgeHandler.Sync` and `runSync`,
`internal/transport/http/handler/knowledge.go`).

A request reads the row and checks it, and later writes the status
"syncing" whatever the row has become; the run it starts takes its index
steps and writes the status it ends with. Nothing but that last write
takes "syncing" away, and a restart kills the run. `sync_truthful_iff`
says in which interleavings the status tells the truth.
-/
import LendingClaw.Knowledge.SyncTheorems

namespace LendingClaw.Knowledge

open LendingClaw.Store

/-! ## Index steps -/

section
variable {ν : Type} (env : Env ν)

/-- The writes of the loop over the batches, up to the first error. -/
def upsertSteps (f : IndexFaults) : (n : Nat) → List (String × List (OwnedPoint ν)) →
    List (Collection ν → Collection ν) × Fault
  | _, [] => ([], none)
  | n, (what, points) :: batches =>
    match f.embed n with
    | some err => ([], some ("embed batch" ++ what ++ ": " ++ err))
    | none =>
      match f.upsert n with
      | some err => ([], some ("upsert points" ++ what ++ ": " ++ err))
      | none =>
        let (steps, fault) := upsertSteps f (n + 1) batches
        ((fun coll => coll.putAll points) :: steps, fault)

/-- The writes that clear the collection before. -/
def clearSteps (kb : KnowledgeBase) (reset : Bool) (f : IndexFaults) :
    List (Collection ν → Collection ν) :=
  if f.clear.isNone then
    if kb.source = "markdown" then [fun coll => deletePointsByPayload coll "kb_id" kb.id]
    else if reset then [deleteCollection]
    else []
  else []

/-- The writes of a run one by one. -/
def indexSteps (kb : KnowledgeBase) (reset : Bool) (crawl : Crawl) (f : IndexFaults) :
    List (Collection ν → Collection ν) :=
  if kb.source = "markdown" then
    if f.ensureCollection.isSome then []
    else clearSteps kb reset f ++ (upsertSteps f 0 (markdownBatches env kb)).1
  else if f.crawl.isSome then []
  else
    clearSteps kb reset f
      ++ if f.ensureCollection.isSome then []
        else (upsertSteps f 0 (crawl.pages.flatMap (pageBatches env kb))).1

variable {env}

/-- The collection after some steps. -/
def afterSteps (steps : List (Collection ν → Collection ν)) (coll : Collection ν) : Collection ν :=
  steps.foldl (fun coll step => step coll) coll

theorem upsertBatches_steps (f : IndexFaults) (n : Nat)
    (batches : List (String × List (OwnedPoint ν))) (coll : Collection ν) :
    upsertBatches f n batches coll
      = (afterSteps (upsertSteps f n batches).1 coll, (upsertSteps f n batches).2) := by
  induction batches generalizing n coll with
  | nil => rfl
  | cons batch batches ih =>
    unfold upsertBatches upsertSteps
    cases f.embed n with
    | some err => rfl
    | none =>
      cases f.upsert n with
      | some err => rfl
      | none => exact ih (n + 1) _

theorem afterSteps_append (steps steps' : List (Collection ν → Collection ν)) (coll : Collection ν) :
    afterSteps (steps ++ steps') coll = afterSteps steps' (afterSteps steps coll) :=
  List.foldl_append

/-- A run is its steps one after the other, with a result that the
collection has no part in. -/
theorem indexBase_steps (kb : KnowledgeBase) (reset : Bool) (crawl : Crawl) (f : IndexFaults)
    (coll coll' : Collection ν) :
    indexBase env kb reset crawl f coll
      = (afterSteps (indexSteps env kb reset crawl f) coll, (indexBase env kb reset crawl f coll').2) := by
  unfold indexBase indexSteps
  split
  · rename_i hmd
    have hclear : afterSteps (clearSteps kb reset f) coll
        = if f.clear.isNone then deletePointsByPayload coll "kb_id" kb.id else coll := by
      unfold clearSteps
      rw [if_pos hmd]
      cases f.clear <;> rfl
    unfold indexMarkdown
    cases f.ensureCollection with
    | some err => rfl
    | none =>
      simp only [upsertBatches_steps, afterSteps_append, hclear, Option.isSome_none, Bool.false_eq_true,
        if_false]
      cases (upsertSteps f 0 (markdownBatches env kb)).2 <;> rfl
  · rename_i hmd
    have hclear : afterSteps (clearSteps kb reset f) coll
        = if (reset && f.clear.isNone) = true then deleteCollection coll else coll := by
      unfold clearSteps
      rw [if_neg hmd]
      cases f.clear <;> cases reset <;> rfl
    unfold indexConfluence
    cases f.crawl with
    | some err => rfl
    | none =>
      simp only [afterSteps_append, hclear, Option.isSome_none, Bool.false_eq_true, if_false]
      cases f.ensureCollection with
      | some err => rfl
      | none =>
        simp only [upsertBatches_steps, Option.isSome_none, Bool.false_eq_true, if_false]
        cases (upsertSteps f 0 (crawl.pages.flatMap (pageBatches env kb))).2 <;> rfl

end

/-! ## Requests, runs and restarts -/

/-- A run in progress: the steps it has left, and what it ends with. -/
structure RunningSync (ν : Type) where
  kb : KnowledgeBase
  steps : List (Collection ν → Collection ν)
  result : Except String IndexResult

/-- The tables, the requests that were let through and have not written
the status yet, each with the row it read, the runs in progress, and how
the run that ended last went. -/
structure SyncState (ν : Type) where
  db : KnowledgeState ν
  checked : List (KnowledgeBase × Bool)
  running : List (RunningSync ν)
  ended : Option (Except String IndexResult)

/-- What happens next: a request reads and checks the row; the i-th
checked request writes the status and starts its run; the i-th run takes
an index step, or its last write; the process restarts. -/
inductive SyncEvent where
  | check (reset : Bool)
  | launch (i : Nat) (crawl : Crawl) (f : IndexFaults) (now : Nat) (exec : Fault)
  | index (i : Nat)
  | finish (i : Nat) (now : Nat) (exec : Fault)
  | restart

section
variable {ν : Type} (env : Env ν) (cfg : SyncConfig) (w : WorkspaceID) (id : String)

def SyncState.start (db : KnowledgeState ν) : SyncState ν :=
  { db := db, checked := [], running := [], ended := none }

/-- `Sync` up to its checks. -/
def SyncState.check (s : SyncState ν) (reset : Bool) : SyncState ν :=
  match s.db.kbs.get w id with
  | none => s
  | some kb =>
    match checkSync cfg kb with
    | some _ => s
    | none => { s with checked := s.checked ++ [(kb, reset)] }

/-- The rest of `Sync`, for the i-th checked request. -/
def SyncState.launch (s : SyncState ν) (i : Nat) (crawl : Crawl) (f : IndexFaults) (now : Nat)
    (exec : Fault) : SyncState ν :=
  match s.checked[i]? with
  | none => s
  | some (kb, reset) =>
    let s := { s with checked := s.checked.eraseIdx i }
    match s.db.kbs.updateSyncStatus w id "syncing" none kb.totalPages kb.totalChunks
        kb.totalPoints now exec with
    | none => s
    | some kbs =>
      { s with
        db := { s.db with kbs := kbs }
        running := s.running ++
          [{ kb := kb
             steps := indexSteps env kb reset crawl f
             result := (indexBase env kb reset crawl f s.db.points).2 }] }

/-- The next step of the i-th run. -/
def SyncState.index (s : SyncState ν) (i : Nat) : SyncState ν :=
  match s.running[i]? with
  | none => s
  | some run =>
    match run.steps with
    | [] => s
    | step :: steps =>
      { s with
        db := { s.db with points := step s.db.points }
        running := s.running.set i { run with steps := steps } }

/-- The last write of the i-th run, if it has no step left. -/
def SyncState.finish (s : SyncState ν) (i : Nat) (now : Nat) (exec : Fault) : SyncState ν :=
  match s.running[i]? with
  | none => s
  | some run =>
    match run.steps with
    | _ :: _ => s
    | [] =>
      { s with
        db := finishSync s.db w id now run.result exec
        running := s.running.eraseIdx i
        ended := some run.result }

def SyncState.restart (s : SyncState ν) : SyncState ν := { s with checked := [], running := [] }

def SyncState.step (s : SyncState ν) : SyncEvent → SyncState ν
  | .check reset => s.check cfg w id reset
  | .launch i crawl f now exec => s.launch env w id i crawl f now exec
  | .index i => s.index i
  | .finish i now exec => s.finish w id i now exec
  | .restart => s.restart

/-! ## The property -/

/-- The row shows how a run went. -/
def KnowledgeBase.Shows (kb : KnowledgeBase) : Except String IndexResult → Prop
  | .error err => kb.status = "error" ∧ kb.errorMsg = some err
      ∧ kb.totalPages = 0 ∧ kb.totalChunks = 0 ∧ kb.totalPoints = 0
  | .ok r => kb.status = "done" ∧ kb.errorMsg = none
      ∧ kb.totalPages = r.totalPages ∧ kb.totalChunks = r.totalChunks ∧ kb.totalPoints = r.totalPoints

/-- One run at most, a status that is "syncing" while it lasts, then what
it ended with; and a state to come in which the base can be synced. -/
structure Truthful (s : SyncState ν) : Prop where
  one : s.running.length ≤ 1
  status : ∀ kb, s.db.kbs.get w id = some kb → (kb.status = "syncing" ↔ s.running ≠ [])
  last : ∀ kb, s.db.kbs.get w id = some kb → s.running = [] →
    ∀ result, s.ended = some result → kb.Shows result
  syncable : ∃ events, ∀ kb,
    (Lib.run (SyncState.step env cfg w id) s events).db.kbs.get w id = some kb → kb.status ≠ "syncing"

/-- A checked request writes the status when no run is in progress, or
fails to; a run that is done writes the status it ends with; the process
restarts when no run is in progress. -/
def SyncState.Careful (s : SyncState ν) : SyncEvent → Prop
  | .launch i _ _ _ exec => i < s.checked.length → exec = none → s.running = []
  | .finish i _ exec => ∀ run, s.running[i]? = some run → run.steps = [] → exec = none
  | .restart => s.running = []
  | _ => True

/-! ## The last write -/

variable {env cfg w id} {s : SyncState ν}

variable (w id) in
/-- A served last write. -/
theorem get_finishSync (db : KnowledgeState ν) (now : Nat) (result : Except String IndexResult) :
    ∃ f : KnowledgeBase → KnowledgeBase, (∀ kb, (f kb).Shows result)
      ∧ (finishSync db w id now result none).kbs.get w id = (db.kbs.get w id).map f := by
  cases result with
  | error err =>
    let f := KnowledgeBase.withStatus "error" (some err) 0 0 0 now
    exact ⟨f, fun kb => ⟨rfl, rfl, rfl, rfl, rfl⟩, get_updateAt f (fun _ => rfl) (fun _ => rfl)⟩
  | ok r =>
    let f := KnowledgeBase.withStatus "done" none r.totalPages r.totalChunks r.totalPoints now
    exact ⟨f, fun kb => ⟨rfl, rfl, rfl, rfl, rfl⟩, get_updateAt f (fun _ => rfl) (fun _ => rfl)⟩

/-- A failed one leaves everything as it is. -/
theorem finishSync_failed (db : KnowledgeState ν) (now : Nat) (result : Except String IndexResult)
    (err : String) : finishSync db w id now result (some err) = db := by
  cases result with
  | error _ => rfl
  | ok _ => rfl

theorem KnowledgeBase.Shows.not_syncing {kb : KnowledgeBase} {result : Except String IndexResult}
    (h : kb.Shows result) : kb.status ≠ "syncing" := by
  cases result with
  | error err =>
    rw [h.1]
    decide
  | ok r =>
    rw [h.1]
    decide

/-! ## One run alone -/

/-- The index steps of the one run, up to its last write. -/
theorem run_index (run : RunningSync ν) (hrun : s.running = [run]) :
    Lib.run (SyncState.step env cfg w id) s (List.replicate run.steps.length (.index 0))
      = { s with
          db := { s.db with points := afterSteps run.steps s.db.points }
          running := [{ run with steps := [] }] } := by
  obtain ⟨kb, steps, result⟩ := run
  induction steps generalizing s with
  | nil =>
    rw [← hrun]
    rfl
  | cons step steps ih =>
    have hstep : s.step env cfg w id (.index 0)
        = { s with
            db := { s.db with points := step s.db.points }
            running := [{ kb := kb, steps := steps, result := result }] } := by
      simp only [SyncState.step, SyncState.index, hrun, List.getElem?_cons_zero, List.set_cons_zero]
    rw [List.length_cons, List.replicate_succ, Lib.run_cons, hstep, ih rfl]
    rfl

/-- The last write of the one run. -/
theorem step_finish {run : RunningSync ν} (hrun : s.running = [run]) (hdone : run.steps = [])
    (now : Nat) (exec : Fault) :
    s.step env cfg w id (.finish 0 now exec)
      = { s with
          db := finishSync s.db w id now run.result exec
          running := []
          ended := some run.result } := by
  obtain ⟨kb, steps, result⟩ := run
  subst hdone
  simp only [SyncState.step, SyncState.finish, hrun, List.getElem?_cons_zero,
    List.eraseIdx_cons_zero]

/-- A request with nothing in between is `syncBase`. -/
theorem sync_alone {kb : KnowledgeBase} (hget : s.db.kbs.get w id = some kb)
    (hcheck : checkSync cfg kb = none) (hchecked : s.checked = []) (hrunning : s.running = [])
    (reset : Bool) (crawl : Crawl) (now : Nat) (finish : Fault) (f : IndexFaults) :
    (Lib.run (SyncState.step env cfg w id) s
        ([.check reset, .launch 0 crawl f now none]
          ++ List.replicate (indexSteps env kb reset crawl f).length (.index 0)
          ++ [.finish 0 now finish])).db
      = syncBase env cfg s.db w id reset crawl now { finish := finish } f := by
  let run : RunningSync ν :=
    { kb := kb
      steps := indexSteps env kb reset crawl f
      result := (indexBase env kb reset crawl f s.db.points).2 }
  have hlaunched : Lib.run (SyncState.step env cfg w id) s [.check reset, .launch 0 crawl f now none]
      = { s with
          db := { s.db with
            kbs := s.db.kbs.updateAt w id (KnowledgeBase.withStatus "syncing" none kb.totalPages
              kb.totalChunks kb.totalPoints now) (fun _ => rfl) }
          checked := []
          running := [run] } := by
    simp only [Lib.run_cons, Lib.run_nil, SyncState.step, SyncState.check, SyncState.launch, hget, hcheck, hchecked, hrunning,
      List.nil_append, List.getElem?_cons_zero, List.eraseIdx_cons_zero,
      KnowledgeTable.updateSyncStatus]
    rfl
  have hsteps : (indexSteps env kb reset crawl f).length = run.steps.length := rfl
  rw [Lib.run_append, Lib.run_append, hlaunched, hsteps, run_index run rfl, Lib.run_cons, Lib.run_nil,
    step_finish rfl rfl]
  unfold syncBase
  simp only [hget, hcheck, KnowledgeTable.updateSyncStatus]
  rw [indexBase_steps kb reset crawl f s.db.points s.db.points]

/-! ## The invariant -/

variable (w id) in
/-- What careful events keep. A request or a run has a row. -/
structure SyncState.Inv (s : SyncState ν) : Prop where
  row : s.checked ≠ [] ∨ s.running ≠ [] → ∃ kb, s.db.kbs.get w id = some kb
  one : s.running.length ≤ 1
  status : ∀ kb, s.db.kbs.get w id = some kb → (kb.status = "syncing" ↔ s.running ≠ [])
  last : ∀ kb, s.db.kbs.get w id = some kb → s.running = [] →
    ∀ result, s.ended = some result → kb.Shows result

theorem only_run {i : Nat} {run : RunningSync ν} (hone : s.running.length ≤ 1)
    (hrun : s.running[i]? = some run) : i = 0 ∧ s.running = [run] := by
  obtain ⟨hlt, hget⟩ := List.getElem?_eq_some_iff.mp hrun
  have hi : i = 0 := by omega
  subst hi
  obtain ⟨run', hrun'⟩ := List.length_eq_one_iff.mp (show s.running.length = 1 by omega)
  simp only [hrun', List.getElem_cons_zero] at hget
  exact ⟨rfl, by rw [hrun', hget]⟩

theorem SyncState.Inv.check (h : s.Inv w id) (reset : Bool) : (s.check cfg w id reset).Inv w id := by
  unfold SyncState.check
  cases hget : s.db.kbs.get w id with
  | none => exact h
  | some kb =>
    cases hcheck : checkSync cfg kb with
    | some reply =>
      simp only [hcheck]
      exact h
    | none =>
      simp only [hcheck]
      exact ⟨fun _ => ⟨kb, hget⟩, h.one, h.status, h.last⟩

/-- The request writes the status while nothing runs. -/
theorem SyncState.Inv.launch (h : s.Inv w id) {i : Nat} {crawl : Crawl} {f : IndexFaults} {now : Nat}
    {exec : Fault} (hcareful : s.Careful (.launch i crawl f now exec)) :
    (s.launch env w id i crawl f now exec).Inv w id := by
  unfold SyncState.launch
  cases hreq : s.checked[i]? with
  | none => exact h
  | some req =>
    have hlt := (List.getElem?_eq_some_iff.mp hreq).1
    have hrow := h.row (Or.inl (List.ne_nil_of_length_pos (by omega)))
    cases exec with
    | some err => exact ⟨fun _ => hrow, h.one, h.status, h.last⟩
    | none =>
      obtain ⟨kb, reset⟩ := req
      obtain ⟨old, hold⟩ := hrow
      have hnone : s.running = [] := hcareful hlt rfl
      let f := KnowledgeBase.withStatus "syncing" none kb.totalPages kb.totalChunks kb.totalPoints now
      have hget : (s.db.kbs.updateAt w id f (fun _ => rfl)).get w id = some (f old) := by
        rw [get_updateAt f (fun _ => rfl) (fun _ => rfl), hold]
        rfl
      simp only [KnowledgeTable.updateSyncStatus, hnone, List.nil_append]
      constructor
      · exact fun _ => ⟨_, hget⟩
      · exact Nat.le_refl 1
      · intro kb' hkb'
        obtain rfl : f old = kb' := Option.some.inj (hget.symm.trans hkb')
        exact iff_of_true rfl (List.cons_ne_nil _ _)
      · intro kb' _ hrunning
        exact absurd hrunning (List.cons_ne_nil _ _)

theorem SyncState.Inv.index (h : s.Inv w id) (i : Nat) : (s.index i).Inv w id := by
  unfold SyncState.index
  cases hrun : s.running[i]? with
  | none => exact h
  | some run =>
    cases hsteps : run.steps with
    | nil =>
      simp only [hsteps]
      exact h
    | cons step steps =>
      simp only [hsteps]
      have hnil : s.running.set i { run with steps := steps } = [] ↔ s.running = [] :=
        List.set_eq_nil_iff _ _
      constructor
      · intro hsome
        exact h.row (hsome.imp_right (mt hnil.mpr))
      · rw [List.length_set]
        exact h.one
      · intro kb hkb
        rw [Ne, hnil]
        exact h.status kb hkb
      · intro kb hkb hnone
        exact h.last kb hkb (hnil.mp hnone)

/-- The last write of the one run. -/
theorem SyncState.Inv.finish (h : s.Inv w id) {i now : Nat} {exec : Fault}
    (hcareful : s.Careful (.finish i now exec)) : (s.finish w id i now exec).Inv w id := by
  unfold SyncState.finish
  cases hrun : s.running[i]? with
  | none => exact h
  | some run =>
    cases hsteps : run.steps with
    | cons step steps =>
      simp only [hsteps]
      exact h
    | nil =>
      simp only [hsteps]
      obtain rfl : exec = none := hcareful run hrun hsteps
      obtain ⟨rfl, honly⟩ := only_run h.one hrun
      obtain ⟨old, hold⟩ := h.row (Or.inr (by rw [honly]; exact List.cons_ne_nil _ _))
      obtain ⟨f, hshows, hget⟩ := get_finishSync w id s.db now run.result
      rw [hold] at hget
      rw [honly]
      constructor
      · exact fun _ => ⟨_, hget⟩
      · exact Nat.zero_le 1
      · intro kb hkb
        obtain rfl : f old = kb := Option.some.inj (hget.symm.trans hkb)
        exact iff_of_false (hshows old).not_syncing (fun hne => hne rfl)
      · intro kb hkb _ result hended
        obtain rfl : f old = kb := Option.some.inj (hget.symm.trans hkb)
        obtain rfl : run.result = result := Option.some.inj hended
        exact hshows old

theorem SyncState.Inv.restart (h : s.Inv w id) (hcareful : s.Careful .restart) :
    s.restart.Inv w id := by
  have hnone : s.running = [] := hcareful
  constructor
  · intro hsome
    rcases hsome with hne | hne
    · exact absurd rfl hne
    · exact absurd rfl hne
  · exact Nat.zero_le 1
  · intro kb hkb
    rw [h.status kb hkb, hnone]
    rfl
  · exact fun kb hkb _ => h.last kb hkb hnone

theorem SyncState.Inv.step (h : s.Inv w id) {event : SyncEvent} (hcareful : s.Careful event) :
    (s.step env cfg w id event).Inv w id := by
  cases event with
  | check reset => exact h.check reset
  | launch i crawl f now exec => exact h.launch hcareful
  | index i => exact h.index i
  | finish i now exec => exact h.finish hcareful
  | restart => exact h.restart hcareful

/-! ## Runs -/

/-- What is in progress can end. -/
theorem SyncState.Inv.truthful (h : s.Inv w id) : Truthful env cfg w id s := by
  refine ⟨h.one, h.status, h.last, ?_⟩
  cases hrun : s.running with
  | nil =>
    refine ⟨[], ?_⟩
    intro kb hkb hsyncing
    exact (h.status kb hkb).mp hsyncing hrun
  | cons run rest =>
    obtain ⟨-, honly⟩ := only_run h.one (i := 0) (by rw [hrun]; rfl)
    refine ⟨List.replicate run.steps.length (.index 0) ++ [.finish 0 0 none], ?_⟩
    intro kb hkb
    rw [Lib.run_append, run_index run honly, Lib.run_cons, Lib.run_nil, step_finish rfl rfl] at hkb
    obtain ⟨f, hshows, hget⟩ := get_finishSync w id
      { s.db with points := afterSteps run.steps s.db.points } 0 run.result
    obtain ⟨old, -, rfl⟩ := Option.map_eq_some_iff.mp (hget.symm.trans hkb)
    exact (hshows old).not_syncing

/-- A step that is not careful shows at once. -/
theorem SyncState.Inv.untruthful (h : s.Inv w id) {event : SyncEvent} (hnot : ¬ s.Careful event) :
    ¬ Truthful env cfg w id (s.step env cfg w id event) := by
  intro htruth
  cases event with
  | check reset => exact hnot trivial
  | index i => exact hnot trivial
  | launch i crawl f now exec =>
    refine hnot fun hlt hexec => ?_
    subst hexec
    have hone := htruth.one
    simp only [SyncState.step, SyncState.launch, List.getElem?_eq_getElem hlt,
      KnowledgeTable.updateSyncStatus, List.length_append, List.length_singleton] at hone
    exact List.eq_nil_of_length_eq_zero (by omega)
  | finish i now exec =>
    refine hnot fun run hrun hdone => ?_
    cases exec with
    | none => rfl
    | some err =>
      obtain ⟨rfl, honly⟩ := only_run h.one hrun
      obtain ⟨kb, hkb⟩ := h.row (Or.inr (by rw [honly]; exact List.cons_ne_nil _ _))
      have hsyncing := (h.status kb hkb).mpr (by rw [honly]; exact List.cons_ne_nil _ _)
      rw [step_finish honly hdone, finishSync_failed] at htruth
      exact absurd rfl ((htruth.status kb hkb).mp hsyncing)
  | restart =>
    by_contra hrunning
    obtain ⟨kb, hkb⟩ := h.row (Or.inr hnot)
    exact absurd rfl ((htruth.status kb hkb).mp ((h.status kb hkb).mpr hnot))

variable (env cfg w id) in
/-- The status of a knowledge base tells the truth in an interleaving if
and only if it did at its start and every event is careful. -/
theorem sync_truthful_iff (db : KnowledgeState ν) (events : List SyncEvent) :
    Lib.Always (Truthful env cfg w id) (SyncState.step env cfg w id) (SyncState.start db) events
      ↔ (∀ kb, db.kbs.get w id = some kb → kb.status ≠ "syncing")
        ∧ Lib.Along SyncState.Careful (SyncState.step env cfg w id) (SyncState.start db) events := by
  have hexact : (∀ kb, db.kbs.get w id = some kb → kb.status ≠ "syncing") →
      (Lib.Always (Truthful env cfg w id) (SyncState.step env cfg w id) (SyncState.start db) events
        ↔ Lib.Along SyncState.Careful (SyncState.step env cfg w id) (SyncState.start db) events) := by
    intro hidle
    have hstart : (SyncState.start db).Inv w id := by
      refine ⟨fun hsome => ?_, Nat.zero_le 1, fun kb hkb => ?_, fun kb hkb _ result hended => ?_⟩
      · rcases hsome with hne | hne
        · exact absurd rfl hne
        · exact absurd rfl hne
      · exact iff_of_false (hidle kb hkb) (fun hne => hne rfl)
      · cases hended
    exact Lib.always_iff_along (fun s event hs => hs.step) (fun s hs => hs.truthful)
      (fun s event hs hnot => hs.untruthful hnot) events _ hstart
  constructor
  · intro halways
    have hidle : ∀ kb, db.kbs.get w id = some kb → kb.status ≠ "syncing" := by
      intro kb hkb hsyncing
      exact absurd rfl ((halways.head.status kb hkb).mp hsyncing)
    exact ⟨hidle, (hexact hidle).mp halways⟩
  · intro ⟨hidle, hcareful⟩
    exact (hexact hidle).mpr hcareful

/-! ## A run that is lost -/

/-- Nothing runs, nothing will, and the row says "syncing". -/
def SyncState.Stuck (w : WorkspaceID) (id : String) (s : SyncState ν) : Prop :=
  s.checked = [] ∧ s.running = []
    ∧ ∃ kb, s.db.kbs.get w id = some kb ∧ kb.status = "syncing"

theorem SyncState.Stuck.step (h : s.Stuck w id) (event : SyncEvent) :
    (s.step env cfg w id event).Stuck w id := by
  obtain ⟨hchecked, hrunning, kb, hget, hsyncing⟩ := h
  have hsame : s.step env cfg w id event = { s with checked := [], running := [] } := by
    obtain ⟨db, checked, running, ended⟩ := s
    subst hchecked hrunning
    cases event with
    | check reset =>
      have hrefused : checkSync cfg kb
          = some { status := 409, error := "knowledge base is already syncing" } := if_pos hsyncing
      have hget' : db.kbs.get w id = some kb := hget
      simp only [SyncState.step, SyncState.check, hget', hrefused]
    | launch i crawl f now exec => rfl
    | index i => rfl
    | finish i now exec => rfl
    | restart => rfl
  rw [hsame]
  exact ⟨rfl, rfl, kb, hget, hsyncing⟩

variable (env cfg) in
/-- It stays so. -/
theorem SyncState.Stuck.run (h : s.Stuck w id) (events : List SyncEvent) :
    (Lib.run (SyncState.step env cfg w id) s events).Stuck w id := by
  induction events generalizing s with
  | nil => exact h
  | cons event events ih => exact ih (h.step event)

end

/-- The knowledge base of the guide, alone. -/
def guideBase : KnowledgeState Unit :=
  createBase { kbs := Lib.Table.empty, points := Lib.Table.empty } defaultWorkspaceID wikiCollection
    "guide" (some { name := "Guide", source := "markdown", content := "Ask for consent." }) {}

/-- A sync is let through, and the process restarts before it ends. -/
def restartedSync : List SyncEvent := [.check false, .launch 0 onePage {} 1 none, .restart]

/-- No request will ever sync the base again. -/
theorem restart_leaves_syncing :
    ¬ Lib.Always (Truthful plainEnv fullConfig defaultWorkspaceID "guide")
        (SyncState.step plainEnv fullConfig defaultWorkspaceID "guide")
        (SyncState.start guideBase) restartedSync := by
  intro h
  let after := Lib.run (SyncState.step plainEnv fullConfig defaultWorkspaceID "guide")
    (SyncState.start guideBase) restartedSync
  have hstatus : (after.db.kbs.get defaultWorkspaceID "guide").map KnowledgeBase.status
      = some "syncing" := by decide +kernel
  obtain ⟨kb, hget, hsyncing⟩ := Option.map_eq_some_iff.mp hstatus
  have hstuck : after.Stuck defaultWorkspaceID "guide" :=
    ⟨List.isEmpty_iff.mp (by decide +kernel), List.isEmpty_iff.mp (by decide +kernel), kb, hget, hsyncing⟩
  obtain ⟨events, hsyncable⟩ := h.last.syncable
  obtain ⟨-, -, kb', hget', hsyncing'⟩ := hstuck.run plainEnv fullConfig events
  exact hsyncable kb' hget' hsyncing'

/-- Two requests that read the row before either writes it both start a
run. -/
example :
    (Lib.run (SyncState.step plainEnv fullConfig defaultWorkspaceID "guide") (SyncState.start guideBase)
      [.check false, .check false, .launch 0 onePage {} 1 none, .launch 0 onePage {} 2 none]).running.length
        = 2 := by
  decide +kernel

end LendingClaw.Knowledge
