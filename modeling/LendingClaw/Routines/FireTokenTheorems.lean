/-
LendingClaw.Routines.FireTokenTheorems — fire tokens over runs of the
service.

The state is extended with what the callers know (`Traced`): for each
routine the token of the last successful generate or rotate, forgotten
by a successful revoke or delete. `TokensOk` says that exactly these
tokens verify. Every read-modify-write of a row goes through
`scanRoutine`, which drops the hash, so an edit and a schedule sync
write NULL over it; `KeepsToken` says that they touch only rows without
one.
-/
import LendingClaw.Routines.Service
import LendingClaw.Lib.Runs

namespace LendingClaw.Routines

open LendingClaw.Store

/-! ## The hash column, read by routine -/

/-- The hash column of the live row of a routine. -/
def RoutineTable.hashAt (t : RoutineTable) (w : WorkspaceID) (id : String) :
    Option (Option String) :=
  (t.live w id).map Row.fireTokenHash

section
variable {t t' : RoutineTable} {w w' : WorkspaceID} {id id' : String} {r : Routine}

theorem hashAt_update :
    (t.update w r).hashAt w' id' = if w' = w ∧ id' = r.id
      then (t.hashAt w' id').map (fun _ => r.fireTokenHash) else t.hashAt w' id' := by
  unfold RoutineTable.hashAt
  rw [RoutineTable.live_update]
  split
  · cases t.live w' id' <;> rfl
  · rfl

theorem hashAt_delete :
    (t.delete w id).hashAt w' id' = if w' = w ∧ id' = id then none else t.hashAt w' id' := by
  unfold RoutineTable.hashAt
  rw [RoutineTable.live_delete]
  split <;> rfl

theorem hashAt_find_none (h : t.find id = none) : t.hashAt w id = none := by
  simp [RoutineTable.hashAt, RoutineTable.live, h]

/-- A routine carrying no hash, stored over a row without one. -/
theorem hashAt_update_blank (hr : r.fireTokenHash = none)
    (hblank : t.hashAt w r.id = (t.hashAt w r.id).map (fun _ => none)) :
    (t.update w r).hashAt w' id' = t.hashAt w' id' := by
  rw [hashAt_update, hr]
  split
  · rename_i hc
    rw [hc.1, hc.2]
    exact hblank.symm
  · rfl

end

/-! ## What each operation does to the column -/

section
variable {σ : Type} {cfg : Config σ} {st : State} {w w' : WorkspaceID} {id id' : String}
  {now : Int} {r : Routine}

/-- The registration after an edit writes the row of a routine that
carries no hash. -/
theorem register_hashAt (cfg : Config σ) (st : State) (w : WorkspaceID) (faults : EditFaults)
    (hr : r.fireTokenHash = none)
    (hblank : st.routines.hashAt w r.id = (st.routines.hashAt w r.id).map (fun _ => none)) :
    (register cfg st w r faults).1.draws = st.draws
      ∧ ∀ w' id', (register cfg st w r faults).1.routines.hashAt w' id'
          = st.routines.hashAt w' id' := by
  rcases register_cases cfg st w r faults with ⟨-, heq⟩ | ⟨-, heq | ⟨-, heq⟩⟩
  · rw [heq]
    exact ⟨rfl, fun _ _ => rfl⟩
  · rw [heq]
    exact ⟨rfl, fun _ _ => rfl⟩
  · rw [heq]
    exact ⟨rfl, fun _ _ => hashAt_update_blank (r := registered w r) hr hblank⟩

/-- An edit that is written leaves NULL. -/
theorem update_hashAt (cfg : Config σ) (st : State) (now : Int) (w : WorkspaceID)
    (r : Routine) (faults : EditFaults) :
    (update cfg st now w r faults).1.draws = st.draws
      ∧ (¬ UpdateWrites cfg r now faults →
          (update cfg st now w r faults).1.routines = st.routines)
      ∧ (UpdateWrites cfg r now faults → ∀ w' id',
          (update cfg st now w r faults).1.routines.hashAt w' id'
            = if w' = w ∧ id' = r.id then (st.routines.hashAt w' id').map (fun _ => none)
              else st.routines.hashAt w' id') := by
  rcases update_cases cfg st w r now faults with ⟨hno, heq⟩ | ⟨row, hw, hl, heq⟩
  · rw [heq]
    refine ⟨rfl, fun _ => rfl, fun hw w' id' => ?_⟩
    split
    · rename_i hc
      have hnone : st.routines.hashAt w' id' = none := by
        unfold RoutineTable.hashAt
        rw [hc.1, hc.2, hno.resolve_left (fun h => h hw)]
        rfl
      rw [hnone]
      rfl
    · rfl
  · have hid : (edited w r row).id = r.id := rfl
    have hnone : (edited w r row).fireTokenHash = none := rfl
    have hreg := register_hashAt cfg
      { st with routines := st.routines.update w (edited w r row) } w faults hnone (by
        simp only [hashAt_update, hid, hnone]
        cases st.routines.hashAt w r.id <;> simp)
    rw [heq]
    refine ⟨hreg.1, fun h => absurd hw h, fun _ w' id' => ?_⟩
    rw [hreg.2, hashAt_update]
    rfl

/-- A new routine has no token, and the others keep what they have. -/
theorem create_hashAt (cfg : Config σ) (st : State) (now : Int) (newUUID : String)
    (w : WorkspaceID) (body : RoutineBody) (faults : EditFaults) :
    (create cfg st now newUUID w (routineOfBody w body) faults).1.draws = st.draws
      ∧ ∀ w' id', (create cfg st now newUUID w (routineOfBody w body) faults).1.routines.hashAt
            w' id' = st.routines.hashAt w' id'
          ∨ st.routines.hashAt w' id' = none
            ∧ (create cfg st now newUUID w (routineOfBody w body) faults).1.routines.hashAt
                w' id' = some none := by
  rcases create_cases cfg st w (routineOfBody w body) now newUUID faults with
    heq | ⟨t, r', ht, heq⟩
  · rw [heq]
    exact ⟨rfl, fun _ _ => Or.inl rfl⟩
  · obtain ⟨hr', hfind, hlive⟩ :
        r'.fireTokenHash = none ∧ st.routines.find r'.id = none ∧ ∀ w' id', t.live w' id'
          = if w' = w ∧ id' = r'.id then some (insertedRow w r') else st.routines.live w' id' := by
      have hc := fun w' id' => RoutineTable.live_create ht w' id'
      refine ⟨?_, (hc w "").2.1, fun w' id' => (hc w' id').2.2⟩
      rw [(hc w "").1]
      rfl
    have hself : t.hashAt w r'.id = some none := by
      rw [RoutineTable.hashAt, hlive, if_pos ⟨rfl, rfl⟩]
      exact congrArg some hr'
    have hreg := register_hashAt cfg { st with routines := t } w faults hr' (by rw [hself]; rfl)
    rw [heq]
    refine ⟨hreg.1, fun w' id' => ?_⟩
    rw [hreg.2]
    by_cases hc : w' = w ∧ id' = r'.id
    · rw [hc.1, hc.2]
      exact Or.inr ⟨hashAt_find_none hfind, hself⟩
    · refine Or.inl ?_
      change (t.live w' id').map _ = (st.routines.live w' id').map _
      rw [hlive, if_neg hc]

/-- `SyncSchedules` writes back the row of `r`: the upsert on its schedule
and the write after it succeed. -/
def SyncWrites (cfg : Config σ) (s : Schedules) (faults : SyncFaults) (r : Routine) : Prop :=
  (upsert cfg.sdk r (faults.upsert r.id) (s (scheduleID r.workspaceID r.id))).2 = none
    ∧ faults.mark r.id = none

/-- The sync loop writes NULL over the hash of every routine it writes
back. `s` are the schedules at its start; a routine's own is still the
one of `s` when its turn comes. -/
theorem syncLoop_hashAt (cfg : Config σ) (s : Schedules) (faults : SyncFaults) :
    ∀ (rs : List Routine) (st : State), (rs.map Routine.id).Nodup →
      (∀ r ∈ rs, r.fireTokenHash = none) →
      (∀ r ∈ rs, st.schedules (scheduleID r.workspaceID r.id)
        = s (scheduleID r.workspaceID r.id)) →
      (syncLoop cfg faults st rs).1.draws = st.draws
        ∧ ∀ w id,
          ((∃ r ∈ rs, r.workspaceID = w ∧ r.id = id ∧ SyncWrites cfg s faults r) →
            (syncLoop cfg faults st rs).1.routines.hashAt w id
              = (st.routines.hashAt w id).map (fun _ => none))
          ∧ ((¬ ∃ r ∈ rs, r.workspaceID = w ∧ r.id = id ∧ SyncWrites cfg s faults r) →
            (syncLoop cfg faults st rs).1.routines.hashAt w id = st.routines.hashAt w id)
  | [], st, _, _, _ => ⟨rfl, fun w id => ⟨by simp, fun _ => rfl⟩⟩
  | r :: rs, st, hids, hblank, hs => by
    obtain ⟨st₁, heq, hdraws, hsched, hroutines, -⟩ := syncLoop_cons cfg st r faults rs
    rw [List.map_cons, List.nodup_cons] at hids
    have hwrites : ((upserted cfg st r (faults.upsert r.id)).2 = none
        ∧ faults.mark r.id = none) ↔ SyncWrites cfg s faults r := by
      unfold SyncWrites upserted onSchedule
      rw [hs r List.mem_cons_self]
    have hother : ∀ r' ∈ rs, st₁.schedules (scheduleID r'.workspaceID r'.id)
        = s (scheduleID r'.workspaceID r'.id) := by
      intro r' hr'
      rw [hsched, ← hs r' (List.mem_cons_of_mem _ hr')]
      refine onSchedule_other fun hc => hids.1 ?_
      rw [← (scheduleID_inj hc).2]
      exact List.mem_map_of_mem hr'
    obtain ⟨ihd, ih⟩ := syncLoop_hashAt cfg s faults rs st₁ hids.2
      (fun r' hr' => hblank r' (List.mem_cons_of_mem _ hr')) hother
    refine ⟨by rw [heq, ihd, hdraws], fun w id => ?_⟩
    rw [heq]
    obtain ⟨ihw, ihn⟩ := ih w id
    -- the head of the list decides the row of its own id, the tail all others
    rcases hroutines with ⟨hu, hm, hroutines⟩ | ⟨hno, hroutines⟩
    · have hsw : SyncWrites cfg s faults r := hwrites.mp ⟨hu, hm⟩
      have hhead : (registered r.workspaceID r).fireTokenHash = none :=
        hblank r List.mem_cons_self
      by_cases hrow : w = r.workspaceID ∧ id = r.id
      · obtain ⟨rfl, rfl⟩ := hrow
        have hmine : st₁.routines.hashAt r.workspaceID r.id
            = (st.routines.hashAt r.workspaceID r.id).map (fun _ => none) := by
          rw [hroutines, hashAt_update, if_pos ⟨rfl, rfl⟩, hhead]
        refine ⟨fun _ => ?_, fun hc => absurd ⟨r, List.mem_cons_self, rfl, rfl, hsw⟩ hc⟩
        rw [ihn, hmine]
        rintro ⟨r', hr', -, hid, -⟩
        exact hids.1 (hid ▸ List.mem_map_of_mem hr')
      · have hsame : st₁.routines.hashAt w id = st.routines.hashAt w id := by
          rw [hroutines, hashAt_update]
          exact if_neg hrow
        rw [hsame] at ihw ihn
        refine ⟨fun hc => ihw ?_, fun hc => ihn ?_⟩
        · obtain ⟨r', hr', hw, hid, hsw'⟩ := hc
          rcases List.mem_cons.mp hr' with rfl | hr'
          · exact absurd ⟨hw.symm, hid.symm⟩ hrow
          · exact ⟨r', hr', hw, hid, hsw'⟩
        · rintro ⟨r', hr', hrest⟩
          exact hc ⟨r', List.mem_cons_of_mem _ hr', hrest⟩
    · rw [hroutines] at ihw ihn
      refine ⟨fun hc => ihw ?_, fun hc => ihn ?_⟩
      · obtain ⟨r', hr', hw, hid, hsw'⟩ := hc
        rcases List.mem_cons.mp hr' with rfl | hr'
        · exact absurd (hwrites.mpr hsw') hno
        · exact ⟨r', hr', hw, hid, hsw'⟩
      · rintro ⟨r', hr', hrest⟩
        exact hc ⟨r', List.mem_cons_of_mem _ hr', hrest⟩

end

/-! ## What the callers know -/

/-- The state, and for each routine the token its callers hold. -/
structure Traced where
  st : State
  last : WorkspaceID × String → Option String

def initialTraced : Traced := { st := initialState, last := fun _ => none }

section
variable {σ : Type} (cfg : Config σ)

/-- The tokens after one operation: set by a successful generate or
rotate, forgotten by a successful revoke or delete. -/
def lastAfter (g : Traced) : Op → WorkspaceID × String → Option String
  | .generateFireToken w id read random write | .rotateFireToken w id read random write =>
    match (generateFireToken cfg g.st w id read random write).2 with
    | .ok plain => Function.update g.last (w, id) (some plain)
    | .error _ => g.last
  | .revokeFireToken w id read write =>
    match (revokeFireToken g.st w id read write).2 with
    | none => Function.update g.last (w, id) none
    | some _ => g.last
  | .delete w id remove write =>
    match (delete cfg g.st w id remove write).2 with
    | none => Function.update g.last (w, id) none
    | some _ => g.last
  | .create .. | .update .. | .syncSchedules .. => g.last

def track (g : Traced) (op : Op) : Traced :=
  { st := step cfg g.st op, last := lastAfter cfg g op }

/-- Exactly the tokens the callers hold verify, each for its routine. -/
def TokensOk (g : Traced) : Prop :=
  ∀ w id tok, verifyFireToken cfg g.st w id tok = none ↔ g.last (w, id) = some tok

/-- The operation writes back only rows that carry no token. -/
def KeepsToken (g : Traced) : Op → Prop
  | .update now w r faults =>
    UpdateWrites cfg r now faults → ∀ row, g.st.routines.live w r.id = some row →
      row.fireTokenHash = none
  | .syncSchedules faults =>
    cfg.scheduled = true → faults.list = none →
      ∀ row ∈ g.st.routines.rows, RoutineTable.unscheduled row = true →
        SyncWrites cfg g.st.schedules faults (scanRoutine row) → row.fireTokenHash = none
  | .create .. | .delete .. | .generateFireToken .. | .rotateFireToken ..
  | .revokeFireToken .. => True

/-- The hash column holds the hashes of the tokens the callers hold, no
two routines share a token, and no token is drawn twice. -/
structure TokenInv (g : Traced) : Prop where
  hash : ∀ w id h, g.st.routines.hashAt w id = some h →
    h = (g.last (w, id)).map (tokenHash cfg)
  live : ∀ w id tok, g.last (w, id) = some tok →
    g.st.routines.hashAt w id ≠ none ∧ ∃ n < g.st.draws, tok = cfg.rand n
  distinct : ∀ p q tok, g.last p = some tok → g.last q = some tok → p = q

end

section
variable {σ : Type} {cfg : Config σ} {g : Traced}

theorem initialTraced_inv (cfg : Config σ) : TokenInv cfg initialTraced :=
  ⟨fun w id h hat => by simp [initialTraced, initialState, RoutineTable.hashAt,
      RoutineTable.live] at hat,
    fun w id tok h => (by cases h), fun p q tok h => (by cases h)⟩

/-- A token that verifies is hashed in its routine's live row. -/
theorem verify_hashAt {st : State} {w : WorkspaceID} {id tok : String}
    (h : verifyFireToken cfg st w id tok = none) :
    st.routines.hashAt w id = some (some (tokenHash cfg tok)) := by
  unfold verifyFireToken RoutineTable.getByFireToken at h
  cases hf : st.routines.rows.find?
      (fun row => row.fireTokenHash == some (tokenHash cfg tok) && !row.deleted) with
  | none => simp [hf] at h
  | some row =>
    have hp := List.find?_some hf
    simp only [Bool.and_eq_true, beq_iff_eq, Bool.not_eq_true'] at hp
    simp only [hf, Option.map_some, scanRoutine] at h
    split at h
    · cases h
    · rename_i hw
      split at h
      · cases h
      · rename_i hid
        rw [not_not] at hw hid
        subst hw hid
        rw [RoutineTable.hashAt, RoutineTable.live_of_mem (List.mem_of_find?_eq_some hf) hp.2]
        exact congrArg some hp.1

/-- Under the invariant exactly the held tokens verify. -/
theorem TokenInv.tokensOk (hsha : Function.Injective cfg.sha256) (hg : TokenInv cfg g) :
    TokensOk cfg g := by
  intro w id tok
  constructor
  · intro h
    have hh := hg.hash w id _ (verify_hashAt h)
    cases hl : g.last (w, id) with
    | none => simp [hl] at hh
    | some tok' =>
      rw [hl, Option.map_some, Option.some.injEq] at hh
      rw [hsha hh]
  · intro hl
    obtain ⟨hne, -⟩ := hg.live w id tok hl
    obtain ⟨h, hh⟩ := Option.ne_none_iff_exists'.mp hne
    have hcol := hg.hash w id h hh
    rw [hl, Option.map_some] at hcol
    subst hcol
    obtain ⟨row, hrow, hcol⟩ := Option.map_eq_some_iff.mp hh
    obtain ⟨hmem, -, -, hd⟩ := RoutineTable.live_mem hrow
    -- some live row with this hash is found, and it is the routine's own
    have hsome : (g.st.routines.rows.find?
        (fun row => row.fireTokenHash == some (tokenHash cfg tok) && !row.deleted)).isSome :=
      List.find?_isSome.mpr ⟨row, hmem, by simp [hcol, hd]⟩
    obtain ⟨row', hf⟩ := Option.isSome_iff_exists.mp hsome
    have hp := List.find?_some hf
    simp only [Bool.and_eq_true, beq_iff_eq, Bool.not_eq_true'] at hp
    have hat : g.st.routines.hashAt row'.workspaceID row'.id
        = some (some (tokenHash cfg tok)) := by
      rw [RoutineTable.hashAt, RoutineTable.live_of_mem (List.mem_of_find?_eq_some hf) hp.2]
      exact congrArg some hp.1
    have hlast := hg.hash _ _ _ hat
    cases hl' : g.last (row'.workspaceID, row'.id) with
    | none => simp [hl'] at hlast
    | some tok' =>
      rw [hl', Option.map_some, Option.some.injEq] at hlast
      have hsame := hg.distinct _ _ _ (hsha hlast ▸ hl') hl
      rw [Prod.mk.injEq] at hsame
      unfold verifyFireToken RoutineTable.getByFireToken
      simp [hf, scanRoutine, hsame.1, hsame.2]

/-! ### One operation -/

/-- Rows may be added without a token. -/
theorem TokenInv.grow {g' : Traced} (hg : TokenInv cfg g) (hlast : g'.last = g.last)
    (hdraws : g.st.draws ≤ g'.st.draws)
    (hcol : ∀ w id, g'.st.routines.hashAt w id = g.st.routines.hashAt w id
      ∨ g.st.routines.hashAt w id = none ∧ g'.st.routines.hashAt w id = some none) :
    TokenInv cfg g' := by
  refine ⟨fun w id h hat => ?_, fun w id tok hl => ?_, fun p q tok => ?_⟩
  · rw [hlast]
    rcases hcol w id with hsame | ⟨hnone, hnew⟩
    · exact hg.hash w id h (hsame ▸ hat)
    · rw [hnew, Option.some.injEq] at hat
      cases hl : g.last (w, id) with
      | none => exact hat.symm
      | some tok => exact absurd hnone (hg.live w id tok hl).1
  · rw [hlast] at hl
    obtain ⟨hne, n, hn, hr⟩ := hg.live w id tok hl
    refine ⟨?_, n, lt_of_lt_of_le hn hdraws, hr⟩
    rcases hcol w id with hsame | ⟨hnone, -⟩
    · rwa [hsame]
    · exact absurd hnone hne
  · rw [hlast]
    exact hg.distinct p q tok

/-- A routine's token is forgotten by callers and table alike. -/
theorem TokenInv.forget {g' : Traced} (hg : TokenInv cfg g) {w : WorkspaceID} {id : String}
    (hlast : g'.last = Function.update g.last (w, id) none)
    (hdraws : g'.st.draws = g.st.draws)
    (hmine : g'.st.routines.hashAt w id = none ∨ g'.st.routines.hashAt w id = some none)
    (hcol : ∀ w' id', ¬ (w' = w ∧ id' = id) →
      g'.st.routines.hashAt w' id' = g.st.routines.hashAt w' id') : TokenInv cfg g' := by
  have hother : ∀ w' id', ¬ (w' = w ∧ id' = id) → g'.last (w', id') = g.last (w', id') := by
    intro w' id' hne
    rw [hlast, Function.update_of_ne]
    simpa using hne
  have hgone : g'.last (w, id) = none := by rw [hlast, Function.update_self]
  refine ⟨fun w' id' h hat => ?_, fun w' id' tok hl => ?_, fun p q tok hp hq => ?_⟩
  · by_cases hc : w' = w ∧ id' = id
    · obtain ⟨rfl, rfl⟩ := hc
      rw [hgone]
      rcases hmine with hm | hm
      · cases hm.symm.trans hat
      · rw [hm, Option.some.injEq] at hat
        exact hat.symm
    · rw [hother w' id' hc]
      exact hg.hash w' id' h (hcol w' id' hc ▸ hat)
  · by_cases hc : w' = w ∧ id' = id
    · obtain ⟨rfl, rfl⟩ := hc
      cases hgone.symm.trans hl
    · rw [hother w' id' hc] at hl
      rw [hcol w' id' hc, hdraws]
      exact hg.live w' id' tok hl
  · have hkeep : ∀ p, g'.last p = some tok → g.last p = some tok := by
      rintro ⟨w', id'⟩ hp
      by_cases hc : w' = w ∧ id' = id
      · obtain ⟨rfl, rfl⟩ := hc
        cases hgone.symm.trans hp
      · rwa [hother w' id' hc] at hp
    exact hg.distinct p q tok (hkeep p hp) (hkeep q hq)

/-- A fresh token is issued for a live routine. -/
theorem TokenInv.issue {g' : Traced} (hrand : Function.Injective cfg.rand)
    (hg : TokenInv cfg g) {w : WorkspaceID} {id : String}
    (hlast : g'.last = Function.update g.last (w, id) (some (cfg.rand g.st.draws)))
    (hdraws : g'.st.draws = g.st.draws + 1)
    (hmine : g'.st.routines.hashAt w id
      = some (some (tokenHash cfg (cfg.rand g.st.draws))))
    (hcol : ∀ w' id', ¬ (w' = w ∧ id' = id) →
      g'.st.routines.hashAt w' id' = g.st.routines.hashAt w' id') : TokenInv cfg g' := by
  have hother : ∀ w' id', ¬ (w' = w ∧ id' = id) → g'.last (w', id') = g.last (w', id') := by
    intro w' id' hne
    rw [hlast, Function.update_of_ne]
    simpa using hne
  have hnew : g'.last (w, id) = some (cfg.rand g.st.draws) := by
    rw [hlast, Function.update_self]
  -- no token held before is the one just drawn
  have hfresh : ∀ p, g.last p ≠ some (cfg.rand g.st.draws) := by
    rintro ⟨w', id'⟩ hp
    obtain ⟨-, n, hn, hr⟩ := hg.live w' id' _ hp
    exact absurd (hrand hr) (Nat.ne_of_gt hn)
  refine ⟨fun w' id' h hat => ?_, fun w' id' tok hl => ?_, fun p q tok hp hq => ?_⟩
  · by_cases hc : w' = w ∧ id' = id
    · obtain ⟨rfl, rfl⟩ := hc
      rw [hmine, Option.some.injEq] at hat
      rw [hnew, ← hat]
      rfl
    · rw [hother w' id' hc]
      exact hg.hash w' id' h (hcol w' id' hc ▸ hat)
  · by_cases hc : w' = w ∧ id' = id
    · obtain ⟨rfl, rfl⟩ := hc
      rw [hnew, Option.some.injEq] at hl
      exact ⟨by rw [hmine]; simp, g.st.draws, by rw [hdraws]; exact Nat.lt_succ_self _,
        hl.symm⟩
    · rw [hother w' id' hc] at hl
      obtain ⟨hne, n, hn, hr⟩ := hg.live w' id' tok hl
      exact ⟨by rwa [hcol w' id' hc], n, by rw [hdraws]; exact Nat.lt_succ_of_lt hn, hr⟩
  · have hback : ∀ p, g'.last p = some tok →
        p = (w, id) ∧ tok = cfg.rand g.st.draws ∨ g.last p = some tok := by
      rintro ⟨w', id'⟩ hp
      by_cases hc : w' = w ∧ id' = id
      · obtain ⟨rfl, rfl⟩ := hc
        rw [hnew, Option.some.injEq] at hp
        exact Or.inl ⟨rfl, hp.symm⟩
      · exact Or.inr (by rwa [hother w' id' hc] at hp)
    rcases hback p hp with ⟨rfl, rfl⟩ | hp' <;> rcases hback q hq with ⟨rfl, hq'⟩ | hq'
    · rfl
    · exact absurd hq' (hfresh q)
    · exact absurd (hq' ▸ hp') (hfresh p)
    · exact hg.distinct p q tok hp' hq'

theorem generate_inv (hrand : Function.Injective cfg.rand) (hg : TokenInv cfg g)
    (w : WorkspaceID) (id : String) (read random write : Fault) :
    TokenInv cfg (track cfg g (.generateFireToken w id read random write)) := by
  rcases generateFireToken_cases cfg g.st w id read random write with
    ⟨err, herr, hroutines, -, hdraws⟩ | ⟨row, hlive, heq⟩
  · refine hg.grow ?_ hdraws fun w' id' => Or.inl ?_
    · simp only [track, lastAfter, herr]
    · exact congrArg (fun t => RoutineTable.hashAt t w' id') hroutines
  · have hid := (RoutineTable.live_mem hlive).2.1
    have hcol : ∀ w' id', (track cfg g (.generateFireToken w id read random
        write)).st.routines.hashAt w' id'
        = if w' = w ∧ id' = id then
            (g.st.routines.hashAt w' id').map
              (fun _ => some (tokenHash cfg (cfg.rand g.st.draws)))
          else g.st.routines.hashAt w' id' := by
      intro w' id'
      simp only [track, step, heq]
      rw [hashAt_update]
      simp [scanRoutine, hid]
    refine hg.issue hrand (w := w) ?_ ?_ ?_ fun w' id' hne => by rw [hcol, if_neg hne]
    · simp only [track, lastAfter, heq]
    · simp only [track, step, heq]
    · rw [hcol, if_pos ⟨rfl, rfl⟩, RoutineTable.hashAt, hlive]
      rfl

theorem track_rotate (g : Traced) (w : WorkspaceID) (id : String)
    (read random write : Fault) : track cfg g (.rotateFireToken w id read random write)
      = track cfg g (.generateFireToken w id read random write) := by
  simp only [track, step, lastAfter]

theorem revoke_inv (hg : TokenInv cfg g) (w : WorkspaceID) (id : String)
    (read write : Fault) : TokenInv cfg (track cfg g (.revokeFireToken w id read write)) := by
  rcases revokeFireToken_cases g.st w id read write with ⟨err, heq⟩ | ⟨row, hlive, heq⟩
  · refine hg.grow ?_ ?_ fun w' id' => Or.inl ?_ <;> simp only [track, step, lastAfter, heq]
    rfl
  · have hid := (RoutineTable.live_mem hlive).2.1
    have hcol : ∀ w' id', (track cfg g (.revokeFireToken w id read write)).st.routines.hashAt
        w' id' = if w' = w ∧ id' = id then (g.st.routines.hashAt w' id').map (fun _ => none)
          else g.st.routines.hashAt w' id' := by
      intro w' id'
      simp only [track, step, heq]
      rw [hashAt_update]
      simp [scanRoutine, hid]
    refine hg.forget (w := w) ?_ ?_ ?_ fun w' id' hne => by rw [hcol, if_neg hne]
    · simp only [track, lastAfter, heq]
    · simp only [track, step, heq]
    · rw [hcol, if_pos ⟨rfl, rfl⟩]
      cases g.st.routines.hashAt w id <;> simp

theorem delete_inv (hg : TokenInv cfg g) (w : WorkspaceID) (id : String)
    (remove write : Fault) : TokenInv cfg (track cfg g (.delete w id remove write)) := by
  obtain ⟨hdraws, -, hcases⟩ := delete_cases cfg g.st w id remove write
  rcases hcases with ⟨⟨err, herr⟩, -, hroutines⟩ | ⟨hok, -, hroutines⟩
  · refine hg.grow ?_ (le_of_eq hdraws.symm) fun w' id' => Or.inl ?_
    · simp only [track, lastAfter, herr]
    · exact congrArg (fun t => RoutineTable.hashAt t w' id') hroutines
  · have hcol : ∀ w' id', (track cfg g (.delete w id remove write)).st.routines.hashAt w' id'
        = if w' = w ∧ id' = id then none else g.st.routines.hashAt w' id' := by
      intro w' id'
      refine (congrArg (fun t => RoutineTable.hashAt t w' id') hroutines).trans ?_
      exact hashAt_delete
    refine hg.forget (w := w) ?_ hdraws (Or.inl ?_) fun w' id' hne => by rw [hcol, if_neg hne]
    · simp only [track, lastAfter, hok]
    · rw [hcol, if_pos ⟨rfl, rfl⟩]

/-- Written back rows without a token stay as they are. -/
theorem hashAt_writeBack {t : RoutineTable} {w : WorkspaceID} {id : String} {h : Option (Option String)}
    (hwrite : h = (t.hashAt w id).map (fun _ => none))
    (hblank : ∀ row, t.live w id = some row → row.fireTokenHash = none) :
    h = t.hashAt w id := by
  rw [hwrite, RoutineTable.hashAt]
  cases hl : t.live w id with
  | none => rfl
  | some row => simp [hblank row hl]

theorem live_unscheduled {t : RoutineTable} {row : Row} (hrow : row ∈ t.rows)
    (hu : RoutineTable.unscheduled row = true) :
    t.live row.workspaceID row.id = some row := by
  refine RoutineTable.live_of_mem hrow ?_
  simp only [RoutineTable.unscheduled, Bool.and_eq_true, Bool.not_eq_true'] at hu
  exact hu.2

/-- `SyncSchedules`, on the column: NULL in the rows it writes back, all
others as before. -/
theorem sync_hashAt (cfg : Config σ) (st : State) (faults : SyncFaults) :
    (syncSchedules cfg st faults).1.draws = st.draws
      ∧ (cfg.scheduled = true → faults.list = none → ∀ row ∈ st.routines.rows,
          RoutineTable.unscheduled row = true →
          SyncWrites cfg st.schedules faults (scanRoutine row) →
          (syncSchedules cfg st faults).1.routines.hashAt row.workspaceID row.id = some none)
      ∧ ∀ w id, (syncSchedules cfg st faults).1.routines.hashAt w id = st.routines.hashAt w id
        ∨ cfg.scheduled = true ∧ faults.list = none
          ∧ ∃ row ∈ st.routines.rows, RoutineTable.unscheduled row = true
            ∧ SyncWrites cfg st.schedules faults (scanRoutine row)
            ∧ row.workspaceID = w ∧ row.id = id := by
  rcases syncSchedules_cases cfg st faults with ⟨heq, hoff⟩ | ⟨hs, hl, heq, -⟩
  · rw [heq]
    refine ⟨rfl, fun hs hl => ?_, fun _ _ => Or.inl rfl⟩
    rcases hoff with hoff | ⟨-, hne⟩
    · cases hoff.symm.trans hs
    · exact absurd hl hne
  · obtain ⟨hdraws, hcol⟩ := syncLoop_hashAt cfg st.schedules faults
      st.routines.listUnscheduled st st.routines.listUnscheduled_nodup
      (fun r hr => by
        obtain ⟨row, -, -, rfl⟩ := RoutineTable.mem_listUnscheduled.mp hr
        rfl) (fun _ _ => rfl)
    rw [heq]
    refine ⟨hdraws, fun _ _ row hrow hu hw => ?_, fun w id => ?_⟩
    · rw [(hcol row.workspaceID row.id).1
        ⟨scanRoutine row, RoutineTable.mem_listUnscheduled.mpr ⟨row, hrow, hu, rfl⟩, rfl, rfl, hw⟩,
        RoutineTable.hashAt, live_unscheduled hrow hu]
      rfl
    · by_cases hw : ∃ r ∈ st.routines.listUnscheduled, r.workspaceID = w ∧ r.id = id
          ∧ SyncWrites cfg st.schedules faults r
      · obtain ⟨r, hr, hrw, hrid, hsw⟩ := hw
        obtain ⟨row, hrow, hu, rfl⟩ := RoutineTable.mem_listUnscheduled.mp hr
        exact Or.inr ⟨hs, hl, row, hrow, hu, hsw, hrw, hrid⟩
      · exact Or.inl ((hcol w id).2 hw)

/-- The step lemma. -/
theorem TokenInv.next (hrand : Function.Injective cfg.rand) (hg : TokenInv cfg g) (op : Op)
    (hk : KeepsToken cfg g op) : TokenInv cfg (track cfg g op) := by
  cases op with
  | create now newUUID w body faults =>
    obtain ⟨hdraws, hcol⟩ := create_hashAt cfg g.st now newUUID w body faults
    have hst : (track cfg g (.create now newUUID w body faults)).st
        = (create cfg g.st now newUUID w (routineOfBody w body) faults).1 := by
      simp only [track, step]
    rw [← hst] at hdraws hcol
    exact hg.grow rfl (le_of_eq hdraws.symm) hcol
  | update now w r faults =>
    obtain ⟨hdraws, hno, hyes⟩ := update_hashAt cfg g.st now w r faults
    refine hg.grow rfl (le_of_eq hdraws.symm) fun w' id' => Or.inl ?_
    by_cases hw : UpdateWrites cfg r now faults
    · have hcol := hyes hw w' id'
      split at hcol
      · rename_i hc
        obtain ⟨rfl, rfl⟩ := hc
        exact hashAt_writeBack hcol (hk hw)
      · exact hcol
    · exact congrArg (fun t => RoutineTable.hashAt t w' id') (hno hw)
  | delete w id remove write => exact delete_inv hg w id remove write
  | syncSchedules faults =>
    obtain ⟨hdraws, hnull, hcol⟩ := sync_hashAt cfg g.st faults
    refine hg.grow rfl (le_of_eq hdraws.symm) fun w' id' => Or.inl ?_
    rcases hcol w' id' with hsame | ⟨hs, hl, row, hrow, hu, hw, rfl, rfl⟩
    · exact hsame
    · refine (hnull hs hl row hrow hu hw).trans ?_
      rw [RoutineTable.hashAt, live_unscheduled hrow hu, Option.map_some,
        hk hs hl row hrow hu hw]
  | generateFireToken w id read random write => exact generate_inv hrand hg w id read random write
  | rotateFireToken w id read random write =>
    rw [track_rotate]
    exact generate_inv hrand hg w id read random write
  | revokeFireToken w id read write => exact revoke_inv hg w id read write

/-- A step that writes back a row with a token loses the token. -/
theorem TokenInv.lost (hg : TokenInv cfg g) (op : Op) (hk : ¬ KeepsToken cfg g op) :
    ¬ TokensOk cfg (track cfg g op) := by
  intro hok
  -- whoever's column became NULL still has a holder of its old token
  have hlost : ∀ w id row, g.st.routines.live w id = some row → row.fireTokenHash ≠ none →
      (track cfg g op).last = g.last →
      (track cfg g op).st.routines.hashAt w id = some none → False := by
    intro w id row hlive hne hlast hnull
    have hat : g.st.routines.hashAt w id = some row.fireTokenHash := by
      rw [RoutineTable.hashAt, hlive]
      rfl
    have hcol := hg.hash w id _ hat
    cases hl : g.last (w, id) with
    | none =>
      rw [hl] at hcol
      exact hne hcol
    | some tok =>
      have hv := (hok w id tok).mpr (by rw [hlast, hl])
      have hsome := verify_hashAt hv
      rw [hnull] at hsome
      cases hsome
  cases op with
  | update now w r faults =>
    simp only [KeepsToken, not_forall] at hk
    obtain ⟨hw, row, hlive, hne⟩ := hk
    refine hlost w r.id row hlive hne rfl ?_
    have hcol := (update_hashAt cfg g.st now w r faults).2.2 hw w r.id
    rw [if_pos ⟨rfl, rfl⟩] at hcol
    refine hcol.trans ?_
    rw [RoutineTable.hashAt, hlive]
    rfl
  | syncSchedules faults =>
    simp only [KeepsToken, not_forall] at hk
    obtain ⟨hs, hl, row, hrow, hu, hw, hne⟩ := hk
    exact hlost _ _ row (live_unscheduled hrow hu) hne rfl
      ((sync_hashAt cfg g.st faults).2.1 hs hl row hrow hu hw)
  | create now newUUID w body faults => exact hk trivial
  | delete w id remove write => exact hk trivial
  | generateFireToken w id read random write => exact hk trivial
  | rotateFireToken w id read random write => exact hk trivial
  | revokeFireToken w id read write => exact hk trivial

/-- In every run from the empty table: exactly the tokens the callers
hold verify at every point, if and only if no `Update` and no
`SyncSchedules` of the run writes back a routine that has one. -/
theorem fire_tokens_ok_iff (cfg : Config σ) (hsha : Function.Injective cfg.sha256)
    (hrand : Function.Injective cfg.rand) (ops : List Op) :
    Lib.Always (TokensOk cfg) (track cfg) initialTraced ops
      ↔ Lib.Along (KeepsToken cfg) (track cfg) initialTraced ops :=
  Lib.always_iff_along (fun _ op hg hk => TokenInv.next hrand hg op hk)
    (fun _ hg => hg.tokensOk hsha) (fun _ op hg hk => hg.lost op hk) ops initialTraced
    (initialTraced_inv cfg)

end

/-! ### An edit after a token was issued -/

/-- A routine is created, gets a token, and is saved again unchanged. -/
def editAfterToken : List Op :=
  [.create 0 reportID defaultWorkspaceID reportBody {},
    .generateFireToken defaultWorkspaceID reportID none none none,
    .update 0 defaultWorkspaceID
      { routineOfBody defaultWorkspaceID reportBody with id := reportID } {}]

/-- After the edit the token its caller holds is refused. -/
theorem edit_drops_fire_token :
    ¬ Lib.Always (TokensOk exampleConfig) (track exampleConfig) initialTraced
      editAfterToken := by
  intro h
  have hv := (h.last defaultWorkspaceID reportID zeroToken).mpr (by decide)
  exact absurd hv (by decide)

/-- The law on a run without such an edit. -/
theorem fire_tokens_ok_iff_rotated :
    Lib.Always (TokensOk exampleConfig) (track exampleConfig) initialTraced
        [.create 0 reportID defaultWorkspaceID reportBody {},
          .generateFireToken defaultWorkspaceID reportID none none none]
      ↔ Lib.Along (KeepsToken exampleConfig) (track exampleConfig) initialTraced
        [.create 0 reportID defaultWorkspaceID reportBody {},
          .generateFireToken defaultWorkspaceID reportID none none none] :=
  fire_tokens_ok_iff exampleConfig (Equiv.injective _) exampleConfig_rand_injective _

end LendingClaw.Routines
