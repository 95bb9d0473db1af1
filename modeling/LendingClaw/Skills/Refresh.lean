/-
LendingClaw.Skills.Refresh — the skills cache under concurrent loads
(`Cache.load`, `refreshAll`, `get` and `Refresh` of
`internal/skills/cache.go`, with the handlers of
`internal/transport/http/handler/skills.go` that change the table and
refresh the cache).

A load reads the store and later installs what it read; between the two
anything can happen. Nothing orders the installs, and a load whose read
failed installs an entry without skills. `cache_fresh` says that loads
which install in the order they read, and of which none fails over a
loaded entry or for a handler, keep the cache fresh.
-/
import LendingClaw.Skills.Restriction
import LendingClaw.Store.Workspace
import LendingClaw.Lib.Parties
import LendingClaw.Lib.Runs
import LendingClaw.Lib.Table
import Mathlib.Data.List.AList
import Mathlib.Data.List.Sort
import Mathlib.Order.WithBot

namespace LendingClaw.Skills

open LendingClaw.Store

/-! ## The table -/

/-- A row of `skills`. -/
structure SkillRow where
  workspaceID : WorkspaceID
  skill : Skill

def SkillRow.id (r : SkillRow) : String := r.skill.id

/-- `skills`. The name is unique in its workspace, which the statements
check. -/
abbrev SkillTable := Lib.Table SkillRow String SkillRow.id

/-- `List`: the skills of a workspace, by name. -/
def SkillTable.list (t : SkillTable) (w : WorkspaceID) : List Skill :=
  ((t.select fun r => r.workspaceID == w).map SkillRow.skill).insertionSort
    (fun s s' => s.name ≤ s'.name)

/-- `normalizeSkillMetadata`. -/
def normalizeSkillMetadata (skill : Skill) : Skill :=
  { skill with metadata := skill.metadata.filter fun s => Lib.trimSpace s != "" }

/-- Another row of the workspace has the name. -/
def SkillTable.nameTaken (t : SkillTable) (w : WorkspaceID) (id name : String) : Bool :=
  t.rows.any fun r => r.workspaceID == w && r.skill.name == name && r.skill.id != id

/-- `Create`. -/
def SkillTable.create (t : SkillTable) (w : WorkspaceID) (skill : Skill) : Option SkillTable :=
  if t.nameTaken w skill.id skill.name then none
  else t.insert { workspaceID := w, skill := normalizeSkillMetadata skill }

/-- The assignments of `Update`, on the row of the workspace. -/
def SkillRow.withSkill (w : WorkspaceID) (skill : Skill) (r : SkillRow) : SkillRow :=
  if r.workspaceID = w then
    { r with skill := { normalizeSkillMetadata skill with id := r.skill.id } }
  else r

theorem SkillRow.withSkill_id (w : WorkspaceID) (skill : Skill) (r : SkillRow) :
    (r.withSkill w skill).id = r.id := by
  unfold SkillRow.withSkill
  split
  · rfl
  · rfl

/-- `Update`; no row is no error. -/
def SkillTable.update (t : SkillTable) (w : WorkspaceID) (skill : Skill) : Option SkillTable :=
  if t.nameTaken w skill.id skill.name then none
  else some (Lib.Table.update t skill.id (SkillRow.withSkill w skill) (SkillRow.withSkill_id w skill))

/-- `Delete`; no row is no error. -/
def SkillTable.delete (t : SkillTable) (w : WorkspaceID) (id : String) : SkillTable :=
  Lib.Table.delete t fun r => r.workspaceID == w && r.skill.id == id

/-- What a handler asks of the table, with the skill as the frontmatter
names it. -/
inductive SkillChange where
  | create (skill : Skill)
  | update (skill : Skill)
  | delete (id : String)

/-- `none` is an error of the statement. -/
def SkillChange.exec (t : SkillTable) (w : WorkspaceID) (fault : Fault) :
    SkillChange → Option SkillTable
  | .create skill => if fault.isSome then none else t.create w skill
  | .update skill => if fault.isSome then none else t.update w skill
  | .delete id => if fault.isSome then none else some (t.delete w id)

/-- `Create` and `Update` write the reference files next. -/
def SkillChange.replacesFiles : SkillChange → Bool
  | .create _ => true
  | .update _ => true
  | .delete _ => false

/-! ## The cache and its loads -/

/-- What `Cache.load` builds an entry of: what `List` answered, and when:
how many changes the store had seen. After an error, no skills and `⊥`. -/
structure Snapshot where
  skills : List Skill
  readAt : WithBot Nat

/-- An installed entry. -/
structure Installed (R : Type) where
  entry : WsEntry R
  readAt : WithBot Nat

/-- A goroutine with loads to do, one after the other: a handler that has
changed the store, a pass of `refreshAll` or a `get` that found nothing.
`change` is the workspace a handler changed and the version it made. -/
structure Task where
  todo : List WorkspaceID
  read : Option (WorkspaceID × Snapshot) := none
  change : Option (WorkspaceID × Nat) := none

/-- The store with its past, oldest first; the entries; the goroutines;
and the changes whose handlers have answered successfully. -/
structure CacheState (R : Type) where
  past : List SkillTable
  table : SkillTable
  entries : AList (fun _ : WorkspaceID => Installed R)
  tasks : List Task
  answered : List (WorkspaceID × Nat)

/-- What happens next: a handler changes the store, a tick starts a pass
in the order the map gives, an accessor asks for a workspace; the i-th
goroutine reads, installs or, with nothing left, ends. -/
inductive CacheEvent where
  | change (w : WorkspaceID) (c : SkillChange) (exec files : Fault)
  | refreshAll (ids : List WorkspaceID)
  | get (w : WorkspaceID)
  | read (i : Nat) (fault : Fault)
  | install (i : Nat)
  | answer (i : Nat)

section
variable {R : Type} [Number R] (u : Unicode)

def CacheState.start (t : SkillTable) : CacheState R :=
  { past := [], table := t, entries := ∅, tasks := [], answered := [] }

/-- The states the store has been in. -/
def CacheState.states (s : CacheState R) : List SkillTable := s.past ++ [s.table]

/-- `Create`, `Update` and `Delete` of the handler up to `refreshCache`. -/
def CacheState.change (s : CacheState R) (w : WorkspaceID) (c : SkillChange) (exec files : Fault) :
    CacheState R :=
  match c.exec s.table w exec with
  | none => s
  | some t =>
    let s := { s with past := s.past ++ [s.table], table := t }
    if c.replacesFiles && files.isSome then s
    else { s with tasks := s.tasks ++ [{ todo := [w], change := some (w, s.past.length) }] }

/-- `refreshAll` up to its loop. -/
def CacheState.refreshAll (s : CacheState R) (ids : List WorkspaceID) : CacheState R :=
  if ids.isPerm s.entries.keys then { s with tasks := s.tasks ++ [{ todo := ids }] } else s

/-- `get`, which loads what is absent. -/
def CacheState.get (s : CacheState R) (w : WorkspaceID) : CacheState R :=
  match s.entries.lookup w with
  | some _ => s
  | none => { s with tasks := s.tasks ++ [{ todo := [w] }] }

/-- The snapshot of a load. -/
def CacheState.snapshot (s : CacheState R) (w : WorkspaceID) (fault : Fault) : Snapshot :=
  match fault with
  | some _ => { skills := [], readAt := ⊥ }
  | none => { skills := s.table.list w, readAt := WithBot.some s.past.length }

/-- `load` up to the lock. -/
def CacheState.read (s : CacheState R) (i : Nat) (fault : Fault) : CacheState R :=
  match s.tasks[i]? with
  | some { todo := w :: todo, read := none, change := change } =>
    { s with
      tasks := s.tasks.set i
        { todo := todo, read := some (w, s.snapshot w fault), change := change } }
  | _ => s

/-- The rest of `load`. -/
def CacheState.install (s : CacheState R) (i : Nat) : CacheState R :=
  match s.tasks[i]? with
  | some { todo := todo, read := some (w, snap), change := change } =>
    { s with
      entries := s.entries.insert w
        { entry := WsEntry.load u snap.skills, readAt := snap.readAt }
      tasks := s.tasks.set i { todo := todo, read := none, change := change } }
  | _ => s

/-- The end of a goroutine; a handler answers success. -/
def CacheState.answer (s : CacheState R) (i : Nat) : CacheState R :=
  match s.tasks[i]? with
  | some { todo := [], read := none, change := change } =>
    { s with tasks := s.tasks.eraseIdx i, answered := s.answered ++ change.toList }
  | _ => s

def CacheState.step (s : CacheState R) : CacheEvent → CacheState R
  | .change w c exec files => s.change w c exec files
  | .refreshAll ids => s.refreshAll ids
  | .get w => s.get w
  | .read i fault => s.read i fault
  | .install i => s.install u i
  | .answer i => s.answer i

/-! ## The property -/

/-- What the accessors find after an answered change: the entry of a
store state at least as recent. -/
def Fresh (s : CacheState R) : Prop :=
  ∀ w m, (w, m) ∈ s.answered → ∃ v t c, m ≤ v ∧ s.states[v]? = some t
    ∧ s.entries.lookup w = some c ∧ c.entry = WsEntry.load u (t.list w)

/-- A failed read does not put an empty entry in the place of a loaded
one that is not. -/
def KeepsLoaded (s : CacheState R) : CacheEvent → Prop
  | .install i => ∀ task ∈ s.tasks[i]?, ∀ read ∈ task.read, read.2.readAt = ⊥ →
      ∀ c ∈ s.entries.lookup read.1, c.entry.skills ≠ [] →
        ∃ c' ∈ (s.install u i).entries.lookup read.1, c'.entry.skills ≠ []
  | _ => True

instance KeepsLoaded.instDecidable (s : CacheState R) : (e : CacheEvent) → Decidable (KeepsLoaded u s e)
  | .install i => inferInstanceAs (Decidable (∀ task ∈ s.tasks[i]?, ∀ read ∈ task.read,
      read.2.readAt = ⊥ → ∀ c ∈ s.entries.lookup read.1, c.entry.skills ≠ [] →
        ∃ c' ∈ (s.install u i).entries.lookup read.1, c'.entry.skills ≠ []))
  | .change _ _ _ _ | .refreshAll _ | .get _ | .read _ _ | .answer _ => .isTrue trivial

/-- When the entry of a workspace was read. -/
def CacheState.readAt (s : CacheState R) (w : WorkspaceID) : WithBot Nat :=
  (s.entries.lookup w).elim ⊥ Installed.readAt

/-- A load does not install what it read before the load of the entry in
place, nor a failed read over one that was served; and the load of a
handler is served. -/
def CacheState.InOrder (s : CacheState R) : CacheEvent → Prop
  | .install i => ∀ task ∈ s.tasks[i]?, ∀ read ∈ task.read,
      s.readAt read.1 ≤ read.2.readAt ∧ (task.change ≠ none → read.2.readAt ≠ ⊥)
  | _ => True

instance CacheState.InOrder.instDecidable (s : CacheState R) :
    (e : CacheEvent) → Decidable (s.InOrder e)
  | .install i => inferInstanceAs (Decidable (∀ task ∈ s.tasks[i]?, ∀ read ∈ task.read,
      s.readAt read.1 ≤ read.2.readAt ∧ (task.change ≠ none → read.2.readAt ≠ ⊥)))
  | .change _ _ _ _ | .refreshAll _ | .get _ | .read _ _ | .answer _ => .isTrue trivial

/-! ## The invariant -/

/-- The snapshot is what a load of the workspace has read. -/
def Snapshot.Of (snap : Snapshot) (s : CacheState R) (w : WorkspaceID) : Prop :=
  snap.readAt = ⊥ ∧ snap.skills = []
    ∨ ∃ v t, snap.readAt = WithBot.some v ∧ s.states[v]? = some t ∧ snap.skills = t.list w

/-- The entry was built from a snapshot. -/
def Installed.Good (c : Installed R) (s : CacheState R) (w : WorkspaceID) : Prop :=
  ∃ snap : Snapshot, snap.Of s w ∧ c = { entry := WsEntry.load u snap.skills, readAt := snap.readAt }

/-- How far the refresh of a change is: to be read, read since the
change, or installed. -/
def Task.Refreshes (task : Task) (s : CacheState R) (w : WorkspaceID) (m : Nat) : Prop :=
  task.todo = [w] ∧ task.read = none
    ∨ task.todo = [] ∧ (∃ snap, task.read = some (w, snap) ∧ (snap.readAt = ⊥ ∨ WithBot.some m ≤ snap.readAt))
    ∨ task.todo = [] ∧ task.read = none ∧ WithBot.some m ≤ s.readAt w

structure Task.Good (task : Task) (s : CacheState R) : Prop where
  read : ∀ w snap, task.read = some (w, snap) → snap.Of s w
  change : ∀ w m, task.change = some (w, m) → m ≤ s.past.length ∧ task.Refreshes s w m

structure CacheState.Inv (s : CacheState R) : Prop where
  entry : ∀ w c, s.entries.lookup w = some c → c.Good u s w
  task : ∀ task ∈ s.tasks, task.Good s
  answered : ∀ w m, (w, m) ∈ s.answered → WithBot.some m ≤ s.readAt w

/-- The store moves on, and the entries do not go back. -/
structure CacheState.Grows (s s' : CacheState R) : Prop where
  states : ∀ (v : Nat) (t : SkillTable), s.states[v]? = some t → s'.states[v]? = some t
  past : s.past.length ≤ s'.past.length
  readAt : ∀ w, s.readAt w ≤ s'.readAt w

variable {u} {s s' : CacheState R} {w : WorkspaceID}

omit [Number R] in
theorem Snapshot.Of.grow {snap : Snapshot} (h : snap.Of s w) (hg : s.Grows s') : snap.Of s' w := by
  rcases h with h | ⟨v, t, hv, ht, hskills⟩
  · exact Or.inl h
  · exact Or.inr ⟨v, t, hv, hg.states v t ht, hskills⟩

theorem Installed.Good.grow {c : Installed R} (h : c.Good u s w) (hg : s.Grows s') :
    c.Good u s' w := by
  obtain ⟨snap, hof, hc⟩ := h
  exact ⟨snap, hof.grow hg, hc⟩

omit [Number R] in
theorem Task.Good.grow {task : Task} (h : task.Good s) (hg : s.Grows s') : task.Good s' := by
  constructor
  · intro w snap hread
    exact (h.read w snap hread).grow hg
  · intro w m hchange
    obtain ⟨hm, hrefreshes⟩ := h.change w m hchange
    refine ⟨hm.trans hg.past, ?_⟩
    rcases hrefreshes with h | h | ⟨htodo, hread, hle⟩
    · exact Or.inl h
    · exact Or.inr (Or.inl h)
    · exact Or.inr (Or.inr ⟨htodo, hread, hle.trans (hg.readAt w)⟩)

/-- What a step has to show: that the state grows, and that what is new
in it is good. -/
theorem CacheState.Inv.grow (h : s.Inv u) (hg : s.Grows s')
    (hentry : ∀ w c, s'.entries.lookup w = some c → s.entries.lookup w = some c ∨ c.Good u s' w)
    (htask : ∀ task ∈ s'.tasks, task ∈ s.tasks ∨ task.Good s')
    (hanswered : ∀ w m, (w, m) ∈ s'.answered → (w, m) ∈ s.answered ∨ WithBot.some m ≤ s'.readAt w) :
    s'.Inv u := by
  constructor
  · intro w c hc
    rcases hentry w c hc with hold | hnew
    · exact (h.entry w c hold).grow hg
    · exact hnew
  · intro task hmem
    rcases htask task hmem with hold | hnew
    · exact (h.task task hold).grow hg
    · exact hnew
  · intro w m hmem
    rcases hanswered w m hmem with hold | hnew
    · exact (h.answered w m hold).trans (hg.readAt w)
    · exact hnew

omit [Number R] in
/-- A step that leaves the store and the entries. -/
theorem CacheState.grows_of_eq (hpast : s'.past = s.past) (htable : s'.table = s.table)
    (hentries : s'.entries = s.entries) : s.Grows s' := by
  refine ⟨fun v t ht => ?_, (congrArg List.length hpast).ge, fun w => ?_⟩
  · unfold CacheState.states at *
    rw [hpast, htable]
    exact ht
  · unfold CacheState.readAt
    rw [hentries]

theorem CacheState.Inv.start (t : SkillTable) : (CacheState.start t : CacheState R).Inv u := by
  constructor
  · intro w c hc
    simp [CacheState.start] at hc
  · intro task hmem
    cases hmem
  · intro w m hmem
    cases hmem

/-! ## Steps -/

/-- A new goroutine. -/
theorem CacheState.Inv.spawn (h : s.Inv u) {task : Task} (hgood : task.Good s) :
    ({ s with tasks := s.tasks ++ [task] } : CacheState R).Inv u := by
  have hg : s.Grows { s with tasks := s.tasks ++ [task] } := CacheState.grows_of_eq rfl rfl rfl
  refine h.grow hg (fun w c hc => Or.inl hc) (fun task' hmem => ?_) (fun w m hmem => Or.inl hmem)
  rcases List.mem_append.mp hmem with hold | hnew
  · exact Or.inl hold
  · rw [List.mem_singleton.mp hnew]
    exact Or.inr (hgood.grow hg)

theorem CacheState.Inv.change (h : s.Inv u) (w : WorkspaceID) (c : SkillChange) (exec files : Fault) :
    (s.change w c exec files).Inv u := by
  unfold CacheState.change
  cases c.exec s.table w exec with
  | none => exact h
  | some t =>
    let s₁ : CacheState R := { s with past := s.past ++ [s.table], table := t }
    have hg : s.Grows s₁ := by
      refine ⟨fun v t' ht' => ?_, ?_, fun w => le_rfl⟩
      · exact Lib.getElem?_append_of_some ht' _
      · simp [s₁]
    have h₁ : s₁.Inv u :=
      h.grow hg (fun w c hc => Or.inl hc) (fun task hmem => Or.inl hmem) (fun w m hmem => Or.inl hmem)
    dsimp only
    split
    · exact h₁
    · refine h₁.spawn ⟨fun w snap hread => ?_, fun w' m hchange => ?_⟩
      · cases hread
      · cases hchange
        exact ⟨le_rfl, Or.inl ⟨rfl, rfl⟩⟩

omit [Number R] in
/-- A goroutine that changed nothing. -/
theorem Task.good_of_idle (todo : List WorkspaceID) : Task.Good { todo := todo } s := by
  constructor
  · intro w snap hread
    cases hread
  · intro w m hchange
    cases hchange

theorem CacheState.Inv.refreshAll (h : s.Inv u) (ids : List WorkspaceID) : (s.refreshAll ids).Inv u := by
  unfold CacheState.refreshAll
  split
  · exact h.spawn (Task.good_of_idle ids)
  · exact h

theorem CacheState.Inv.get (h : s.Inv u) (w : WorkspaceID) : (s.get w).Inv u := by
  unfold CacheState.get
  split
  · exact h
  · exact h.spawn (Task.good_of_idle [w])

omit [Number R] in
theorem CacheState.snapshot_of (s : CacheState R) (w : WorkspaceID) (fault : Fault) :
    (s.snapshot w fault).Of s w := by
  cases fault with
  | some err => exact Or.inl ⟨rfl, rfl⟩
  | none => exact Or.inr ⟨s.past.length, s.table, rfl, by simp [CacheState.states], rfl⟩

theorem CacheState.Inv.read (h : s.Inv u) (i : Nat) (fault : Fault) : (s.read i fault).Inv u := by
  unfold CacheState.read
  split
  · rename_i w todo change htask
    have hgood := h.task _ (List.mem_of_getElem? htask)
    have hg : s.Grows { s with
        tasks := s.tasks.set i { todo := todo, read := some (w, s.snapshot w fault), change := change } } :=
      CacheState.grows_of_eq rfl rfl rfl
    refine h.grow hg (fun w c hc => Or.inl hc) (fun task hmem => ?_) (fun w m hmem => Or.inl hmem)
    rcases List.mem_or_eq_of_mem_set hmem with hold | rfl
    · exact Or.inl hold
    · refine Or.inr ⟨fun w' snap hread => ?_, fun w' m hchange => ?_⟩
      · cases hread
        exact (s.snapshot_of w fault).grow hg
      · obtain ⟨hm, hrefreshes⟩ := hgood.change w' m hchange
        refine ⟨hm, ?_⟩
        rcases hrefreshes with ⟨htodo, -⟩ | ⟨htodo, -⟩ | ⟨htodo, -⟩
        · cases htodo
          refine Or.inr (Or.inl ⟨rfl, _, rfl, ?_⟩)
          cases fault with
          | some err => exact Or.inl rfl
          | none => exact Or.inr (WithBot.coe_le_coe.mpr hm)
        · cases htodo
        · cases htodo
  · exact h

omit [Number R] in
/-- The entries after an install. -/
theorem CacheState.readAt_insert (s : CacheState R) (w w' : WorkspaceID) (c : Installed R)
    (tasks : List Task) :
    CacheState.readAt { s with entries := s.entries.insert w c, tasks := tasks } w'
      = if w' = w then c.readAt else s.readAt w' := by
  unfold CacheState.readAt
  by_cases hw : w' = w
  · subst hw
    rw [if_pos rfl, AList.lookup_insert]
    rfl
  · rw [if_neg hw, AList.lookup_insert_ne hw]

theorem CacheState.Inv.install (h : s.Inv u) {i : Nat} (hord : s.InOrder (.install i)) :
    (s.install u i).Inv u := by
  unfold CacheState.install
  split
  · rename_i todo w snap change htask
    have hgood := h.task _ (List.mem_of_getElem? htask)
    have hof := hgood.read w snap rfl
    obtain ⟨hle, hserved⟩ := hord _ htask (w, snap) rfl
    let tasks := s.tasks.set i { todo := todo, read := none, change := change }
    let c : Installed R := { entry := WsEntry.load u snap.skills, readAt := snap.readAt }
    have hg : s.Grows { s with entries := s.entries.insert w c, tasks := tasks } := by
      refine ⟨fun v t ht => ht, le_rfl, fun w' => ?_⟩
      rw [CacheState.readAt_insert]
      split
      · rename_i hw
        rw [hw]
        exact hle
      · exact le_rfl
    refine h.grow hg (fun w' c' hc => ?_) (fun task hmem => ?_) (fun w m hmem => Or.inl hmem)
    · by_cases hw : w' = w
      · subst hw
        rw [AList.lookup_insert] at hc
        cases hc
        exact Or.inr ⟨snap, hof.grow hg, rfl⟩
      · rw [AList.lookup_insert_ne hw] at hc
        exact Or.inl hc
    · rcases List.mem_or_eq_of_mem_set hmem with hold | rfl
      · exact Or.inl hold
      · refine Or.inr ⟨fun w' snap hread => ?_, fun w' m hchange => ?_⟩
        · cases hread
        · obtain ⟨hm, hrefreshes⟩ := hgood.change w' m hchange
          refine ⟨hm, ?_⟩
          rcases hrefreshes with ⟨-, hread⟩ | ⟨htodo, snap', hread, hsince⟩ | ⟨-, hread, -⟩
          · cases hread
          · cases hread
            refine Or.inr (Or.inr ⟨htodo, rfl, ?_⟩)
            rw [CacheState.readAt_insert, if_pos rfl]
            have hchanged : change ≠ none := by
              intro hnone
              cases hnone.symm.trans hchange
            exact hsince.resolve_left (hserved hchanged)
          · cases hread
  · exact h

theorem CacheState.Inv.answer (h : s.Inv u) (i : Nat) : (s.answer i).Inv u := by
  unfold CacheState.answer
  split
  · rename_i change htask
    have hgood := h.task _ (List.mem_of_getElem? htask)
    refine h.grow (CacheState.grows_of_eq rfl rfl rfl) (fun w c hc => Or.inl hc)
      (fun task hmem => Or.inl (List.mem_of_mem_eraseIdx hmem)) (fun w m hmem => ?_)
    rcases List.mem_append.mp hmem with hold | hnew
    · exact Or.inl hold
    · obtain ⟨-, hrefreshes⟩ := hgood.change w m (Option.mem_toList.mp hnew)
      rcases hrefreshes with ⟨htodo, -⟩ | ⟨-, snap, hread, -⟩ | ⟨-, -, hle⟩
      · cases htodo
      · cases hread
      · exact Or.inr hle
  · exact h

theorem CacheState.Inv.step (h : s.Inv u) {event : CacheEvent} (hord : s.InOrder event) :
    (s.step u event).Inv u := by
  cases event with
  | change w c exec files => exact h.change w c exec files
  | refreshAll ids => exact h.refreshAll ids
  | get w => exact h.get w
  | read i fault => exact h.read i fault
  | install i => exact h.install hord
  | answer i => exact h.answer i

/-! ## Runs -/

theorem CacheState.Inv.fresh (h : s.Inv u) : Fresh u s := by
  intro w m hmem
  have hle := h.answered w m hmem
  unfold CacheState.readAt at hle
  cases hlookup : s.entries.lookup w with
  | none =>
    rw [hlookup] at hle
    exact absurd hle (WithBot.not_coe_le_bot m)
  | some c =>
    rw [hlookup] at hle
    obtain ⟨snap, hof, rfl⟩ := h.entry w c hlookup
    rcases hof with ⟨hbot, -⟩ | ⟨v, t, hv, ht, hskills⟩
    · rw [Option.elim_some, hbot] at hle
      exact absurd hle (WithBot.not_coe_le_bot m)
    · rw [Option.elim_some, hv] at hle
      exact ⟨v, t, _, WithBot.coe_le_coe.mp hle, ht, rfl, by rw [hskills]⟩

/-- A failed read in order finds an entry of a failed read, if any. -/
theorem CacheState.Inv.keepsLoaded (h : s.Inv u) {event : CacheEvent} (hord : s.InOrder event) :
    KeepsLoaded u s event := by
  cases event with
  | change w c exec files => trivial
  | refreshAll ids => trivial
  | get w => trivial
  | read i fault => trivial
  | answer i => trivial
  | install i =>
    intro task htask read hread hbot c hc hne
    obtain ⟨hle, -⟩ := hord task htask read hread
    unfold CacheState.readAt at hle
    rw [Option.mem_def.mp hc, Option.elim_some, hbot, le_bot_iff] at hle
    obtain ⟨snap', hof, rfl⟩ := h.entry read.1 c hc
    rcases hof with ⟨-, hnil⟩ | ⟨v, t, hv, -, -⟩
    · exact absurd hnil hne
    · exact absurd (hv.symm.trans hle) (WithBot.coe_ne_bot)

variable (u) in
/-- The cache never goes back or blank when its loads install in order. -/
theorem cache_fresh (t : SkillTable) (events : List CacheEvent)
    (hord : Lib.Along CacheState.InOrder (CacheState.step u) (CacheState.start t : CacheState R) events) :
    Lib.Always (Fresh u) (CacheState.step u) (CacheState.start t : CacheState R) events
      ∧ Lib.Along (KeepsLoaded u) (CacheState.step u) (CacheState.start t : CacheState R) events := by
  constructor
  · exact Lib.always_of_along (fun s event hs => hs.step) (fun s hs => hs.fresh) events _
      (CacheState.Inv.start t) hord
  · exact Lib.along_of_along (fun s event hs => hs.step) (fun s event hs => hs.keepsLoaded) events _
      (CacheState.Inv.start t) hord

end

/-! ## Loads out of order -/

def lendingSkill (id name : String) : Skill :=
  { id := id, name := name, description := "Lending.", content := "---" }

/-- Two handlers; the one that read first installs last. -/
def overtaken : List CacheEvent :=
  [.change defaultWorkspaceID (.create (lendingSkill "s1" "loans")) none none, .read 0 none,
    .change defaultWorkspaceID (.create (lendingSkill "s2" "refunds")) none none, .read 1 none,
    .install 1, .answer 1, .install 0]

/-- A handler, then a pass whose read fails. -/
def failedPass : List CacheEvent :=
  [.change defaultWorkspaceID (.create (lendingSkill "s1" "loans")) none none, .read 0 none,
    .install 0, .answer 0, .refreshAll [defaultWorkspaceID], .read 0 (some "connection lost")]

def emptySkills : CacheState Float := CacheState.start Lib.Table.empty

/-- The first loses the skill of an answered request, the second every
skill. -/
theorem loads_go_back_and_blank :
    ¬ Lib.Always (Fresh asciiUnicode) (CacheState.step asciiUnicode) emptySkills overtaken
      ∧ ¬ Lib.Along (KeepsLoaded asciiUnicode) (CacheState.step asciiUnicode) emptySkills
          (failedPass ++ [.install 0]) := by
  constructor
  · intro h
    let after := Lib.run (CacheState.step asciiUnicode) emptySkills overtaken
    have hanswered : (defaultWorkspaceID, 2) ∈ after.answered := by decide +kernel
    obtain ⟨v, t, c, hv, ht, hc, hentry⟩ := h.last _ _ hanswered
    have hstates : after.states.map (fun t => (t.list defaultWorkspaceID).map Skill.name)
        = [[], ["loans"], ["loans", "refunds"]] := by decide +kernel
    have hcached : (after.entries.lookup defaultWorkspaceID).map (fun c => c.entry.skills.map Skill.name)
        = some ["loans"] := by decide +kernel
    have hnames : ((t.list defaultWorkspaceID).map Skill.name) = ["loans"] := by
      have hc' : after.entries.lookup defaultWorkspaceID = some c := hc
      rw [hc', Option.map_some, hentry] at hcached
      exact Option.some.inj hcached
    have hat : (after.states.map (fun t => (t.list defaultWorkspaceID).map Skill.name))[v]?
        = some ["loans"] := by
      have ht' : after.states[v]? = some t := ht
      rw [List.getElem?_map, ht', Option.map_some, hnames]
    rw [hstates] at hat
    match v, hv, hat with
    | 2, _, hat => exact absurd hat (by decide)
    | v + 3, _, hat => cases hat
  · intro h
    have hlast := h.last
    exact absurd hlast (by decide +kernel)

/-- A handler with its refresh, then a pass, and a change that the next
refresh finds. -/
def inTurn : List CacheEvent :=
  [.get defaultWorkspaceID, .read 0 none, .install 0, .answer 0,
    .change defaultWorkspaceID (.create (lendingSkill "s1" "loans")) none none, .read 0 none,
    .install 0, .answer 0, .refreshAll [defaultWorkspaceID], .read 0 none,
    .change defaultWorkspaceID (.delete "s1") none none, .install 0, .read 1 none, .install 1,
    .answer 1]

theorem cache_fresh_in_turn :
    Lib.Always (Fresh asciiUnicode) (CacheState.step asciiUnicode) emptySkills inTurn
      ∧ Lib.Along (KeepsLoaded asciiUnicode) (CacheState.step asciiUnicode) emptySkills inTurn :=
  cache_fresh asciiUnicode Lib.Table.empty inTurn (by decide +kernel)

end LendingClaw.Skills
