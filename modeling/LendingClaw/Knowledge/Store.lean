/-
LendingClaw.Knowledge.Store — knowledge bases: the table and its store
(`internal/store/mysql/knowledge.go`), and what the handlers check of a
body and of a sync (`internal/transport/http/handler/knowledge.go`).

A row belongs to a workspace, and its collection is that of the
workspace. `created_by` and the times of creation and update, which
nothing here reads, are left out.
-/
import LendingClaw.Http.Workspaces
import LendingClaw.Lib.Table

namespace LendingClaw.Knowledge

open LendingClaw.Store LendingClaw.Http

/-- A row of `knowledge_bases`. -/
structure KnowledgeBase where
  id : String := ""
  workspaceID : WorkspaceID := defaultWorkspaceID
  name : String := ""
  collection : String := ""
  source : String := ""
  spaceKey : String := ""
  rootPage : String := ""
  content : String := ""
  chunkSize : Int := 0
  chunkOverlap : Int := 0
  status : String := ""
  errorMsg : Option String := none
  totalPages : Nat := 0
  totalChunks : Nat := 0
  totalPoints : Nat := 0
  lastSynced : Option Nat := none

abbrev KnowledgeTable := Lib.Table KnowledgeBase String KnowledgeBase.id

/-! ## The store -/

/-- `WHERE workspace_id = ? AND id = ?`. -/
def KnowledgeBase.at (w : WorkspaceID) (id : String) (kb : KnowledgeBase) : Bool :=
  decide (kb.workspaceID = w) && kb.id == id

/-- `MySQLKnowledgeStore.Get`. -/
def KnowledgeTable.get (t : KnowledgeTable) (w : WorkspaceID) (id : String) :
    Option KnowledgeBase :=
  (t.find id).filter (fun kb => decide (kb.workspaceID = w))

/-- `MySQLKnowledgeStore.Create`, for the id `uuid.New` gives; none is an
error of the database. The totals are those of a new row. -/
def KnowledgeTable.create (t : KnowledgeTable) (w : WorkspaceID) (kb : KnowledgeBase)
    (newID : String) (exec : Fault) : Option KnowledgeTable :=
  match exec with
  | some _ => none
  | none =>
    t.insert
      { kb with
        id := if kb.id = "" then newID else kb.id
        workspaceID := w
        source := if kb.source = "" then "confluence" else kb.source
        status := if kb.status = "" then "idle" else kb.status
        errorMsg := none
        totalPages := 0
        totalChunks := 0
        totalPoints := 0
        lastSynced := none }

/-- The assignments of `MySQLKnowledgeStore.Update`. -/
def KnowledgeBase.assign (new kb : KnowledgeBase) : KnowledgeBase :=
  { kb with
    name := new.name
    collection := new.collection
    spaceKey := new.spaceKey
    rootPage := new.rootPage
    content := new.content
    chunkSize := new.chunkSize
    chunkOverlap := new.chunkOverlap }

/-- An `UPDATE` of one row of a workspace. -/
def KnowledgeTable.updateAt (t : KnowledgeTable) (w : WorkspaceID) (id : String)
    (f : KnowledgeBase → KnowledgeBase) (hf : ∀ kb, (f kb).id = kb.id) : KnowledgeTable :=
  t.update id (fun kb => if kb.workspaceID = w then f kb else kb) (by
    intro kb
    split
    · exact hf kb
    · rfl)

/-- `MySQLKnowledgeStore.Update`. -/
def KnowledgeTable.updateRow (t : KnowledgeTable) (w : WorkspaceID) (kb : KnowledgeBase)
    (exec : Fault) : Option KnowledgeTable :=
  match exec with
  | some _ => none
  | none => some (t.updateAt w kb.id kb.assign (fun _ => rfl))

/-- `MySQLKnowledgeStore.Delete`. -/
def KnowledgeTable.deleteRow (t : KnowledgeTable) (w : WorkspaceID) (id : String) (exec : Fault) :
    Option KnowledgeTable :=
  match exec with
  | some _ => none
  | none => some (t.delete (KnowledgeBase.at w id))

/-- The assignments of `UpdateSyncStatus`. -/
def KnowledgeBase.withStatus (status : String) (errorMsg : Option String)
    (pages chunks points : Nat) (now : Nat) (kb : KnowledgeBase) : KnowledgeBase :=
  { kb with
    status := status
    errorMsg := errorMsg
    totalPages := pages
    totalChunks := chunks
    totalPoints := points
    lastSynced := if status = "done" then some now else none }

/-- `MySQLKnowledgeStore.UpdateSyncStatus`, at time `now`. -/
def KnowledgeTable.updateSyncStatus (t : KnowledgeTable) (w : WorkspaceID) (id status : String)
    (errorMsg : Option String) (pages chunks points : Nat) (now : Nat) (exec : Fault) :
    Option KnowledgeTable :=
  match exec with
  | some _ => none
  | none =>
    some (t.updateAt w id (KnowledgeBase.withStatus status errorMsg pages chunks points now)
      (fun _ => rfl))

/-! ## Rows -/

section
variable {t : KnowledgeTable} {w : WorkspaceID} {id : String}

theorem get_some {kb : KnowledgeBase} (h : t.get w id = some kb) : kb ∈ t.rows ∧ kb.id = id := by
  obtain ⟨hfind, -⟩ := Option.filter_eq_some_iff.mp h
  exact Lib.Table.find_eq_some_iff.mp hfind

theorem mem_updateAt {f : KnowledgeBase → KnowledgeBase} (hf : ∀ kb, (f kb).id = kb.id)
    {kb : KnowledgeBase} :
    kb ∈ (t.updateAt w id f hf).rows ↔
      kb ∈ t.rows ∧ kb.id ≠ id
        ∨ ∃ old ∈ t.rows, old.id = id ∧ kb = if old.workspaceID = w then f old else old :=
  Lib.Table.mem_update

theorem get_updateAt (f : KnowledgeBase → KnowledgeBase) (hf : ∀ kb, (f kb).id = kb.id)
    (hws : ∀ kb, (f kb).workspaceID = kb.workspaceID) :
    (t.updateAt w id f hf).get w id = (t.get w id).map f := by
  unfold KnowledgeTable.get KnowledgeTable.updateAt
  rw [Lib.Table.find_update, if_pos rfl]
  cases t.find id with
  | none => rfl
  | some kb =>
    by_cases hkb : kb.workspaceID = w
    · simp [Option.filter_some, hkb, hws]
    · simp [Option.filter_some, hkb]

end

/-! ## What the handlers check -/

/-- The checks of `KnowledgeHandler.Create`, and the body with its
defaults. -/
def checkBody (kb : KnowledgeBase) : Except Reply KnowledgeBase :=
  if kb.name = "" then .error { status := 400, error := "name is required" }
  else
    let source := if kb.source = "" then "confluence" else kb.source
    let kb : KnowledgeBase :=
      { kb with
        source := source
        chunkSize := if kb.chunkSize ≤ 0 then 1000 else kb.chunkSize
        chunkOverlap := if kb.chunkOverlap ≤ 0 then 200 else kb.chunkOverlap }
    if source = "markdown" then
      if Lib.trimSpace kb.content = "" then
        .error { status := 400, error := "content is required for markdown source" }
      else .ok { kb with spaceKey := "", rootPage := "" }
    else if source = "confluence" then
      if kb.spaceKey = "" then .error { status := 400, error := "space_key is required" }
      else if kb.rootPage = "" then .error { status := 400, error := "root_page is required" }
      else .ok { kb with content := "" }
    else .error { status := 400, error := "unsupported source: " ++ source }

/-- What `Sync` needs of the configuration: which values are set. -/
structure SyncConfig where
  embeddingBaseURL : Bool
  qdrantHost : Bool
  confluence : Bool

/-- The checks of `KnowledgeHandler.Sync`, on the row it read; none lets
the sync begin. -/
def checkSync (cfg : SyncConfig) (kb : KnowledgeBase) : Option Reply :=
  if kb.status = "syncing" then
    some { status := 409, error := "knowledge base is already syncing" }
  else if !cfg.embeddingBaseURL then
    some { status := 400, error := "embedding.base_url is required in config" }
  else if !cfg.qdrantHost then some { status := 400, error := "qdrant.host is required in config" }
  else if kb.source = "markdown" then
    if Lib.trimSpace kb.content = "" then
      some { status := 400, error := "knowledge base has no content to sync" }
    else none
  else if !cfg.confluence then
    some { status := 400, error := "confluence config (url, api_key) is required" }
  else none

end LendingClaw.Knowledge
