/-
LendingClaw.Memory.Documents — memory documents: the table and its
store (`internal/store/mysql/memory.go`), the chunks and the vector
index (`internal/memory/chunking.go`, `manager.go`), and the two tools
that write them (`internal/tools/memorytools/memory_set.go`,
`memory_delete.go`).

The table has two unique keys. On the second a row without a user never
collides, since MySQL takes no two NULLs for equal, and the tools write
no others. Which of several rows a query returns first is the
database's choice. A manager without an embedding provider, which
indexes nothing, is left out, and so are the dates of creation and the
metadata, which the tools leave NULL.
-/
import LendingClaw.Lib.Table
import LendingClaw.Store.Workspace
import LendingClaw.Tools.Types
import Mathlib.Logic.Function.Basic

namespace LendingClaw.Memory

open LendingClaw.Store LendingClaw.Tools

/-! ## Chunks -/

structure TextChunk where
  text : String
  startLine : Nat
  endLine : Nat
  deriving DecidableEq

/-- The variables of `ChunkText`. -/
structure Chunking where
  chunks : List TextChunk
  current : String
  startLine : Nat

def Chunking.flush (st : Chunking) (endLine : Nat) : Chunking :=
  let content := Lib.trimSpace st.current
  { chunks :=
      if content ≠ "" then
        st.chunks ++ [{ text := content, startLine := st.startLine, endLine := endLine }]
      else st.chunks
    current := ""
    startLine := endLine + 1 }

/-- The body of the loop of `ChunkText`. -/
def Chunking.line (maxChunkLen : Nat) (st : Chunking) (lineNum : Nat) (line : String) :
    Chunking :=
  if Lib.trimSpace line = "" ∧ st.current ≠ "" ∧ maxChunkLen / 2 ≤ st.current.utf8ByteSize then
    st.flush (lineNum - 1)
  else
    let current := if st.current ≠ "" then st.current ++ "\n" ++ line else line
    if maxChunkLen ≤ current.utf8ByteSize then { st with current := current }.flush lineNum
    else { st with current := current }

def chunkLines (maxChunkLen : Nat) : (lineNum : Nat) → List String → Chunking → Chunking
  | _, [], st => st
  | lineNum, line :: lines, st =>
    chunkLines maxChunkLen (lineNum + 1) lines (st.line maxChunkLen lineNum line)

def chunkText (text : String) (maxChunkLen : Int) : List TextChunk :=
  let maxChunkLen := if maxChunkLen ≤ 0 then 1000 else maxChunkLen.toNat
  let lines := (text.toList.splitOn '\n').map String.ofList
  let st := chunkLines maxChunkLen 1 lines { chunks := [], current := "", startLine := 1 }
  (if st.current ≠ "" then st.flush lines.length else st).chunks

/-! ## Rows and points -/

/-- A row of `memory_docs`. -/
structure MemoryDoc where
  id : String
  workspaceID : WorkspaceID
  scope : String
  userID : Option String
  path : String
  content : String
  updatedAt : Nat

/-- A point of the collection of a workspace. -/
structure Point (ν : Type) where
  id : String
  vector : ν
  docID : String
  path : String
  scope : String
  userID : Option String
  text : String
  startLine : Nat
  endLine : Nat
  updatedAt : Nat

/-- What the tools run with: `weight` is what the collation compares,
`pick` the row that comes first, `newID` what `uuid.New` gives, one id
after the other, `pointID` the name-based UUID of "<doc.ID>#<i>", and
`embed` the embedding provider. -/
structure Env (ν : Type) where
  toLower : String → String
  weight : String → String
  pick : List MemoryDoc → Nat
  newID : Nat → String
  newID_inj : Function.Injective newID
  pointID : String → Nat → String
  pointID_inj : ∀ {a b : String} {i j : Nat}, pointID a i = pointID b j → a = b ∧ i = j
  embed : List String → List ν
  embed_length : ∀ texts, (embed texts).length = texts.length
  maxChunkLen : Int

/-- The documents, the index of each workspace, and how many ids were
drawn. -/
structure MemoryState (ν : Type) where
  docs : Lib.Table MemoryDoc String MemoryDoc.id
  index : WorkspaceID → Lib.Table (Point ν) String Point.id
  drawn : Nat

def MemoryState.empty {ν : Type} : MemoryState ν :=
  { docs := Lib.Table.empty, index := fun _ => Lib.Table.empty, drawn := 0 }

section
variable {ν : Type} (env : Env ν)

/-! ## The store -/

/-- The error of a look-up: no row, or the text of the database. -/
inductive GetError where
  | notFound
  | query (err : String)

/-- `strings.Contains(err.Error(), "not found")`. -/
def GetError.isNotFound : GetError → Bool
  | .notFound => true
  | .query err => Lib.containsSub ("get memory doc: " ++ err) "not found"

/-- The rows of `GetDocument`'s query. -/
def matching (docs : Lib.Table MemoryDoc String MemoryDoc.id) (w : WorkspaceID)
    (scope userID path : String) : List MemoryDoc :=
  docs.select fun r =>
    decide (r.workspaceID = w) && r.scope == scope
      && (match r.userID with
        | none => userID == ""
        | some u => userID != "" && env.weight u == env.weight userID)
      && env.weight r.path == env.weight path

/-- `MySQLMemoryStore.GetDocument`. -/
def getDocument (docs : Lib.Table MemoryDoc String MemoryDoc.id) (w : WorkspaceID)
    (scope userID path : String) (query : Fault := none) : Except GetError MemoryDoc :=
  match query with
  | some err => .error (.query err)
  | none =>
    let rows := matching env docs w scope userID path
    match rows[env.pick rows % rows.length]? with
    | none => .error .notFound
    | some doc => .ok doc

/-- Two rows with the same `uq_memory_doc`: not when one has no user. -/
def sameKey (a b : MemoryDoc) : Bool :=
  decide (a.workspaceID = b.workspaceID) && a.scope == b.scope
    && (match a.userID, b.userID with
      | some u, some v => env.weight u == env.weight v
      | _, _ => false)
    && env.weight a.path == env.weight b.path

/-- The assignments of `ON DUPLICATE KEY UPDATE`. -/
def assign (doc r : MemoryDoc) : MemoryDoc :=
  { r with content := doc.content, updatedAt := doc.updatedAt }

/-- The statement of `MySQLMemoryStore.Upsert`. -/
def upsertDoc (docs : Lib.Table MemoryDoc String MemoryDoc.id) (doc : MemoryDoc) :
    Lib.Table MemoryDoc String MemoryDoc.id :=
  match docs.rows.find? (fun r => sameKey env r doc) with
  | some old => docs.update old.id (assign doc) (fun _ => rfl)
  | none => docs.upsert doc (assign doc) (fun _ => rfl)

/-! ## The index -/

/-- The points of a document, one for each chunk that has a vector. -/
def documentPoints (doc : MemoryDoc) : List (Point ν) :=
  let chunks := chunkText doc.content env.maxChunkLen
  ((chunks.zip (env.embed (chunks.map TextChunk.text))).zipIdx).map fun p =>
    { id := env.pointID doc.id p.2
      vector := p.1.2
      docID := doc.id
      path := doc.path
      scope := doc.scope
      userID := doc.userID
      text := p.1.1.text
      startLine := p.1.1.startLine
      endLine := p.1.1.endLine
      updatedAt := doc.updatedAt }

/-- `Manager.DeleteDocumentVectors`. -/
def MemoryState.deleteDocumentVectors (s : MemoryState ν) (w : WorkspaceID) (docID : String)
    (call : Fault) : MemoryState ν :=
  match call with
  | some _ => s
  | none => { s with index := Function.update s.index w ((s.index w).delete (fun p => p.docID == docID)) }

/-- `Manager.IndexDocument`. -/
def MemoryState.indexDocument (s : MemoryState ν) (w : WorkspaceID) (doc : MemoryDoc) (call : Fault) :
    MemoryState ν :=
  match call with
  | some _ => s
  | none => { s with index := Function.update s.index w ((s.index w).putAll (documentPoints env doc)) }

/-! ## The tools -/

/-- `normalizeForDedup`. -/
def normalizeForDedup (s : String) : String :=
  env.toLower (String.ofList ([' '].intercalate (Lib.fields s.toList)))

/-- `isDuplicateContent`. -/
def isDuplicateContent (existing newContent : String) : Bool :=
  let n := normalizeForDedup env newContent
  if n = "" then false else Lib.containsSub (normalizeForDedup env existing) n

/-- The arguments of `memory_set`; one that is absent or no string is
empty. -/
structure MemorySetArgs where
  path : String
  content : String
  mode : String := ""

/-- The faults of the calls of the two tools. -/
structure MemoryFaults where
  get : Fault := none
  upsert : Fault := none
  refetch : Fault := none
  deleteVectors : Fault := none
  index : Fault := none
  delete : Fault := none

/-- The workspace of the context, or the default one. -/
def toolWorkspace (ctx : Option WorkspaceID) : WorkspaceID := ctx.getD defaultWorkspaceID

/-- What `memory_set` writes: `error` is a result before any write. -/
def contentToWrite (docs : Lib.Table MemoryDoc String MemoryDoc.id) (w : WorkspaceID)
    (args : MemorySetArgs) (get : Fault) : Except Result String :=
  let mode := if args.mode = "" then "append" else args.mode
  if mode = "append" then
    match getDocument env docs w "global" "" args.path get with
    | .error .notFound => .ok args.content
    | .error (.query err) =>
      if (GetError.query err).isNotFound then .ok args.content
      else .error (errorResult ("failed to read existing document: get memory doc: " ++ err))
    | .ok existing =>
      if isDuplicateContent env existing.content args.content then
        .error (newResult ("Memory already contains this content at " ++ args.path
          ++ " — skipped duplicate append."))
      else .ok (existing.content ++ "\n" ++ args.content)
  else .ok args.content

/-- `MemorySetTool.Execute`. -/
def memorySet (s : MemoryState ν) (ctx : Option WorkspaceID) (args : MemorySetArgs) (now : Nat)
    (f : MemoryFaults) : MemoryState ν × Result :=
  if args.path = "" then (s, errorResult "path parameter is required")
  else if args.content = "" then (s, errorResult "content parameter is required")
  else
    let w := toolWorkspace ctx
    match contentToWrite env s.docs w args f.get with
    | .error result => (s, result)
    | .ok content =>
      let doc : MemoryDoc :=
        { id := env.newID s.drawn, workspaceID := w, scope := "global", userID := none
          path := args.path, content := content, updatedAt := now }
      let s := { s with drawn := s.drawn + 1 }
      match f.upsert with
      | some err => (s, errorResult ("failed to save memory document: upsert memory doc: " ++ err))
      | none =>
        let s := { s with docs := upsertDoc env s.docs doc }
        match getDocument env s.docs w "global" "" args.path f.refetch with
        | .error _ => (s, newResult ("Memory saved to " ++ args.path ++ " (vector indexing skipped)"))
        | .ok saved =>
          let s := s.deleteDocumentVectors w saved.id f.deleteVectors
          let s := s.indexDocument env w saved f.index
          (s, newResult ("Memory saved to " ++ args.path ++ " (" ++ toString content.utf8ByteSize
            ++ " chars, mode=" ++ (if args.mode = "" then "append" else args.mode) ++ ")"))

/-- `MemoryDeleteTool.Execute`. -/
def memoryDelete (s : MemoryState ν) (ctx : Option WorkspaceID) (path : String) (f : MemoryFaults) :
    MemoryState ν × Result :=
  if path = "" then (s, errorResult "path parameter is required")
  else
    let w := toolWorkspace ctx
    match getDocument env s.docs w "global" "" path f.get with
    | .error .notFound =>
      (s, newResult ("No memory document at " ++ path ++ " — nothing to delete."))
    | .error (.query err) =>
      if (GetError.query err).isNotFound then
        (s, newResult ("No memory document at " ++ path ++ " — nothing to delete."))
      else (s, errorResult ("failed to read memory document: get memory doc: " ++ err))
    | .ok doc =>
      let s := s.deleteDocumentVectors w doc.id f.deleteVectors
      match f.delete with
      | some err => (s, errorResult ("failed to delete memory document: delete memory doc: " ++ err))
      | none =>
        ({ s with docs := s.docs.delete (fun r => decide (r.workspaceID = w) && r.id == doc.id) },
          newResult ("Deleted memory document " ++ path ++ "."))

end

end LendingClaw.Memory
