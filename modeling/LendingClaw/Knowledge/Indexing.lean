/-
LendingClaw.Knowledge.Indexing — what a sync writes to the collection of
the workspace: the two indexers (`internal/services/mdkb/indexer.go`,
`internal/services/confluence/indexer.go`), the calls to Qdrant they are
made of (`internal/services/qdrant/client.go`) and `runSync`
(`internal/transport/http/handler/knowledge.go`).

A point is kept with the id of the knowledge base that wrote it, which
the payload of a Confluence point does not have. The chunker
(`memory.ChunkTextWithOverlap`, which cuts at byte offsets), `htmlToText`,
the translator and the embedding provider are parameters: what follows
holds for all of them. A collection that does not exist is an empty one.
-/
import LendingClaw.Knowledge.Store

namespace LendingClaw.Knowledge

open LendingClaw.Store

/-! ## Points -/

/-- A point of the collection, and who wrote it. -/
structure OwnedPoint (ν : Type) where
  owner : String
  id : String
  vector : ν
  payload : List (String × String)

abbrev Collection (ν : Type) := Lib.Table (OwnedPoint ν) String OwnedPoint.id

/-- `DeletePointsByPayload`. -/
def deletePointsByPayload {ν : Type} (coll : Collection ν) (field value : String) : Collection ν :=
  coll.delete (fun p => p.payload.lookup field == some value)

/-- `DeleteCollection`. -/
def deleteCollection {ν : Type} (_coll : Collection ν) : Collection ν := Lib.Table.empty

/-- What the indexers run with. `pointID` is the name-based UUID of
"<name>#<i>", for the rest of the point key and the index of the chunk;
`embed` answers with one vector for each text. -/
structure Env (ν : Type) where
  chunk : (text : String) → (chunkSize overlap : Int) → List String
  htmlToText : String → String
  translate : Option (String → String)
  embed : List String → List ν
  embed_length : ∀ texts, (embed texts).length = texts.length
  pointID : String → Nat → String
  pointID_inj : ∀ {a b : String} {i j : Nat}, pointID a i = pointID b j → a = b ∧ i = j

/-- `embeddingBatchSize`. -/
def embeddingBatchSize : Nat := 32

/-- `IndexResult`. -/
structure IndexResult where
  totalPages : Nat
  totalChunks : Nat
  totalPoints : Nat

/-- A Confluence page. -/
structure ConfluencePage where
  id : String
  title : String
  body : String
  spaceKey : String
  url : String
  labels : List String

/-- The root page and its descendants; a page has one parent, so none
comes twice. -/
structure Crawl where
  pages : List ConfluencePage
  distinct : (pages.map ConfluencePage.id).Nodup

/-- The outcomes of the calls of one run. The n-th batch of the run is
embedded, then upserted. -/
structure IndexFaults where
  crawl : Fault := none
  ensureCollection : Fault := none
  clear : Fault := none
  embed : Nat → Fault := fun _ => none
  upsert : Nat → Fault := fun _ => none

section
variable {ν : Type} (env : Env ν)

/-! ## Chunks -/

/-- The defaults that both indexers give to a request. -/
def orDefault (n default : Int) : Int := if n ≤ 0 then default else n

/-- The chunks of a markdown document, below its title. -/
def markdownChunks (kb : KnowledgeBase) : List String :=
  let text := Lib.trimSpace kb.content
  if text = "" then []
  else
    env.chunk ("# " ++ kb.name ++ "\n\n" ++ text) (orDefault kb.chunkSize 1000)
      (orDefault kb.chunkOverlap 200)

/-- The chunks of a page. -/
def pageChunks (kb : KnowledgeBase) (page : ConfluencePage) : List String :=
  let text := env.htmlToText page.body
  if Lib.trimSpace text = "" then []
  else
    env.chunk ("# " ++ page.title ++ "\n\n" ++ text) (orDefault kb.chunkSize 1000)
      (orDefault kb.chunkOverlap 200)

/-- The point key of a markdown base, without its index. -/
def markdownName (kb : KnowledgeBase) : String := kb.collection ++ "_md_" ++ kb.id

/-- The point key of a page, without its index. -/
def pageName (kb : KnowledgeBase) (page : ConfluencePage) : String :=
  kb.collection ++ "_" ++ page.id

def markdownPayload (kb : KnowledgeBase) (chunk : String) : List (String × String) :=
  [("kb_id", kb.id), ("title", kb.name), ("source", "markdown"), ("category", "general"),
   ("content", chunk)]

def pagePayload (page : ConfluencePage) (chunk : String) : List (String × String) :=
  [("page_id", page.id), ("title", page.title), ("space", page.spaceKey), ("url", page.url),
   ("labels", ",".intercalate page.labels), ("category", page.labels.headD "general"),
   ("source", "confluence"), ("content", chunk)]

/-! ## Batches -/

/-- The texts of a batch, as they are embedded. -/
def batchTexts (batch : List (String × Nat)) : List String :=
  batch.map fun c =>
    match env.translate with
    | none => c.1
    | some translate => translate c.1

/-- The points of a batch of chunks, with their indices. -/
def batchPoints (owner name : String) (payload : String → List (String × String))
    (batch : List (String × Nat)) : List (OwnedPoint ν) :=
  (batch.zip (env.embed (batchTexts env batch))).map fun p =>
    { owner := owner, id := env.pointID name p.1.2, vector := p.2, payload := payload p.1.1 }

/-- The batches of a text, each with what the errors call it. -/
def textBatches (what owner name : String) (payload : String → List (String × String))
    (chunks : List String) : List (String × List (OwnedPoint ν)) :=
  (Lib.Table.batches embeddingBatchSize chunks.length chunks.zipIdx).map fun batch =>
    (what, batchPoints env owner name payload batch)

/-- The batches of a markdown base. -/
def markdownBatches (kb : KnowledgeBase) : List (String × List (OwnedPoint ν)) :=
  textBatches env "" kb.id (markdownName kb) (markdownPayload kb) (markdownChunks env kb)

/-- The batches of a page. -/
def pageBatches (kb : KnowledgeBase) (page : ConfluencePage) :
    List (String × List (OwnedPoint ν)) :=
  textBatches env (" for page " ++ page.id) kb.id (pageName kb page) (pagePayload page)
    (pageChunks env kb page)

/-- The loop over the batches, up to the first error. -/
def upsertBatches (f : IndexFaults) : (n : Nat) → List (String × List (OwnedPoint ν)) →
    Collection ν → Collection ν × Fault
  | _, [], coll => (coll, none)
  | n, (what, points) :: batches, coll =>
    match f.embed n with
    | some err => (coll, some ("embed batch" ++ what ++ ": " ++ err))
    | none =>
      match f.upsert n with
      | some err => (coll, some ("upsert points" ++ what ++ ": " ++ err))
      | none => upsertBatches f (n + 1) batches (coll.putAll points)

/-! ## The indexers -/

/-- `mdkb.Indexer.Index`. Clearing the old points may fail. -/
def indexMarkdown (kb : KnowledgeBase) (f : IndexFaults) (coll : Collection ν) :
    Collection ν × Except String IndexResult :=
  match f.ensureCollection with
  | some err => (coll, .error ("ensure collection: " ++ err))
  | none =>
    let coll := if f.clear.isNone then deletePointsByPayload coll "kb_id" kb.id else coll
    let chunks := markdownChunks env kb
    match upsertBatches f 0 (markdownBatches env kb) coll with
    | (coll, some err) => (coll, .error err)
    | (coll, none) =>
      (coll, .ok
        { totalPages := if chunks = [] then 0 else 1
          totalChunks := chunks.length
          totalPoints := chunks.length })

/-- `ConfluenceIndexer.Index`. Dropping the collection may fail. -/
def indexConfluence (kb : KnowledgeBase) (reset : Bool) (crawl : Crawl) (f : IndexFaults)
    (coll : Collection ν) : Collection ν × Except String IndexResult :=
  match f.crawl with
  | some err => (coll, .error err)
  | none =>
    let coll := if reset && f.clear.isNone then deleteCollection coll else coll
    match f.ensureCollection with
    | some err => (coll, .error ("ensure collection: " ++ err))
    | none =>
      let chunks := (crawl.pages.map (pageChunks env kb)).flatten
      match upsertBatches f 0 (crawl.pages.flatMap (pageBatches env kb)) coll with
      | (coll, some err) => (coll, .error err)
      | (coll, none) =>
        (coll, .ok
          { totalPages := crawl.pages.length
            totalChunks := chunks.length
            totalPoints := chunks.length })

/-- The index step of `runSync`; a source other than markdown is
Confluence. -/
def indexBase (kb : KnowledgeBase) (reset : Bool) (crawl : Crawl) (f : IndexFaults)
    (coll : Collection ν) : Collection ν × Except String IndexResult :=
  if kb.source = "markdown" then indexMarkdown env kb f coll
  else indexConfluence env kb reset crawl f coll

/-! ## Requests -/

/-- The knowledge bases, and the collection of the workspace. -/
structure KnowledgeState (ν : Type) where
  kbs : KnowledgeTable
  points : Collection ν

/-- The faults of the store calls of a request. -/
structure StoreFaults where
  exec : Fault := none
  finish : Fault := none

/-- `KnowledgeHandler.Create`: the row gets the collection of the
workspace. -/
def createBase (s : KnowledgeState ν) (w : WorkspaceID) (collection newID : String)
    (body : Option KnowledgeBase) (f : StoreFaults) : KnowledgeState ν :=
  match body with
  | none => s
  | some kb =>
    match checkBody kb with
    | .error _ => s
    | .ok kb =>
      match s.kbs.create w { kb with collection := collection } newID f.exec with
      | none => s
      | some kbs => { s with kbs := kbs }

/-- `KnowledgeHandler.Update`. -/
def updateBase (s : KnowledgeState ν) (w : WorkspaceID) (id : String)
    (body : Option KnowledgeBase) (f : StoreFaults) : KnowledgeState ν :=
  match body, s.kbs.get w id with
  | some kb, some existing =>
    match s.kbs.updateRow w { kb with id := id, collection := existing.collection } f.exec with
    | none => s
    | some kbs => { s with kbs := kbs }
  | _, _ => s

/-- `KnowledgeHandler.Delete`: the row. -/
def deleteBase (s : KnowledgeState ν) (w : WorkspaceID) (id : String) (f : StoreFaults) :
    KnowledgeState ν :=
  match s.kbs.deleteRow w id f.exec with
  | none => s
  | some kbs => { s with kbs := kbs }

/-- The status that `runSync` ends with; its error is dropped. -/
def finishSync (s : KnowledgeState ν) (w : WorkspaceID) (id : String) (now : Nat)
    (result : Except String IndexResult) (finish : Fault) : KnowledgeState ν :=
  let kbs :=
    match result with
    | .error err => s.kbs.updateSyncStatus w id "error" (some err) 0 0 0 now finish
    | .ok r =>
      s.kbs.updateSyncStatus w id "done" none r.totalPages r.totalChunks r.totalPoints now finish
  { s with kbs := kbs.getD s.kbs }

/-- `KnowledgeHandler.Sync`, with the run it starts. -/
def syncBase (cfg : SyncConfig) (s : KnowledgeState ν) (w : WorkspaceID) (id : String)
    (reset : Bool) (crawl : Crawl) (now : Nat) (f : StoreFaults) (fi : IndexFaults) :
    KnowledgeState ν :=
  match s.kbs.get w id with
  | none => s
  | some kb =>
    match checkSync cfg kb with
    | some _ => s
    | none =>
      match s.kbs.updateSyncStatus w id "syncing" none kb.totalPages kb.totalChunks
          kb.totalPoints now f.exec with
      | none => s
      | some kbs =>
        let (points, result) := indexBase env kb reset crawl fi s.points
        finishSync { kbs := kbs, points := points } w id now result f.finish

end

end LendingClaw.Knowledge
