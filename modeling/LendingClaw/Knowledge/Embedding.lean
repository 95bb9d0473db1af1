/-
LendingClaw.Knowledge.Embedding — what the indexers do with the answers
of the embedding endpoint (`Embed` of `internal/memory/embeddings.go`,
the batch loops of `internal/services/mdkb/indexer.go` and
`internal/services/confluence/indexer.go`, and `Manager.IndexDocument` of
`internal/memory/manager.go`).

`Embed` returns as many vectors as the answer has. The two indexers read
the vector at the position of every chunk of a batch, and a missing one
ends the process; the memory manager stops at it and stores the rest of
the document without points. Every chunk is stored with its vector, or an
error returned, exactly if no answer is shorter than its request
(`chunksStored_iff`).
-/
import LendingClaw.Knowledge.SyncTheorems
import LendingClaw.Memory.DocumentTheorems

namespace LendingClaw.Knowledge

open LendingClaw.Store

/-! ## The batch loop -/

/-- What the endpoint answers to the n-th request of a run. -/
abbrev Answers (ν : Type) := Nat → List String → Except String (List ν)

/-- Why a run ends early; a panic in the goroutine of a sync ends the
server. -/
inductive Stop where
  | panic
  | error (err : String)

/-- The chunks of a request with their indices, what its errors call it,
and what the points are made of. -/
structure Batch where
  what : String
  owner : String
  name : String
  payload : String → List (String × String)
  chunks : List (String × Nat)

section
variable {ν : Type} (env : Env Unit)

/-- The requests for the chunks of a text. -/
def textRequests (what owner name : String) (payload : String → List (String × String))
    (chunks : List String) : List Batch :=
  (Lib.Table.batches embeddingBatchSize chunks.length chunks.zipIdx).map fun batch =>
    { what := what, owner := owner, name := name, payload := payload, chunks := batch }

def markdownRequests (kb : KnowledgeBase) : List Batch :=
  textRequests "" kb.id (markdownName kb) (markdownPayload kb) (markdownChunks env kb)

def pageRequests (kb : KnowledgeBase) (page : ConfluencePage) : List Batch :=
  textRequests (" for page " ++ page.id) kb.id (pageName kb page) (pagePayload page)
    (pageChunks env kb page)

def Batch.point (b : Batch) (c : String × Nat) (vector : ν) : OwnedPoint ν :=
  { owner := b.owner, id := env.pointID b.name c.2, vector := vector, payload := b.payload c.1 }

/-- The loop over a batch, which reads `embeddings[j]` for the j-th chunk:
none if there is no such vector. -/
def embedPoints (b : Batch) : List (String × Nat) → List ν → Option (List (OwnedPoint ν))
  | [], _ => some []
  | _ :: _, [] => none
  | c :: chunks, vector :: embeddings =>
    (embedPoints b chunks embeddings).map (b.point env c vector :: ·)

/-- The loop over the batches: the points that were upserted, and their
number as the result counts it. -/
def embedBatches (answers : Answers ν) (upsert : Nat → Fault) :
    (n : Nat) → List Batch → (totalPoints : Nat) → List (OwnedPoint ν) × Except Stop Nat
  | _, [], totalPoints => ([], .ok totalPoints)
  | n, b :: batches, totalPoints =>
    match answers n (batchTexts env b.chunks) with
    | .error err => ([], .error (.error ("embed batch" ++ b.what ++ ": " ++ err)))
    | .ok embeddings =>
      match embedPoints env b b.chunks embeddings with
      | none => ([], .error .panic)
      | some points =>
        match upsert n with
        | some err => ([], .error (.error ("upsert points" ++ b.what ++ ": " ++ err)))
        | none =>
          let rest := embedBatches answers upsert (n + 1) batches (totalPoints + points.length)
          (points ++ rest.1, rest.2)

/-- `mdkb.Indexer.Index`, with the answers in place of `f.embed`. -/
def markdownRun (answers : Answers ν) (kb : KnowledgeBase) (f : IndexFaults) :
    List (OwnedPoint ν) × Except Stop IndexResult :=
  match f.ensureCollection with
  | some err => ([], .error (.error ("ensure collection: " ++ err)))
  | none =>
    let chunks := markdownChunks env kb
    let run := embedBatches env answers f.upsert 0 (markdownRequests env kb) 0
    (run.1, run.2.map fun totalPoints =>
      { totalPages := if chunks = [] then 0 else 1
        totalChunks := chunks.length
        totalPoints := totalPoints })

/-- `ConfluenceIndexer.Index`, with the answers in place of `f.embed`. -/
def confluenceRun (answers : Answers ν) (kb : KnowledgeBase) (crawl : Crawl) (f : IndexFaults) :
    List (OwnedPoint ν) × Except Stop IndexResult :=
  match f.crawl with
  | some err => ([], .error (.error err))
  | none =>
    match f.ensureCollection with
    | some err => ([], .error (.error ("ensure collection: " ++ err)))
    | none =>
      let run := embedBatches env answers f.upsert 0 (crawl.pages.flatMap (pageRequests env kb)) 0
      (run.1, run.2.map fun totalPoints =>
        { totalPages := crawl.pages.length
          totalChunks := (crawl.pages.map (pageChunks env kb)).flatten.length
          totalPoints := totalPoints })

/-! ## The property -/

/-- The chunk's vector was returned for it, and is stored with it. -/
def HasVector (answers : Answers ν) (batches : List Batch) (points : List (OwnedPoint ν)) : Prop :=
  ∀ (n : Nat) (b : Batch), batches[n]? = some b → ∀ (j : Nat) (c : String × Nat), b.chunks[j]? = some c →
    ∃ embeddings vector, answers n (batchTexts env b.chunks) = .ok embeddings
      ∧ embeddings[j]? = some vector ∧ b.point env c vector ∈ points

/-- The run returns an error, or it has stored every chunk once, under an
id of its own, with its vector, and counted the points. -/
def Stored (answers : Answers ν) (batches : List Batch) (chunks : List BaseChunk)
    (run : List (OwnedPoint ν) × Except Stop IndexResult) : Prop :=
  match run.2 with
  | .error .panic => False
  | .error (.error _) => True
  | .ok result =>
    run.1.map OwnedPoint.id = chunks.map (BaseChunk.pointID env) ∧ (run.1.map OwnedPoint.id).Nodup
      ∧ HasVector env answers batches run.1 ∧ result.totalPoints = run.1.length

/-- A request that the run comes to is not answered with fewer vectors
than it has texts. -/
def Enough (answers : Answers ν) (upsert : Nat → Fault) (n : Nat) (batches : List Batch) : Prop :=
  ∀ (i : Nat) (b : Batch), batches[i]? = some b →
    (∀ (k : Nat) (b' : Batch), k < i → batches[k]? = some b' →
      (∃ embeddings, answers (n + k) (batchTexts env b'.chunks) = .ok embeddings)
        ∧ upsert (n + k) = none) →
    ∀ embeddings, answers (n + i) (batchTexts env b.chunks) = .ok embeddings →
      b.chunks.length ≤ embeddings.length

/-! ## The loop -/

theorem embedPoints_eq (b : Batch) (chunks : List (String × Nat)) (embeddings : List ν) :
    embedPoints env b chunks embeddings
      = if chunks.length ≤ embeddings.length then some (List.zipWith (b.point env) chunks embeddings)
        else none := by
  induction chunks generalizing embeddings with
  | nil => simp [embedPoints]
  | cons c chunks ih =>
    cases embeddings with
    | nil => simp [embedPoints]
    | cons vector embeddings =>
      by_cases h : chunks.length ≤ embeddings.length <;> simp [embedPoints, ih, h]

/-- What is asked of the rest of a run, once a batch is written. -/
theorem enough_cons {answers : Answers ν} {upsert : Nat → Fault} {n : Nat} {b : Batch}
    {batches : List Batch} {embeddings : List ν}
    (hanswer : answers n (batchTexts env b.chunks) = .ok embeddings)
    (hlen : b.chunks.length ≤ embeddings.length) (hupsert : upsert n = none) :
    Enough env answers upsert n (b :: batches) ↔ Enough env answers upsert (n + 1) batches := by
  constructor
  · intro h i b' hget hbefore
    have hnext := h (i + 1) b' hget
    rw [show n + (i + 1) = n + 1 + i by omega] at hnext
    refine hnext fun k b'' hk hgetk => ?_
    cases k with
    | zero =>
      cases hgetk
      exact ⟨⟨embeddings, hanswer⟩, hupsert⟩
    | succ k =>
      rw [show n + (k + 1) = n + 1 + k by omega]
      exact hbefore k b'' (by omega) hgetk
  · intro h i b' hget hbefore
    cases i with
    | zero =>
      cases hget
      intro embeddings' hanswer'
      rw [Nat.add_zero, hanswer] at hanswer'
      cases hanswer'
      exact hlen
    | succ i =>
      have hrest := h i b' hget fun k b'' hk hgetk => by
        have hb := hbefore (k + 1) b'' (by omega) hgetk
        rwa [show n + (k + 1) = n + 1 + k by omega] at hb
      rwa [show n + 1 + i = n + (i + 1) by omega] at hrest

/-- Where a run ends before its second batch, only the first answer
counts. -/
theorem enough_of_stop {answers : Answers ν} {upsert : Nat → Fault} {n : Nat} {b : Batch}
    {batches : List Batch}
    (hfirst : ∀ embeddings, answers n (batchTexts env b.chunks) = .ok embeddings →
      b.chunks.length ≤ embeddings.length)
    (hstop : ¬ ((∃ embeddings, answers n (batchTexts env b.chunks) = .ok embeddings)
      ∧ upsert n = none)) :
    Enough env answers upsert n (b :: batches) := by
  intro i b' hget hbefore
  cases i with
  | zero =>
    cases hget
    exact hfirst
  | succ i => exact absurd (hbefore 0 b (by omega) rfl) hstop

/-- The run panics exactly if an answer that it comes to is too short. -/
theorem embedBatches_panic (answers : Answers ν) (upsert : Nat → Fault) (n : Nat)
    (batches : List Batch) (total : Nat) :
    (embedBatches env answers upsert n batches total).2 ≠ .error .panic
      ↔ Enough env answers upsert n batches := by
  induction batches generalizing n total with
  | nil => simp [embedBatches, Enough]
  | cons b batches ih =>
    unfold embedBatches
    cases hanswer : answers n (batchTexts env b.chunks) with
    | error err =>
      simp only [ne_eq, reduceCtorEq, Except.error.injEq, not_false_iff, true_iff]
      exact enough_of_stop env (by simp [hanswer]) (by simp [hanswer])
    | ok embeddings =>
      by_cases hlen : b.chunks.length ≤ embeddings.length
      · cases hupsert : upsert n with
        | some err =>
          simp only [embedPoints_eq, if_pos hlen, ne_eq, reduceCtorEq, Except.error.injEq,
            not_false_iff, true_iff]
          refine enough_of_stop env (fun embeddings' h => ?_) (by simp [hupsert])
          rw [hanswer] at h
          cases h
          exact hlen
        | none =>
          simp only [embedPoints_eq, if_pos hlen]
          rw [enough_cons env hanswer hlen hupsert]
          exact ih _ _
      · simp only [embedPoints_eq, if_neg hlen, ne_eq, not_true_eq_false, false_iff]
        exact fun h => hlen (h 0 b rfl (by omega) embeddings hanswer)

/-- The ids of a batch are those of its chunks. -/
theorem ids_zipWith (b : Batch) {chunks : List (String × Nat)} {embeddings : List ν}
    (hlen : chunks.length ≤ embeddings.length) :
    (List.zipWith (b.point env) chunks embeddings).map OwnedPoint.id
      = chunks.map fun c => env.pointID b.name c.2 := by
  induction chunks generalizing embeddings with
  | nil => simp
  | cons c chunks ih =>
    cases embeddings with
    | nil => simp at hlen
    | cons vector embeddings =>
      simp only [List.zipWith_cons_cons, List.map_cons]
      rw [ih (by simpa using hlen)]
      rfl

/-- The j-th chunk of a batch is stored with the j-th vector. -/
theorem exists_zipWith (b : Batch) {chunks : List (String × Nat)} {embeddings : List ν}
    (hlen : chunks.length ≤ embeddings.length) {j : Nat} {c : String × Nat} (hc : chunks[j]? = some c) :
    ∃ vector, embeddings[j]? = some vector
      ∧ b.point env c vector ∈ List.zipWith (b.point env) chunks embeddings := by
  have hj := (List.getElem?_eq_some_iff.mp hc).1
  have hvector := List.getElem?_eq_getElem (hj.trans_le hlen)
  refine ⟨_, hvector, List.mem_of_getElem? (i := j) ?_⟩
  rw [List.getElem?_zipWith, hc, hvector]

/-- A run that gets to its end has stored its batches. -/
theorem embedBatches_ok {answers : Answers ν} {upsert : Nat → Fault} {n total result : Nat}
    {batches : List Batch} (h : (embedBatches env answers upsert n batches total).2 = .ok result) :
    result = total + (embedBatches env answers upsert n batches total).1.length
      ∧ (embedBatches env answers upsert n batches total).1.map OwnedPoint.id
        = batches.flatMap (fun b => b.chunks.map fun c => env.pointID b.name c.2)
      ∧ HasVector env (fun k => answers (n + k)) batches
        (embedBatches env answers upsert n batches total).1 := by
  induction batches generalizing n total with
  | nil =>
    cases h
    exact ⟨rfl, rfl, fun i b hget => by simp at hget⟩
  | cons b batches ih =>
    unfold embedBatches at h ⊢
    cases hanswer : answers n (batchTexts env b.chunks) with
    | error err => simp [hanswer] at h
    | ok embeddings =>
      by_cases hlen : b.chunks.length ≤ embeddings.length
      · cases hupsert : upsert n with
        | some err => simp [hanswer, embedPoints_eq, hlen, hupsert] at h
        | none =>
          simp only [hanswer, embedPoints_eq, if_pos hlen, hupsert] at h ⊢
          obtain ⟨hcount, hids, hvectors⟩ := ih h
          refine ⟨?_, ?_, ?_⟩
          · rw [List.length_append, hcount, Nat.add_assoc]
          · rw [List.map_append, ids_zipWith env b hlen, hids, List.flatMap_cons]
          · intro i b' hget j c hc
            cases i with
            | zero =>
              cases hget
              obtain ⟨vector, hvector, hmem⟩ := exists_zipWith env b hlen hc
              exact ⟨embeddings, vector, hanswer, hvector, List.mem_append_left _ hmem⟩
            | succ i =>
              obtain ⟨es, v, hanswer', hv, hmem⟩ := hvectors i b' hget j c hc
              have hindex : n + (i + 1) = n + 1 + i := by omega
              refine ⟨es, v, ?_, hv, List.mem_append_right _ hmem⟩
              simpa only [hindex] using hanswer'
      · simp [hanswer, embedPoints_eq, hlen] at h

/-! ## The indexers -/

/-- The chunks of a base, in their requests. -/
theorem ids_textRequests (what owner name : String) (payload : String → List (String × String))
    (chunks : List String) :
    (textRequests what owner name payload chunks).flatMap
        (fun b => b.chunks.map fun c => env.pointID b.name c.2)
      = (indexed name chunks).map (BaseChunk.pointID env) := by
  rw [textRequests, List.flatMap_map, List.flatMap_def]
  dsimp only
  rw [← List.map_flatten, flatten_batches, indexed, List.map_map]
  rfl

theorem stored_iff {answers : Answers ν} {upsert : Nat → Fault} {batches : List Batch}
    {chunks : List BaseChunk}
    (hids : batches.flatMap (fun b => b.chunks.map fun c => env.pointID b.name c.2)
      = chunks.map (BaseChunk.pointID env))
    (hnodup : (chunks.map (BaseChunk.pointID env)).Nodup) (pages total : Nat) :
    Stored env answers batches chunks
        ((embedBatches env answers upsert 0 batches 0).1,
          (embedBatches env answers upsert 0 batches 0).2.map fun totalPoints =>
            { totalPages := pages, totalChunks := total, totalPoints := totalPoints })
      ↔ Enough env answers upsert 0 batches := by
  rw [← embedBatches_panic env answers upsert 0 batches 0]
  unfold Stored
  cases hrun : (embedBatches env answers upsert 0 batches 0).2 with
  | error stop => cases stop <;> simp [Except.map]
  | ok result =>
    obtain ⟨hcount, hpoints, hvectors⟩ := embedBatches_ok env hrun
    rw [hids] at hpoints
    simp only [Except.map, ne_eq, reduceCtorEq, not_false_iff, iff_true]
    refine ⟨hpoints, hpoints ▸ hnodup, ?_, by omega⟩
    simpa only [Nat.zero_add] using hvectors

def MarkdownStored (answers : Answers ν) (kb : KnowledgeBase) (f : IndexFaults) : Prop :=
  Stored env answers (markdownRequests env kb) (indexed (markdownName kb) (markdownChunks env kb))
    (markdownRun env answers kb f)

def ConfluenceStored (answers : Answers ν) (kb : KnowledgeBase) (crawl : Crawl) (f : IndexFaults) :
    Prop :=
  Stored env answers (crawl.pages.flatMap (pageRequests env kb))
    (crawl.pages.flatMap fun page => indexed (pageName kb page) (pageChunks env kb page))
    (confluenceRun env answers kb crawl f)

theorem markdownStored_iff (answers : Answers ν) (kb : KnowledgeBase) (f : IndexFaults) :
    MarkdownStored env answers kb f
      ↔ (f.ensureCollection = none → Enough env answers f.upsert 0 (markdownRequests env kb)) := by
  unfold MarkdownStored markdownRun
  cases f.ensureCollection with
  | some err => simp [Stored]
  | none =>
    simp only [forall_const]
    exact stored_iff env (ids_textRequests env _ _ _ _ _) (nodup_indexed _ _) _ _

theorem nodup_pages (kb : KnowledgeBase) (crawl : Crawl) :
    ((crawl.pages.flatMap fun page => indexed (pageName kb page) (pageChunks env kb page)).map
      (BaseChunk.pointID env)).Nodup := by
  have hnodup : ((newPoints env { kb with source := "confluence" } crawl).map OwnedPoint.id).Nodup :=
    nodup_newPoints _ _
  rw [ids_newPoints, chunksOf, if_neg (by simp)] at hnodup
  exact hnodup

theorem confluenceStored_iff (answers : Answers ν) (kb : KnowledgeBase) (crawl : Crawl)
    (f : IndexFaults) :
    ConfluenceStored env answers kb crawl f
      ↔ (f.crawl = none → f.ensureCollection = none →
        Enough env answers f.upsert 0 (crawl.pages.flatMap (pageRequests env kb))) := by
  unfold ConfluenceStored confluenceRun
  cases f.crawl with
  | some err => simp [Stored]
  | none =>
    cases f.ensureCollection with
    | some err => simp [Stored]
    | none =>
      simp only [forall_const]
      refine stored_iff env ?_ (nodup_pages env kb crawl) _ _
      simp only [List.flatMap_assoc, pageRequests, ids_textRequests, List.map_flatMap]

end

/-! ## Memory documents -/

section
variable {ν : Type} (env : Memory.Env Unit)

def pointOfChunk (doc : Memory.MemoryDoc) (index : Nat) (chunk : Memory.TextChunk) (vector : ν) :
    Memory.Point ν :=
  { id := env.pointID doc.id index
    vector := vector
    docID := doc.id
    path := doc.path
    scope := doc.scope
    userID := doc.userID
    text := chunk.text
    startLine := chunk.startLine
    endLine := chunk.endLine
    updatedAt := doc.updatedAt }

/-- The loop over the chunks from `index`, which breaks off at the first
that has no vector. -/
def indexPoints (doc : Memory.MemoryDoc) : (index : Nat) → List Memory.TextChunk → List ν →
    List (Memory.Point ν)
  | index, chunk :: chunks, vector :: embeddings =>
    pointOfChunk env doc index chunk vector :: indexPoints doc (index + 1) chunks embeddings
  | _, _, _ => []

/-- The outcomes of the calls before and after the request: the name of
the collection, its creation, the upsert. -/
structure DocumentFaults where
  collection : Fault := none
  ensureCollection : Fault := none
  upsert : Fault := none

def documentChunks (doc : Memory.MemoryDoc) : List Memory.TextChunk :=
  Memory.chunkText doc.content env.maxChunkLen

/-- `Manager.upsertPoints`: no call is made without points. -/
def upsertPoints (points : List (Memory.Point ν)) (upsert : Fault) : List (Memory.Point ν) × Fault :=
  if points.isEmpty then ([], none)
  else
    match upsert with
    | some err => ([], some err)
    | none => (points, none)

/-- `Manager.IndexDocument` with a provider: the points that were
upserted, and the error. -/
def documentRun (answer : List String → Except String (List ν)) (doc : Memory.MemoryDoc)
    (f : DocumentFaults) : List (Memory.Point ν) × Fault :=
  match f.collection with
  | some err => ([], some err)
  | none =>
    match f.ensureCollection with
    | some err => ([], some ("ensure collection: " ++ err))
    | none =>
      let chunks := documentChunks env doc
      if chunks.isEmpty then ([], none)
      else
        match answer (chunks.map Memory.TextChunk.text) with
        | .error err => ([], some ("embed chunks: " ++ err))
        | .ok embeddings => upsertPoints (indexPoints env doc 0 chunks embeddings) f.upsert

/-- Without an error, every chunk is stored once, under an id of its own,
with its vector. -/
def DocumentStored (answer : List String → Except String (List ν)) (doc : Memory.MemoryDoc)
    (f : DocumentFaults) : Prop :=
  (documentRun env answer doc f).2 = none →
    (documentRun env answer doc f).1.map Memory.Point.id
        = (documentChunks env doc).zipIdx.map (fun c => env.pointID doc.id c.2)
      ∧ ((documentRun env answer doc f).1.map Memory.Point.id).Nodup
      ∧ ∀ (i : Nat) (chunk : Memory.TextChunk), (documentChunks env doc)[i]? = some chunk →
        ∃ embeddings vector,
          answer ((documentChunks env doc).map Memory.TextChunk.text) = .ok embeddings
            ∧ embeddings[i]? = some vector
            ∧ pointOfChunk env doc i chunk vector ∈ (documentRun env answer doc f).1

/-- The answer is not too short, unless the upsert of what there is
fails. -/
def DocumentEnough (answer : List String → Except String (List ν)) (doc : Memory.MemoryDoc)
    (f : DocumentFaults) : Prop :=
  f.collection = none → f.ensureCollection = none →
    ∀ embeddings, answer ((documentChunks env doc).map Memory.TextChunk.text) = .ok embeddings →
      (documentChunks env doc).length ≤ embeddings.length ∨ (embeddings ≠ [] ∧ f.upsert ≠ none)

theorem length_indexPoints (doc : Memory.MemoryDoc) (index : Nat) (chunks : List Memory.TextChunk)
    (embeddings : List ν) :
    (indexPoints env doc index chunks embeddings).length = min chunks.length embeddings.length := by
  induction chunks generalizing index embeddings with
  | nil => simp [indexPoints]
  | cons chunk chunks ih =>
    cases embeddings with
    | nil => simp [indexPoints]
    | cons vector embeddings => simp [indexPoints, ih, Nat.add_min_add_right]

theorem ids_indexPoints (doc : Memory.MemoryDoc) (index : Nat) {chunks : List Memory.TextChunk}
    {embeddings : List ν} (hlen : chunks.length ≤ embeddings.length) :
    (indexPoints env doc index chunks embeddings).map Memory.Point.id
      = (chunks.zipIdx index).map fun c => env.pointID doc.id c.2 := by
  induction chunks generalizing index embeddings with
  | nil => simp [indexPoints]
  | cons chunk chunks ih =>
    cases embeddings with
    | nil => simp at hlen
    | cons vector embeddings =>
      simp only [indexPoints, List.map_cons, List.zipIdx_cons]
      rw [ih (index + 1) (by simpa using hlen)]
      rfl

theorem exists_indexPoint (doc : Memory.MemoryDoc) (index : Nat) {chunks : List Memory.TextChunk}
    {embeddings : List ν} (hlen : chunks.length ≤ embeddings.length) {i : Nat}
    {chunk : Memory.TextChunk} (hchunk : chunks[i]? = some chunk) :
    ∃ vector, embeddings[i]? = some vector
      ∧ pointOfChunk env doc (index + i) chunk vector ∈ indexPoints env doc index chunks embeddings := by
  induction chunks generalizing index embeddings i with
  | nil => simp at hchunk
  | cons chunk' chunks ih =>
    cases embeddings with
    | nil => simp at hlen
    | cons vector embeddings =>
      cases i with
      | zero =>
        cases hchunk
        exact ⟨vector, rfl, List.mem_cons_self⟩
      | succ i =>
        obtain ⟨v, hv, hmem⟩ := ih (index + 1) (by simpa using hlen) hchunk
        rw [show index + 1 + i = index + (i + 1) by omega] at hmem
        exact ⟨v, hv, List.mem_cons_of_mem _ hmem⟩

theorem nodup_zipIdx_pointID (docID : String) (chunks : List Memory.TextChunk) :
    (chunks.zipIdx.map fun c => env.pointID docID c.2).Nodup := by
  have hsplit : (chunks.zipIdx.map fun c => env.pointID docID c.2)
      = (chunks.zipIdx.map Prod.snd).map (env.pointID docID) := List.map_map.symm
  rw [hsplit, List.zipIdx_map_snd]
  exact List.Nodup.map (fun _ _ h => (env.pointID_inj h).2) List.nodup_range'

theorem documentRun_answer {answer : List String → Except String (List ν)} {doc : Memory.MemoryDoc}
    {f : DocumentFaults} (hcollection : f.collection = none) (hensure : f.ensureCollection = none)
    {embeddings : List ν}
    (hanswer : answer ((documentChunks env doc).map Memory.TextChunk.text) = .ok embeddings) :
    documentRun env answer doc f
      = upsertPoints (indexPoints env doc 0 (documentChunks env doc) embeddings) f.upsert := by
  unfold documentRun
  simp only [hcollection, hensure, hanswer]
  split
  · rename_i hempty
    rw [List.isEmpty_iff.mp hempty]
    rfl
  · rfl

/-- An answer that is long enough is stored, unless the upsert fails. -/
theorem documentStored_of_le {answer : List String → Except String (List ν)} {doc : Memory.MemoryDoc}
    {f : DocumentFaults} {embeddings : List ν}
    (hrun : documentRun env answer doc f
      = upsertPoints (indexPoints env doc 0 (documentChunks env doc) embeddings) f.upsert)
    (hanswer : answer ((documentChunks env doc).map Memory.TextChunk.text) = .ok embeddings)
    (hlen : (documentChunks env doc).length ≤ embeddings.length) : DocumentStored env answer doc f := by
  intro hnone
  have hpoints : (documentRun env answer doc f).1
      = indexPoints env doc 0 (documentChunks env doc) embeddings := by
    rw [hrun] at hnone ⊢
    unfold upsertPoints at hnone ⊢
    split
    · rename_i hempty
      exact (List.isEmpty_iff.mp hempty).symm
    · rename_i hempty
      cases hupsert : f.upsert with
      | none => rfl
      | some err => simp [hempty, hupsert] at hnone
  have hids := ids_indexPoints env doc 0 hlen
  rw [hpoints]
  refine ⟨hids, hids ▸ nodup_zipIdx_pointID env _ _, fun i chunk hchunk => ?_⟩
  obtain ⟨vector, hvector, hmem⟩ := exists_indexPoint env doc 0 hlen hchunk
  rw [Nat.zero_add] at hmem
  exact ⟨embeddings, vector, hanswer, hvector, hmem⟩

/-- One that is too short is not, and no error tells of it. -/
theorem documentStored_of_lt {answer : List String → Except String (List ν)} {doc : Memory.MemoryDoc}
    {f : DocumentFaults} {embeddings : List ν}
    (hrun : documentRun env answer doc f
      = upsertPoints (indexPoints env doc 0 (documentChunks env doc) embeddings) f.upsert)
    (hlt : embeddings.length < (documentChunks env doc).length) :
    DocumentStored env answer doc f ↔ embeddings ≠ [] ∧ f.upsert ≠ none := by
  have hlength := length_indexPoints env doc 0 (documentChunks env doc) embeddings
  rw [Nat.min_eq_right hlt.le] at hlength
  have hempty : (indexPoints env doc 0 (documentChunks env doc) embeddings).isEmpty = true
      ↔ embeddings = [] := by
    rw [List.isEmpty_iff_length_eq_zero, hlength, List.length_eq_zero_iff]
  constructor
  · intro h
    by_contra hbad
    have hnone : (documentRun env answer doc f).2 = none
        ∧ (documentRun env answer doc f).1.length ≤ embeddings.length := by
      rw [hrun]
      unfold upsertPoints
      split
      · exact ⟨rfl, Nat.zero_le _⟩
      · rename_i hne
        cases hupsert : f.upsert with
        | none => exact ⟨rfl, hlength.le⟩
        | some err => exact absurd ⟨fun hnil => hne (hempty.mpr hnil), by simp [hupsert]⟩ hbad
    have hids := congrArg List.length (h hnone.1).1
    rw [List.length_map, List.length_map, List.length_zipIdx] at hids
    have hle := hnone.2
    omega
  · rintro ⟨hne, hupsert⟩ hnone
    obtain ⟨err, herr⟩ := Option.ne_none_iff_exists'.mp hupsert
    rw [hrun] at hnone
    simp [upsertPoints, mt hempty.mp hne, herr] at hnone

theorem documentStored_iff (answer : List String → Except String (List ν)) (doc : Memory.MemoryDoc)
    (f : DocumentFaults) : DocumentStored env answer doc f ↔ DocumentEnough env answer doc f := by
  cases hcollection : f.collection with
  | some err => simp [DocumentStored, DocumentEnough, documentRun, hcollection]
  | none =>
    cases hensure : f.ensureCollection with
    | some err => simp [DocumentStored, DocumentEnough, documentRun, hcollection, hensure]
    | none =>
      cases hanswer : answer ((documentChunks env doc).map Memory.TextChunk.text) with
      | error err =>
        have hvacuous : DocumentEnough env answer doc f := by
          intro _ _ embeddings h
          rw [hanswer] at h
          cases h
        refine iff_of_true ?_ hvacuous
        intro hnone
        by_cases hempty : documentChunks env doc = []
        · simp [documentRun, hcollection, hensure, hempty]
        · simp [documentRun, hcollection, hensure, hempty, hanswer] at hnone
      | ok embeddings =>
        have hrun := documentRun_answer env hcollection hensure hanswer
        have henough : DocumentEnough env answer doc f
            ↔ (documentChunks env doc).length ≤ embeddings.length
              ∨ (embeddings ≠ [] ∧ f.upsert ≠ none) := by
          simp [DocumentEnough, hcollection, hensure, hanswer]
        rw [henough]
        by_cases hlen : (documentChunks env doc).length ≤ embeddings.length
        · exact iff_of_true (documentStored_of_le env hrun hanswer hlen) (.inl hlen)
        · rw [documentStored_of_lt env hrun (not_le.mp hlen), or_iff_right hlen]

end

/-! ## The law -/

section
variable {ν : Type} (env : Env Unit) (menv : Memory.Env Unit)

/-- The three ways to store what is embedded. -/
structure ChunksStored (answers : Answers ν) (kb : KnowledgeBase) (crawl : Crawl)
    (doc : Memory.MemoryDoc) (f : IndexFaults) (g : DocumentFaults) : Prop where
  markdown : MarkdownStored env answers kb f
  confluence : ConfluenceStored env answers kb crawl f
  document : DocumentStored menv (answers 0) doc g

/-- No answer that is used is shorter than its request. -/
structure AnswersEnough (answers : Answers ν) (kb : KnowledgeBase) (crawl : Crawl)
    (doc : Memory.MemoryDoc) (f : IndexFaults) (g : DocumentFaults) : Prop where
  markdown : f.ensureCollection = none → Enough env answers f.upsert 0 (markdownRequests env kb)
  confluence : f.crawl = none → f.ensureCollection = none →
    Enough env answers f.upsert 0 (crawl.pages.flatMap (pageRequests env kb))
  document : DocumentEnough menv (answers 0) doc g

/-- Every chunk is stored with its vector, or an error returned, exactly
if no answer is shorter than its request. -/
theorem chunksStored_iff (answers : Answers ν) (kb : KnowledgeBase) (crawl : Crawl)
    (doc : Memory.MemoryDoc) (f : IndexFaults) (g : DocumentFaults) :
    ChunksStored env menv answers kb crawl doc f g
      ↔ AnswersEnough env menv answers kb crawl doc f g := by
  constructor
  · exact fun h => ⟨(markdownStored_iff env answers kb f).mp h.markdown,
      (confluenceStored_iff env answers kb crawl f).mp h.confluence,
      (documentStored_iff menv (answers 0) doc g).mp h.document⟩
  · exact fun h => ⟨(markdownStored_iff env answers kb f).mpr h.markdown,
      (confluenceStored_iff env answers kb crawl f).mpr h.confluence,
      (documentStored_iff menv (answers 0) doc g).mpr h.document⟩

/-- An endpoint that answers every text is enough. -/
theorem answersEnough_of_length {answers : Answers ν}
    (h : ∀ n texts embeddings, answers n texts = .ok embeddings → texts.length ≤ embeddings.length)
    (kb : KnowledgeBase) (crawl : Crawl) (doc : Memory.MemoryDoc) (f : IndexFaults)
    (g : DocumentFaults) : AnswersEnough env menv answers kb crawl doc f g := by
  have henough : ∀ upsert n batches, Enough env answers upsert n batches := by
    intro upsert n batches i b _ _ embeddings hanswer
    have hlen := h _ _ _ hanswer
    rwa [batchTexts, List.length_map] at hlen
  exact
    { markdown := fun _ => henough _ _ _
      confluence := fun _ _ => henough _ _ _
      document := fun _ _ embeddings hanswer => .inl (by simpa using h _ _ _ hanswer) }

end

/-! ## The runs of a provider -/

section
variable {ν : Type} (env : Env ν)

/-- What the runs use of the environment besides the vectors. -/
def Env.withoutVectors : Env Unit where
  chunk := env.chunk
  htmlToText := env.htmlToText
  translate := env.translate
  embed := Lib.unitVectors
  embed_length := Lib.unitVectors_length
  pointID := env.pointID
  pointID_inj := env.pointID_inj

/-- The endpoint of a provider that has a vector for every text. -/
def Env.answers : Answers ν := fun _ texts => .ok (env.embed texts)

theorem embedBatches_provider (n : Nat) (batches : List Batch) (total : Nat) :
    (embedBatches env.withoutVectors env.answers (fun _ => none) n batches total).1
      = batches.flatMap fun b => batchPoints env b.owner b.name b.payload b.chunks := by
  induction batches generalizing n total with
  | nil => rfl
  | cons b batches ih =>
    have hlen : b.chunks.length ≤ (env.embed (batchTexts env.withoutVectors b.chunks)).length := by
      rw [env.embed_length, batchTexts, List.length_map]
    unfold embedBatches
    simp only [Env.answers, embedPoints_eq, if_pos hlen]
    rw [List.flatMap_cons, ← ih (n + 1), batchPoints, List.map_zip_eq_zipWith]
    rfl

theorem textRequests_provider (what owner name : String) (payload : String → List (String × String))
    (chunks : List String) :
    (textRequests what owner name payload chunks).flatMap
        (fun b => batchPoints env b.owner b.name b.payload b.chunks)
      = batchedPoints (textBatches env what owner name payload chunks) := by
  rw [batchedPoints_textBatches, textRequests, List.flatMap_map]

/-- With such a provider the runs write the points of a sync. -/
theorem run_provider (kb : KnowledgeBase) (crawl : Crawl) :
    (if kb.source = "markdown" then (markdownRun env.withoutVectors env.answers kb {}).1
      else (confluenceRun env.withoutVectors env.answers kb crawl {}).1) = newPoints env kb crawl := by
  unfold newPoints
  split
  · have hrun : (markdownRun env.withoutVectors env.answers kb {}).1
        = (embedBatches env.withoutVectors env.answers (fun _ => none) 0
          (markdownRequests env.withoutVectors kb) 0).1 := by simp only [markdownRun]
    rw [hrun, embedBatches_provider, markdownRequests, textRequests_provider]
    rfl
  · have hrun : (confluenceRun env.withoutVectors env.answers kb crawl {}).1
        = (embedBatches env.withoutVectors env.answers (fun _ => none) 0
          (crawl.pages.flatMap (pageRequests env.withoutVectors kb)) 0).1 := by
      simp only [confluenceRun]
    rw [hrun, embedBatches_provider, batchedPoints_flatMap, List.flatMap_assoc]
    simp only [pageRequests, textRequests_provider]
    rfl

end

theorem textRequests_singleton (what owner name : String)
    (payload : String → List (String × String)) (text : String) :
    textRequests what owner name payload [text]
      = [{ what := what, owner := owner, name := name, payload := payload, chunks := [(text, 0)] }] :=
  rfl

/-- A markdown base whose only chunk gets no vector. -/
def consentGuide : KnowledgeBase :=
  { id := "guide", name := "Guide", source := "markdown", content := "Ask for consent." }

def emptyDoc : Memory.MemoryDoc :=
  { id := "doc", workspaceID := defaultWorkspaceID, scope := "global", userID := none
    path := "MEMORY.md", content := "", updatedAt := 0 }

theorem not_chunksStored :
    ¬ ChunksStored plainEnv Memory.plainEnv (fun _ _ => .ok ([] : List Unit)) consentGuide onePage
      emptyDoc {} {} := by
  have hcontent : Lib.trimSpace consentGuide.content ≠ "" := by decide +kernel
  have hchunks : ∃ text, markdownChunks plainEnv consentGuide = [text] := by
    simp only [markdownChunks, if_neg hcontent, plainEnv]
    exact ⟨_, rfl⟩
  obtain ⟨text, hchunks⟩ := hchunks
  intro h
  cases h with
  | mk hmarkdown _ _ =>
    rw [markdownStored_iff] at hmarkdown
    have henough := hmarkdown rfl
    rw [markdownRequests, hchunks, textRequests_singleton] at henough
    have hlen := henough 0 _ rfl (by omega) [] rfl
    simp at hlen

end LendingClaw.Knowledge
