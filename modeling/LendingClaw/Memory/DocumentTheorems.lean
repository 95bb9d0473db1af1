/-
LendingClaw.Memory.DocumentTheorems — which sequences of `memory_set` and
`memory_delete` keep one row a path, show what was written, and keep the
index on the documents.

`Upsert` relies on the unique key to find the row of a path, and the key
never holds for a global document. `documents_consistent_iff` says that
a sequence is good exactly when it writes no path twice without deleting
it in between.
-/
import LendingClaw.Lib.Runs
import LendingClaw.Memory.Documents

namespace LendingClaw.Memory

open LendingClaw.Store

/-! ## Operations -/

/-- A call of one of the two tools. -/
inductive MemoryOp where
  | set (ctx : Option WorkspaceID) (args : MemorySetArgs) (now : Nat)
  | delete (ctx : Option WorkspaceID) (path : String)

section
variable {ν : Type} (env : Env ν)

/-- What it leaves, where every call to the database and the index is
served. -/
def MemoryOp.apply (s : MemoryState ν) : MemoryOp → MemoryState ν
  | .set ctx args now => (memorySet env s ctx args now {}).1
  | .delete ctx path => (memoryDelete env s ctx path {}).1

/-- The memory, and the last operation with the memory before it. -/
structure MemoryRun (ν : Type) where
  memory : MemoryState ν
  last : Option (MemoryState ν × MemoryOp)

def MemoryRun.start : MemoryRun ν := { memory := .empty, last := none }

def MemoryRun.step (r : MemoryRun ν) (op : MemoryOp) : MemoryRun ν :=
  { memory := op.apply env r.memory, last := some (r.memory, op) }

/-! ## The property -/

/-- What `GetDocument` reads of a global document. -/
def readContent (s : MemoryState ν) (w : WorkspaceID) (path : String) : Option String :=
  match getDocument env s.docs w "global" "" path with
  | .ok doc => some doc.content
  | .error _ => none

/-- The content after an append. -/
def appended (old : Option String) (content : String) : String :=
  match old with
  | none => content
  | some old => if isDuplicateContent env old content then old else old ++ "\n" ++ content

/-- The operation shows in the document of its path. -/
def Visible (before : MemoryState ν) (op : MemoryOp) (after : MemoryState ν) : Prop :=
  match op with
  | .set ctx args _ =>
    args.path ≠ "" → args.content ≠ "" →
      readContent env after (toolWorkspace ctx) args.path
        = some (if args.mode = "" ∨ args.mode = "append" then
            appended env (readContent env before (toolWorkspace ctx) args.path) args.content
          else args.content)
  | .delete ctx path =>
    path ≠ "" → readContent env after (toolWorkspace ctx) path = none

/-- A point is that of the `i`-th chunk of a document. -/
structure IsChunk (doc : MemoryDoc) (i : Nat) (chunk : TextChunk) (p : Point ν) : Prop where
  at_index : (chunkText doc.content env.maxChunkLen)[i]? = some chunk
  id : p.id = env.pointID doc.id i
  docID : p.docID = doc.id
  path : p.path = doc.path
  text : p.text = chunk.text
  startLine : p.startLine = chunk.startLine
  endLine : p.endLine = chunk.endLine

/-- One row a path, the last operation visible, and the index on the
chunks of the documents. -/
structure Consistent (r : MemoryRun ν) : Prop where
  unique : ∀ a ∈ r.memory.docs.rows, ∀ b ∈ r.memory.docs.rows,
    a.workspaceID = b.workspaceID → env.weight a.path = env.weight b.path → a = b
  visible : ∀ before op, r.last = some (before, op) → Visible env before op r.memory
  sound : ∀ w, ∀ p ∈ (r.memory.index w).rows, ∃ doc ∈ r.memory.docs.rows,
    doc.workspaceID = w ∧ ∃ i chunk, IsChunk env doc i chunk p
  complete : ∀ doc ∈ r.memory.docs.rows, ∀ i chunk,
    (chunkText doc.content env.maxChunkLen)[i]? = some chunk →
      ∃ p ∈ (r.memory.index doc.workspaceID).rows, IsChunk env doc i chunk p

/-! ## The condition -/

/-- An append of what the document contains. -/
def SkipsAppend (s : MemoryState ν) (w : WorkspaceID) (args : MemorySetArgs) : Prop :=
  (args.mode = "" ∨ args.mode = "append")
    ∧ ∃ existing, getDocument env s.docs w "global" "" args.path = .ok existing
      ∧ isDuplicateContent env existing.content args.content = true

/-- A `memory_set` that writes is to a path that has no document. -/
def WritesNewPath (r : MemoryRun ν) : MemoryOp → Prop
  | .set ctx args _ =>
    args.path ≠ "" → args.content ≠ "" →
      ¬ SkipsAppend env r.memory (toolWorkspace ctx) args →
        ∀ doc ∈ r.memory.docs.rows, doc.workspaceID = toolWorkspace ctx →
          env.weight doc.path ≠ env.weight args.path
  | .delete _ _ => True

/-! ## Chunks and points -/

variable {env}

theorem mem_documentPoints {doc : MemoryDoc} {p : Point ν} (h : p ∈ documentPoints env doc) :
    ∃ i chunk, IsChunk env doc i chunk p := by
  simp only [documentPoints, List.mem_map] at h
  obtain ⟨⟨⟨chunk, vector⟩, i⟩, hmem, rfl⟩ := h
  have hzip := List.mem_zipIdx_iff_getElem?.mp hmem
  obtain ⟨hchunk, -⟩ := List.getElem?_zip_eq_some.mp hzip
  exact ⟨i, chunk, hchunk, rfl, rfl, rfl, rfl, rfl, rfl⟩

theorem docID_documentPoints {doc : MemoryDoc} {p : Point ν} (h : p ∈ documentPoints env doc) :
    p.docID = doc.id := by
  obtain ⟨i, chunk, hp⟩ := mem_documentPoints h
  exact hp.docID

/-- Every chunk has a vector, so a point. -/
theorem exists_documentPoint {doc : MemoryDoc} {i : Nat} {chunk : TextChunk}
    (h : (chunkText doc.content env.maxChunkLen)[i]? = some chunk) :
    ∃ p ∈ documentPoints env doc, IsChunk env doc i chunk p := by
  have hlt : i < (chunkText doc.content env.maxChunkLen).length :=
    (List.getElem?_eq_some_iff.mp h).1
  have hvec : i < (env.embed ((chunkText doc.content env.maxChunkLen).map TextChunk.text)).length := by
    rw [env.embed_length, List.length_map]
    exact hlt
  refine ⟨_, List.mem_map.mpr ⟨((chunk, _), i), List.mem_zipIdx_iff_getElem?.mpr
    (List.getElem?_zip_eq_some.mpr ⟨h, List.getElem?_eq_getElem hvec⟩), rfl⟩, ?_⟩
  exact ⟨h, rfl, rfl, rfl, rfl, rfl, rfl⟩

/-- The points of a document have different ids. -/
theorem nodup_documentPoints (doc : MemoryDoc) :
    ((documentPoints env doc).map Point.id).Nodup := by
  rw [documentPoints, List.map_map]
  have hidx : ∀ l : List (TextChunk × ν), (l.zipIdx.map Prod.snd).Nodup := by
    intro l
    rw [List.zipIdx_map_snd]
    exact List.nodup_range'
  refine List.Nodup.map_on ?_ (List.Nodup.of_map _ (hidx _))
  intro p hp q hq heq
  exact List.inj_on_of_nodup_map (hidx _) hp hq (env.pointID_inj heq).2

/-! ## The store -/

theorem mem_matching {docs : Lib.Table MemoryDoc String MemoryDoc.id} {w : WorkspaceID}
    {path : String} {doc : MemoryDoc} :
    doc ∈ matching env docs w "global" "" path ↔ doc ∈ docs.rows ∧ doc.workspaceID = w
      ∧ doc.scope = "global" ∧ doc.userID = none ∧ env.weight doc.path = env.weight path := by
  simp only [matching, Lib.Table.select, List.mem_filter, Bool.and_eq_true, decide_eq_true_eq,
    beq_iff_eq, and_assoc]
  cases doc.userID with
  | none => simp
  | some u => simp

theorem getDocument_mem {docs : Lib.Table MemoryDoc String MemoryDoc.id} {w : WorkspaceID}
    {path : String} {doc : MemoryDoc} (h : getDocument env docs w "global" "" path = .ok doc) :
    doc ∈ matching env docs w "global" "" path := by
  simp only [getDocument] at h
  split at h
  · cases h
  · rename_i hget
    cases h
    exact List.mem_of_getElem? hget

/-- A path with a row is found. -/
theorem getDocument_of_mem {docs : Lib.Table MemoryDoc String MemoryDoc.id} {w : WorkspaceID}
    {path : String} {doc : MemoryDoc} (h : doc ∈ matching env docs w "global" "" path) :
    ∃ found, getDocument env docs w "global" "" path = .ok found := by
  have hlen : env.pick (matching env docs w "global" "" path)
      % (matching env docs w "global" "" path).length
      < (matching env docs w "global" "" path).length :=
    Nat.mod_lt _ (List.length_pos_of_mem h)
  simp only [getDocument, List.getElem?_eq_getElem hlen]
  exact ⟨_, rfl⟩

theorem getDocument_none {docs : Lib.Table MemoryDoc String MemoryDoc.id} {w : WorkspaceID}
    {path : String} (h : ∀ doc, doc ∉ matching env docs w "global" "" path) :
    getDocument env docs w "global" "" path = .error .notFound := by
  simp only [getDocument, List.eq_nil_iff_forall_not_mem.mpr h]
  rfl

variable (env) in
/-- The rows that the tools write. -/
structure Plain (s : MemoryState ν) (doc : MemoryDoc) : Prop where
  scope : doc.scope = "global"
  userID : doc.userID = none
  id : ∃ k < s.drawn, doc.id = env.newID k

/-- A row without a user is inserted. -/
theorem upsertDoc_rows {docs : Lib.Table MemoryDoc String MemoryDoc.id} {doc : MemoryDoc}
    (huser : doc.userID = none) (hnew : ∀ r ∈ docs.rows, r.id ≠ doc.id) :
    (upsertDoc env docs doc).rows = docs.rows ++ [doc] := by
  have hkey : docs.rows.find? (fun r => sameKey env r doc) = none := by
    rw [List.find?_eq_none]
    intro r _
    simp only [sameKey, huser]
    cases r.userID with
    | none => simp
    | some u => simp
  rw [upsertDoc, hkey]
  dsimp only
  unfold Lib.Table.upsert
  cases hins : docs.insert doc with
  | none =>
    obtain ⟨r, hr, hid⟩ := Lib.Table.insert_eq_none.mp hins
    exact absurd hid (hnew r hr)
  | some docs' => exact (Lib.Table.insert_rows hins).2

/-! ## The invariant -/

variable (env) in
/-- What the good operations keep. -/
structure Inv (s : MemoryState ν) : Prop where
  unique : ∀ a ∈ s.docs.rows, ∀ b ∈ s.docs.rows,
    a.workspaceID = b.workspaceID → env.weight a.path = env.weight b.path → a = b
  plain : ∀ doc ∈ s.docs.rows, Plain env s doc
  index : ∀ w p, p ∈ (s.index w).rows ↔ ∃ doc ∈ s.docs.rows,
    doc.workspaceID = w ∧ p ∈ documentPoints env doc

variable {s : MemoryState ν}

theorem inv_empty : Inv env (MemoryState.empty : MemoryState ν) where
  unique := by
    intro a ha
    cases ha
  plain := by
    intro doc hdoc
    cases hdoc
  index := by
    intro w p
    simp [MemoryState.empty, Lib.Table.empty]

/-- What the next id is not. -/
theorem Inv.fresh (h : Inv env s) : ∀ doc ∈ s.docs.rows, doc.id ≠ env.newID s.drawn := by
  intro doc hdoc heq
  obtain ⟨k, hk, hid⟩ := (h.plain doc hdoc).id
  have hsame : k = s.drawn := env.newID_inj (hid.symm.trans heq)
  omega

theorem Plain.draw {doc : MemoryDoc} (h : Plain env s doc) {s' : MemoryState ν}
    (hdrawn : s.drawn ≤ s'.drawn) : Plain env s' doc := by
  obtain ⟨k, hk, hid⟩ := h.id
  exact ⟨h.scope, h.userID, k, by omega, hid⟩

/-- The document of a path is read. -/
theorem Inv.readContent_eq (h : Inv env s) {doc : MemoryDoc} (hdoc : doc ∈ s.docs.rows)
    {path : String} (hpath : env.weight doc.path = env.weight path) :
    readContent env s doc.workspaceID path = some doc.content := by
  have hmem : doc ∈ matching env s.docs doc.workspaceID "global" "" path :=
    mem_matching.mpr ⟨hdoc, rfl, (h.plain doc hdoc).scope, (h.plain doc hdoc).userID, hpath⟩
  obtain ⟨found, hfound⟩ := getDocument_of_mem hmem
  obtain ⟨hrow, hw, -, -, hfpath⟩ := mem_matching.mp (getDocument_mem hfound)
  have hsame : found = doc := h.unique found hrow doc hdoc hw (hfpath.trans hpath.symm)
  rw [Memory.readContent, hfound, hsame]

theorem readContent_none {w : WorkspaceID} {path : String}
    (h : ∀ doc ∈ s.docs.rows, doc.workspaceID = w → env.weight doc.path ≠ env.weight path) :
    readContent env s w path = none := by
  have hnone : ∀ doc, doc ∉ matching env s.docs w "global" "" path := by
    intro doc hdoc
    obtain ⟨hrow, hw, -, -, hpath⟩ := mem_matching.mp hdoc
    exact h doc hrow hw hpath
  rw [Memory.readContent, getDocument_none hnone]

/-! ## Writes -/

/-- The row of a `memory_set`. -/
def newDoc (env : Env ν) (s : MemoryState ν) (w : WorkspaceID) (path content : String)
    (now : Nat) : MemoryDoc :=
  { id := env.newID s.drawn, workspaceID := w, scope := "global", userID := none
    path := path, content := content, updatedAt := now }

/-- The documents after a write. -/
theorem docs_memorySet {ctx : Option WorkspaceID} {args : MemorySetArgs} {now : Nat}
    {content : String} (hpath : args.path ≠ "") (hcontent : args.content ≠ "")
    (hwrite : contentToWrite env s.docs (toolWorkspace ctx) args none = .ok content) :
    (memorySet env s ctx args now {}).1.docs
      = upsertDoc env s.docs (newDoc env s (toolWorkspace ctx) args.path content now) := by
  simp only [memorySet, if_neg hpath, if_neg hcontent, hwrite]
  split
  · rfl
  · rfl

/-- The memory after a write whose row is read back. -/
theorem memorySet_saved {ctx : Option WorkspaceID} {args : MemorySetArgs} {now : Nat}
    {content : String} {saved : MemoryDoc} (hpath : args.path ≠ "") (hcontent : args.content ≠ "")
    (hwrite : contentToWrite env s.docs (toolWorkspace ctx) args none = .ok content)
    (hsaved : getDocument env
        (upsertDoc env s.docs (newDoc env s (toolWorkspace ctx) args.path content now))
        (toolWorkspace ctx) "global" "" args.path = .ok saved) :
    (memorySet env s ctx args now {}).1
      = (({ s with
            drawn := s.drawn + 1
            docs := upsertDoc env s.docs (newDoc env s (toolWorkspace ctx) args.path content now) }
          : MemoryState ν).deleteDocumentVectors (toolWorkspace ctx) saved.id none).indexDocument
            env (toolWorkspace ctx) saved none := by
  simp only [memorySet, if_neg hpath, if_neg hcontent, hwrite]
  split
  · rename_i hget
    exact absurd (hsaved.symm.trans hget) (by simp)
  · rename_i hget
    cases hsaved.symm.trans hget
    rfl

theorem memorySet_error {ctx : Option WorkspaceID} {args : MemorySetArgs} {now : Nat}
    {result : Tools.Result} (hpath : args.path ≠ "") (hcontent : args.content ≠ "")
    (h : contentToWrite env s.docs (toolWorkspace ctx) args none = .error result) :
    (memorySet env s ctx args now {}).1 = s := by
  simp only [memorySet, if_neg hpath, if_neg hcontent, h]

theorem memorySet_refused {ctx : Option WorkspaceID} {args : MemorySetArgs} {now : Nat}
    (h : args.path = "" ∨ args.content = "") : (memorySet env s ctx args now {}).1 = s := by
  unfold memorySet
  split
  · rfl
  · rename_i hpath
    rw [if_pos (h.resolve_left hpath)]

theorem contentToWrite_skips {w : WorkspaceID} {args : MemorySetArgs}
    (h : SkipsAppend env s w args) :
    ∃ result, contentToWrite env s.docs w args none = .error result := by
  obtain ⟨hmode, existing, hget, hdup⟩ := h
  have happend : (if args.mode = "" then "append" else args.mode) = "append" := by
    rcases hmode with hmode | hmode
    · simp [hmode]
    · simp [hmode]
  simp only [contentToWrite, happend, if_true, hget, hdup]
  exact ⟨_, rfl⟩

/-- What is written, where nothing is skipped. -/
theorem contentToWrite_writes {w : WorkspaceID} {args : MemorySetArgs}
    (h : ¬ SkipsAppend env s w args) :
    contentToWrite env s.docs w args none
      = .ok (if args.mode = "" ∨ args.mode = "append" then
          appended env (readContent env s w args.path) args.content
        else args.content) := by
  by_cases hmode : args.mode = "" ∨ args.mode = "append"
  · have happend : (if args.mode = "" then "append" else args.mode) = "append" := by
      rcases hmode with hmode | hmode
      · simp [hmode]
      · simp [hmode]
    rw [if_pos hmode]
    simp only [contentToWrite, happend, if_true, readContent]
    cases hget : getDocument env s.docs w "global" "" args.path with
    | ok existing =>
      have hdup : isDuplicateContent env existing.content args.content = false := by
        by_contra hdup
        exact h ⟨hmode, existing, hget, by simpa using hdup⟩
      simp [appended, hdup]
    | error err =>
      -- no query fails here
      have hnotFound : err = .notFound := by
        simp only [getDocument] at hget
        split at hget
        · cases hget
          rfl
        · cases hget
      rw [hnotFound]
      rfl
  · have hother : ¬ (if args.mode = "" then "append" else args.mode) = "append" := by
      rw [not_or] at hmode
      rw [if_neg hmode.1]
      exact hmode.2
    rw [if_neg hmode, contentToWrite]
    simp only [hother, if_false]

theorem index_deleteDocumentVectors (w w' : WorkspaceID) (docID : String) :
    (s.deleteDocumentVectors w docID none).index w'
      = if w' = w then (s.index w').delete (fun p => p.docID == docID) else s.index w' := by
  simp only [MemoryState.deleteDocumentVectors, Function.update_apply]
  split
  · rename_i hw
    rw [hw]
  · rfl

theorem index_indexDocument (w w' : WorkspaceID) (doc : MemoryDoc) :
    (s.indexDocument env w doc none).index w'
      = if w' = w then (s.index w').putAll (documentPoints env doc) else s.index w' := by
  simp only [MemoryState.indexDocument, Function.update_apply]
  split
  · rename_i hw
    rw [hw]
  · rfl

/-- Re-indexing a document: its points, and those of the others. -/
theorem mem_reindex {w w' : WorkspaceID} {doc : MemoryDoc} {p : Point ν}
    (ht : ∀ p ∈ (s.index w').rows, ∃ i, p.id = env.pointID p.docID i) :
    p ∈ (((s.deleteDocumentVectors w doc.id none).indexDocument env w doc none).index w').rows
      ↔ (w' = w ∧ p ∈ documentPoints env doc)
        ∨ (p ∈ (s.index w').rows ∧ (w' = w → p.docID ≠ doc.id)) := by
  rw [index_indexDocument, index_deleteDocumentVectors]
  by_cases hw : w' = w
  · simp only [hw, if_true, true_and, true_implies]
    rw [Lib.Table.mem_putAll (nodup_documentPoints doc), Lib.Table.mem_delete,
      beq_eq_false_iff_ne]
    refine or_congr_right ⟨fun hold => hold.1, fun hold => ⟨hold, ?_⟩⟩
    rw [List.mem_map]
    rintro ⟨q, hq, hid⟩
    obtain ⟨i, hi⟩ := ht p (hw ▸ hold.1)
    obtain ⟨j, chunk, hchunk⟩ := mem_documentPoints hq
    exact hold.2 (env.pointID_inj (hi.symm.trans (hid.symm.trans hchunk.id))).1
  · simp [hw]

/-- The points of an index of documents have the ids of their documents. -/
theorem Inv.pointID (h : Inv env s) (w : WorkspaceID) :
    ∀ p ∈ (s.index w).rows, ∃ i, p.id = env.pointID p.docID i := by
  intro p hp
  obtain ⟨doc, -, -, hpoint⟩ := (h.index w p).mp hp
  obtain ⟨i, chunk, hchunk⟩ := mem_documentPoints hpoint
  exact ⟨i, by rw [hchunk.docID, hchunk.id]⟩

/-- A new document is written and indexed. -/
theorem Inv.upserted (h : Inv env s) {w : WorkspaceID} {path : String} (content : String) (now : Nat)
    (hnew : ∀ doc ∈ s.docs.rows, doc.workspaceID = w → env.weight doc.path ≠ env.weight path) :
    Inv env ((({ s with
      drawn := s.drawn + 1
      docs := upsertDoc env s.docs (newDoc env s w path content now) } : MemoryState ν).deleteDocumentVectors
        w (newDoc env s w path content now).id none).indexDocument env w
          (newDoc env s w path content now) none) := by
  let doc := newDoc env s w path content now
  have hrows : (upsertDoc env s.docs doc).rows = s.docs.rows ++ [doc] := upsertDoc_rows rfl h.fresh
  refine ⟨?_, ?_, ?_⟩
  · intro a ha b hb hws hweight
    have ha' := hrows ▸ ha
    have hb' := hrows ▸ hb
    rw [List.mem_append, List.mem_singleton] at ha' hb'
    rcases ha' with ha' | rfl
    · rcases hb' with hb' | rfl
      · exact h.unique a ha' b hb' hws hweight
      · exact absurd hweight (hnew a ha' hws)
    · rcases hb' with hb' | rfl
      · exact absurd hweight.symm (hnew b hb' hws.symm)
      · rfl
  · intro a ha
    have ha' := hrows ▸ ha
    rw [List.mem_append, List.mem_singleton] at ha'
    rcases ha' with ha' | rfl
    · exact (h.plain a ha').draw (Nat.le_succ _)
    · exact ⟨rfl, rfl, s.drawn, Nat.lt_succ_self _, rfl⟩
  · intro w p
    refine (mem_reindex (h.pointID w)).trans ?_
    show _ ↔ ∃ d ∈ (upsertDoc env s.docs doc).rows, _
    rw [hrows]
    show _ ∨ (p ∈ (s.index w).rows ∧ _) ↔ _
    rw [h.index]
    constructor
    · rintro (⟨rfl, hp⟩ | ⟨⟨d, hd, hws, hp⟩, -⟩)
      · exact ⟨doc, List.mem_append_right _ (List.mem_singleton.mpr rfl), rfl, hp⟩
      · exact ⟨d, List.mem_append_left _ hd, hws, hp⟩
    · rintro ⟨d, hd, hws, hp⟩
      rw [List.mem_append, List.mem_singleton] at hd
      rcases hd with hd | rfl
      · refine Or.inr ⟨⟨d, hd, hws, hp⟩, fun _ => ?_⟩
        rw [docID_documentPoints hp]
        exact h.fresh d hd
      · exact Or.inl ⟨hws.symm, hp⟩
/-- A write to a new path. -/
theorem Inv.set (h : Inv env s) {ctx : Option WorkspaceID} {args : MemorySetArgs} (now : Nat)
    (hpath : args.path ≠ "") (hcontent : args.content ≠ "")
    (hskip : ¬ SkipsAppend env s (toolWorkspace ctx) args)
    (hnew : ∀ doc ∈ s.docs.rows, doc.workspaceID = toolWorkspace ctx →
      env.weight doc.path ≠ env.weight args.path) :
    Inv env (memorySet env s ctx args now {}).1
      ∧ readContent env (memorySet env s ctx args now {}).1 (toolWorkspace ctx) args.path
        = some args.content := by
  have hwrite : contentToWrite env s.docs (toolWorkspace ctx) args none = .ok args.content := by
    rw [contentToWrite_writes hskip, readContent_none hnew]
    simp [appended]
  let doc := newDoc env s (toolWorkspace ctx) args.path args.content now
  have hrows : (upsertDoc env s.docs doc).rows = s.docs.rows ++ [doc] := upsertDoc_rows rfl h.fresh
  have hdoc : doc ∈ matching env (upsertDoc env s.docs doc) (toolWorkspace ctx) "global" "" args.path := by
    rw [mem_matching, hrows]
    exact ⟨List.mem_append_right _ (List.mem_singleton.mpr rfl), rfl, rfl, rfl, rfl⟩
  obtain ⟨saved, hsaved⟩ := getDocument_of_mem hdoc
  have hsame : saved = doc := by
    obtain ⟨hrow, hw, -, -, hweight⟩ := mem_matching.mp (getDocument_mem hsaved)
    rw [hrows, List.mem_append, List.mem_singleton] at hrow
    exact hrow.resolve_left fun hold => hnew saved hold hw hweight
  subst hsame
  rw [memorySet_saved hpath hcontent hwrite hsaved]
  have hinv := h.upserted args.content now hnew
  have hmem : doc ∈ (upsertDoc env s.docs doc).rows := by
    rw [hrows]
    exact List.mem_append_right _ (List.mem_singleton.mpr rfl)
  have hread := hinv.readContent_eq hmem rfl
  exact ⟨hinv, hread⟩

/-- A deletion, of a path with a document or without one. -/
theorem Inv.delete (h : Inv env s) (ctx : Option WorkspaceID) {path : String} (hpath : path ≠ "") :
    Inv env (memoryDelete env s ctx path {}).1
      ∧ readContent env (memoryDelete env s ctx path {}).1 (toolWorkspace ctx) path = none := by
  cases hget : getDocument env s.docs (toolWorkspace ctx) "global" "" path with
  | error err =>
    have hsame : (memoryDelete env s ctx path {}).1 = s := by
      cases err with
      | notFound => simp only [memoryDelete, if_neg hpath, hget]
      | query err =>
        simp only [memoryDelete, if_neg hpath, hget]
        split
        · rfl
        · rfl
    rw [hsame]
    exact ⟨h, by rw [readContent, hget]⟩
  | ok doc =>
    obtain ⟨hdoc, hws, -, -, hweight⟩ := mem_matching.mp (getDocument_mem hget)
    have hstate : (memoryDelete env s ctx path {}).1
        = { s.deleteDocumentVectors (toolWorkspace ctx) doc.id none with
            docs := s.docs.delete (fun r =>
              decide (r.workspaceID = toolWorkspace ctx) && r.id == doc.id) } := by
      simp only [memoryDelete, if_neg hpath, hget]
      rfl
    -- the id of the row is its own
    have hrows : ∀ r, r ∈ (memoryDelete env s ctx path {}).1.docs.rows
        ↔ r ∈ s.docs.rows ∧ r ≠ doc := by
      intro r
      rw [hstate]
      simp only [Lib.Table.mem_delete, Bool.and_eq_false_iff, decide_eq_false_iff_not,
        beq_eq_false_iff_ne]
      refine and_congr_right fun hr => ⟨?_, ?_⟩
      · rintro (hne | hne) rfl
        · exact hne hws
        · exact hne rfl
      · intro hne
        exact Or.inr fun hid => hne (s.docs.eq_of_key hr hdoc hid)
    refine ⟨⟨?_, ?_, ?_⟩, ?_⟩
    · intro a ha b hb
      exact h.unique a ((hrows a).mp ha).1 b ((hrows b).mp hb).1
    · intro r hr
      refine (h.plain r ((hrows r).mp hr).1).draw (le_of_eq ?_)
      rw [hstate]
      rfl
    · intro w p
      simp only [hrows]
      rw [hstate]
      show p ∈ ((s.deleteDocumentVectors (toolWorkspace ctx) doc.id none).index w).rows ↔ _
      rw [index_deleteDocumentVectors]
      have hold := h.index w p
      split
      · rename_i hw
        rw [Lib.Table.mem_delete, hold, beq_eq_false_iff_ne]
        constructor
        · rintro ⟨⟨d, hd, hdw, hp⟩, hne⟩
          refine ⟨d, ⟨hd, ?_⟩, hdw, hp⟩
          rintro rfl
          exact hne (docID_documentPoints hp)
        · rintro ⟨d, ⟨hd, hne⟩, hdw, hp⟩
          refine ⟨⟨d, hd, hdw, hp⟩, ?_⟩
          rw [docID_documentPoints hp]
          exact fun hid => hne (s.docs.eq_of_key hd hdoc hid)
      · rename_i hw
        rw [hold]
        constructor
        · rintro ⟨d, hd, hdw, hp⟩
          refine ⟨d, ⟨hd, ?_⟩, hdw, hp⟩
          rintro rfl
          exact hw (hdw.symm.trans hws)
        · rintro ⟨d, ⟨hd, -⟩, hdw, hp⟩
          exact ⟨d, hd, hdw, hp⟩
    · apply readContent_none
      intro r hr hrw hpathr
      obtain ⟨hr, hne⟩ := (hrows r).mp hr
      exact hne (h.unique r hr doc hdoc (hrw.trans hws.symm) (hpathr.trans hweight.symm))

/-! ## One operation -/

variable {r : MemoryRun ν}

/-- A good operation keeps the invariant and shows. -/
theorem Inv.step (h : Inv env r.memory) {op : MemoryOp} (hop : WritesNewPath env r op) :
    Inv env (op.apply env r.memory) ∧ Visible env r.memory op (op.apply env r.memory) := by
  cases op with
  | delete ctx path =>
    by_cases hpath : path = ""
    · subst hpath
      exact ⟨h, fun hne => absurd rfl hne⟩
    · obtain ⟨hinv, hread⟩ := h.delete ctx hpath
      exact ⟨hinv, fun _ => hread⟩
  | set ctx args now =>
    simp only [MemoryOp.apply, Visible]
    by_cases hargs : args.path = "" ∨ args.content = ""
    · rw [memorySet_refused hargs]
      refine ⟨h, fun hpath hcontent => ?_⟩
      exact absurd hargs (not_or.mpr ⟨hpath, hcontent⟩)
    · obtain ⟨hpath, hcontent⟩ := not_or.mp hargs
      by_cases hskip : SkipsAppend env r.memory (toolWorkspace ctx) args
      · obtain ⟨result, hresult⟩ := contentToWrite_skips hskip
        rw [memorySet_error hpath hcontent hresult]
        obtain ⟨hmode, existing, hget, hdup⟩ := hskip
        refine ⟨h, fun _ _ => ?_⟩
        simp [hmode, readContent, hget, appended, hdup]
      · have hnew := hop hpath hcontent hskip
        obtain ⟨hinv, hread⟩ := h.set now hpath hcontent hskip hnew
        refine ⟨hinv, fun _ _ => ?_⟩
        rw [hread, readContent_none hnew]
        simp [appended]

/-- A write to a path that has a document leaves two rows. -/
theorem Inv.two_rows (h : Inv env r.memory) {op : MemoryOp} (hop : ¬ WritesNewPath env r op) :
    ∃ a ∈ (op.apply env r.memory).docs.rows, ∃ b ∈ (op.apply env r.memory).docs.rows,
      a.workspaceID = b.workspaceID ∧ env.weight a.path = env.weight b.path ∧ a ≠ b := by
  cases op with
  | delete ctx path => exact absurd trivial hop
  | set ctx args now =>
    simp only [WritesNewPath] at hop
    push Not at hop
    obtain ⟨hpath, hcontent, hskip, old, hold, hws, hweight⟩ := hop
    simp only [MemoryOp.apply]
    rw [docs_memorySet hpath hcontent (contentToWrite_writes hskip), upsertDoc_rows rfl h.fresh]
    refine ⟨old, List.mem_append_left _ hold, _,
      List.mem_append_right _ (List.mem_singleton.mpr rfl), hws, hweight, ?_⟩
    intro heq
    exact h.fresh old hold (congrArg MemoryDoc.id heq)

theorem Inv.consistent (h : Inv env r.memory)
    (hvisible : ∀ before op, r.last = some (before, op) → Visible env before op r.memory) :
    Consistent env r where
  unique := h.unique
  visible := hvisible
  sound := by
    intro w p hp
    obtain ⟨doc, hdoc, hws, hpoint⟩ := (h.index w p).mp hp
    exact ⟨doc, hdoc, hws, mem_documentPoints hpoint⟩
  complete := by
    intro doc hdoc i chunk hchunk
    obtain ⟨p, hp, his⟩ := exists_documentPoint hchunk
    exact ⟨p, (h.index doc.workspaceID p).mpr ⟨doc, hdoc, rfl, hp⟩, his⟩

/-! ## Runs -/

variable (env) in
/-- A sequence of calls keeps one row a path, shows what it writes and
keeps the index on the documents, if and only if each `memory_set` that
writes is to a path without a document. -/
theorem documents_consistent_iff (ops : List MemoryOp) :
    Lib.Always (Consistent env) (MemoryRun.step env) (MemoryRun.start : MemoryRun ν) ops
      ↔ Lib.Along (WritesNewPath env) (MemoryRun.step env) (MemoryRun.start : MemoryRun ν) ops := by
  let Good (r : MemoryRun ν) : Prop := Inv env r.memory
    ∧ ∀ before op, r.last = some (before, op) → Visible env before op r.memory
  have hstep : ∀ r op, Good r → WritesNewPath env r op → Good (r.step env op) := by
    intro r op hr hop
    obtain ⟨hinv, hvisible⟩ := hr.1.step hop
    refine ⟨hinv, fun before op' hlast => ?_⟩
    cases hlast
    exact hvisible
  have hbad : ∀ r op, Good r → ¬ WritesNewPath env r op → ¬ Consistent env (r.step env op) := by
    intro r op hr hop hconsistent
    obtain ⟨a, ha, b, hb, hws, hweight, hne⟩ := hr.1.two_rows hop
    exact hne (hconsistent.unique a ha b hb hws hweight)
  have hstart : Good (MemoryRun.start : MemoryRun ν) :=
    ⟨inv_empty, fun before op hlast => by cases hlast⟩
  exact Lib.always_iff_along hstep (fun r hr => hr.1.consistent hr.2) hbad ops _ hstart

end

/-! ### A preference corrected -/

/-- Ids and point ids that spell their numbers in unary. -/
def plainEnv : Env Unit where
  toLower := id
  weight := id
  pick _ := 0
  newID n := String.ofList (List.replicate n 'i')
  newID_inj := by
    intro n m h
    simpa using congrArg (fun s => s.toList.length) h
  pointID := Lib.unaryKey
  pointID_inj := Lib.unaryKey_inj
  embed := Lib.unitVectors
  embed_length := Lib.unitVectors_length
  maxChunkLen := 1000

def preferenceWrites : List MemoryOp :=
  [.set none { path := "memory/preferences.md", content := "reports in English"
               mode := "overwrite" } 1,
   .set none { path := "memory/preferences.md", content := "reports in Vietnamese"
               mode := "overwrite" } 2]

/-- The second overwrite leaves the first row where it is. -/
theorem overwrite_leaves_two_rows :
    ¬ Lib.Always (Consistent plainEnv) (MemoryRun.step plainEnv) MemoryRun.start
        preferenceWrites := by
  intro h
  have hrows : (Lib.run (MemoryRun.step plainEnv) MemoryRun.start preferenceWrites).memory.docs.rows
      = [newDoc plainEnv .empty defaultWorkspaceID "memory/preferences.md" "reports in English" 1,
         newDoc plainEnv { MemoryState.empty with drawn := 1 } defaultWorkspaceID
           "memory/preferences.md" "reports in Vietnamese" 2] := by
    rfl
  have hunique := h.last.unique
  rw [hrows] at hunique
  have hsame := hunique _ (List.mem_cons_self) _
    (List.mem_cons_of_mem _ (List.mem_singleton.mpr rfl)) rfl rfl
  exact absurd (congrArg MemoryDoc.updatedAt hsame) (by decide)

end LendingClaw.Memory
