/-
LendingClaw.Knowledge.SyncTheorems — which sequences of syncs, edits and
deletions replace exactly the points of one knowledge base.

All bases of a workspace write to one collection. A markdown base finds
its own points again by `kb_id`; a Confluence base names them by page,
drops the whole collection on a reset and otherwise drops nothing, and
a deletion touches no point. `sync_replaces_iff` says when none of this
shows.
-/
import LendingClaw.Knowledge.Indexing
import LendingClaw.Lib.Runs

namespace LendingClaw.Knowledge

open LendingClaw.Store

/-! ## Operations -/

/-- A request on the knowledge bases of a workspace, every call served.
A sync carries what the crawl finds at its time. -/
inductive KnowledgeOp where
  | create (newID : String) (body : Option KnowledgeBase)
  | update (id : String) (body : Option KnowledgeBase)
  | delete (id : String)
  | sync (id : String) (reset : Bool) (crawl : Crawl) (now : Nat)

section
variable {ν : Type} (env : Env ν) (cfg : SyncConfig) (w : WorkspaceID) (collection : String)

def KnowledgeOp.apply (s : KnowledgeState ν) : KnowledgeOp → KnowledgeState ν
  | .create newID body => createBase s w collection newID body {}
  | .update id body => updateBase s w id body {}
  | .delete id => deleteBase s w id {}
  | .sync id reset crawl now => syncBase env cfg s w id reset crawl now {} {}

/-- The state, and the last operation with the state before it. -/
structure KnowledgeRun (ν : Type) where
  state : KnowledgeState ν
  last : Option (KnowledgeState ν × KnowledgeOp)

def KnowledgeRun.start : KnowledgeRun ν :=
  { state := { kbs := Lib.Table.empty, points := Lib.Table.empty }, last := none }

def KnowledgeRun.step (r : KnowledgeRun ν) (op : KnowledgeOp) : KnowledgeRun ν :=
  { state := op.apply env cfg w collection r.state, last := some (r.state, op) }

/-! ## The property -/

/-- A chunk of a base, with what its point is named by. -/
structure BaseChunk where
  name : String
  index : Nat
  text : String

def indexed (name : String) (chunks : List String) : List BaseChunk :=
  chunks.zipIdx.map fun c => { name := name, index := c.2, text := c.1 }

/-- The chunks of the content of a base: its document, or the pages. -/
def chunksOf (kb : KnowledgeBase) (crawl : Crawl) : List BaseChunk :=
  if kb.source = "markdown" then indexed (markdownName kb) (markdownChunks env kb)
  else crawl.pages.flatMap fun page => indexed (pageName kb page) (pageChunks env kb page)

/-- The id of a chunk's point. -/
def BaseChunk.pointID (c : BaseChunk) : String := env.pointID c.name c.index

/-- A point is that of a chunk. -/
structure IsPointOf (c : BaseChunk) (p : OwnedPoint ν) : Prop where
  id : p.id = c.pointID env
  content : p.payload.lookup "content" = some c.text

/-- A sync that is let through leaves the points of other bases alone,
and of its own base the points of the chunks; after a deletion there is
none. -/
def Replaces (before : KnowledgeState ν) (op : KnowledgeOp) (after : KnowledgeState ν) : Prop :=
  match op with
  | .sync id _ crawl _ =>
    ∀ kb, before.kbs.get w id = some kb → checkSync cfg kb = none →
      (∀ p, p.owner ≠ id → (p ∈ after.points.rows ↔ p ∈ before.points.rows))
        ∧ (∀ p ∈ after.points.rows, p.owner = id → ∃ c ∈ chunksOf env kb crawl, IsPointOf env c p)
        ∧ (∀ c ∈ chunksOf env kb crawl, ∃ p ∈ after.points.rows, p.owner = id ∧ IsPointOf env c p)
  | .delete id => ∀ p ∈ after.points.rows, p.owner ≠ id
  | _ => True

def LastReplaces (r : KnowledgeRun ν) : Prop :=
  ∀ before op, r.last = some (before, op) → Replaces env cfg w before op r.state

/-! ## The condition -/

/-- A sync of Confluence with reset finds no point of another base. Any
other sync has no chunk whose point another base has, and finds, if it
is of Confluence, no point of its own but of chunks it still has. What
is deleted has no point. -/
def CleanOp (r : KnowledgeRun ν) : KnowledgeOp → Prop
  | .sync id reset crawl _ =>
    ∀ kb, r.state.kbs.get w id = some kb → checkSync cfg kb = none →
      if kb.source ≠ "markdown" ∧ reset then ∀ p ∈ r.state.points.rows, p.owner = id
      else
        (∀ p ∈ r.state.points.rows, p.owner ≠ id → ∀ c ∈ chunksOf env kb crawl, p.id ≠ c.pointID env)
          ∧ (kb.source ≠ "markdown" →
              ∀ p ∈ r.state.points.rows, p.owner = id → ∃ c ∈ chunksOf env kb crawl, p.id = c.pointID env)
  | .delete id => ∀ p ∈ r.state.points.rows, p.owner ≠ id
  | _ => True

/-! ## Batches -/

variable {env}

/-- The points of the batches. -/
def batchedPoints (batches : List (String × List (OwnedPoint ν))) : List (OwnedPoint ν) :=
  (batches.map Prod.snd).flatten

theorem upsertBatches_served (batches : List (String × List (OwnedPoint ν))) (n : Nat)
    (coll : Collection ν) :
    upsertBatches {} n batches coll = (coll.putAll (batchedPoints batches), none) := by
  rw [batchedPoints, ← Lib.Table.foldl_putAll]
  induction batches generalizing n coll with
  | nil => rfl
  | cons batch batches ih =>
    rw [upsertBatches]
    exact ih (n + 1) (coll.putAll batch.2)

section
variable {what owner name : String} {payload : String → List (String × String)}

/-- A batch has one point for each of its chunks. -/
theorem ids_batchPoints (batch : List (String × Nat)) :
    (batchPoints env owner name payload batch).map OwnedPoint.id
      = batch.map fun c => env.pointID name c.2 := by
  rw [batchPoints, List.map_map]
  have hsplit : (OwnedPoint.id ∘ fun p : (String × Nat) × ν =>
      { owner := owner, id := env.pointID name p.1.2, vector := p.2, payload := payload p.1.1 }
      : (String × Nat) × ν → String) = (fun c : String × Nat => env.pointID name c.2) ∘ Prod.fst := rfl
  rw [hsplit, ← List.map_map, List.map_fst_zip]
  rw [env.embed_length, batchTexts, List.length_map]

theorem mem_batchPoints {batch : List (String × Nat)} {p : OwnedPoint ν}
    (h : p ∈ batchPoints env owner name payload batch) :
    ∃ c ∈ batch, p.owner = owner ∧ p.id = env.pointID name c.2 ∧ p.payload = payload c.1 := by
  obtain ⟨⟨c, v⟩, hzip, rfl⟩ := List.mem_map.mp h
  exact ⟨c, (List.of_mem_zip hzip).1, rfl, rfl, rfl⟩

theorem exists_batchPoint {batch : List (String × Nat)} {c : String × Nat} (h : c ∈ batch) :
    ∃ p ∈ batchPoints env owner name payload batch,
      p.owner = owner ∧ p.id = env.pointID name c.2 ∧ p.payload = payload c.1 := by
  obtain ⟨i, hi⟩ := List.mem_iff_getElem?.mp h
  have hlt := (List.getElem?_eq_some_iff.mp hi).1
  have hvec : i < (env.embed (batchTexts env batch)).length := by
    rw [env.embed_length, batchTexts, List.length_map]
    exact hlt
  have hzip : (c, (env.embed (batchTexts env batch))[i])
      ∈ batch.zip (env.embed (batchTexts env batch)) :=
    List.mem_of_getElem? (List.getElem?_zip_eq_some.mpr ⟨hi, List.getElem?_eq_getElem hvec⟩)
  exact ⟨_, List.mem_map.mpr ⟨_, hzip, rfl⟩, rfl, rfl, rfl⟩

theorem flatten_batches (chunks : List String) :
    (Lib.Table.batches embeddingBatchSize chunks.length chunks.zipIdx).flatten = chunks.zipIdx :=
  Lib.Table.batches_flatten (by decide) _ _ (le_of_eq List.length_zipIdx)

theorem batchedPoints_textBatches (chunks : List String) :
    batchedPoints (textBatches env what owner name payload chunks)
      = (Lib.Table.batches embeddingBatchSize chunks.length chunks.zipIdx).flatMap
          (batchPoints env owner name payload) := by
  rw [batchedPoints, textBatches, List.map_map, List.flatMap_def]
  rfl

theorem mem_textBatches {chunks : List String} {p : OwnedPoint ν}
    (h : p ∈ batchedPoints (textBatches env what owner name payload chunks)) :
    ∃ c ∈ indexed name chunks, p.owner = owner ∧ p.id = c.pointID env
      ∧ p.payload = payload c.text := by
  rw [batchedPoints_textBatches] at h
  obtain ⟨batch, hbatch, hp⟩ := List.mem_flatMap.mp h
  obtain ⟨c, hc, howner, hid, hpayload⟩ := mem_batchPoints hp
  have hmem : c ∈ chunks.zipIdx := by
    rw [← flatten_batches]
    exact List.mem_flatten.mpr ⟨batch, hbatch, hc⟩
  exact ⟨_, List.mem_map.mpr ⟨c, hmem, rfl⟩, howner, hid, hpayload⟩

theorem exists_textBatch {chunks : List String} {c : BaseChunk} (h : c ∈ indexed name chunks) :
    ∃ p ∈ batchedPoints (textBatches env what owner name payload chunks),
      p.owner = owner ∧ p.id = c.pointID env ∧ p.payload = payload c.text := by
  obtain ⟨c, hc, rfl⟩ := List.mem_map.mp h
  rw [← flatten_batches] at hc
  obtain ⟨batch, hbatch, hc⟩ := List.mem_flatten.mp hc
  obtain ⟨p, hp, hpoint⟩ := exists_batchPoint hc
  rw [batchedPoints_textBatches]
  exact ⟨p, List.mem_flatMap.mpr ⟨batch, hbatch, hp⟩, hpoint⟩

theorem ids_textBatches (chunks : List String) :
    (batchedPoints (textBatches env what owner name payload chunks)).map OwnedPoint.id
      = (indexed name chunks).map (BaseChunk.pointID env) := by
  rw [batchedPoints_textBatches, List.map_flatMap]
  simp only [ids_batchPoints]
  rw [List.flatMap_def, ← List.map_flatten, flatten_batches, indexed, List.map_map]
  rfl

end

/-! ## What a run writes -/

/-- All the points of a run. -/
def newPoints (env : Env ν) (kb : KnowledgeBase) (crawl : Crawl) : List (OwnedPoint ν) :=
  batchedPoints
    (if kb.source = "markdown" then markdownBatches env kb
    else crawl.pages.flatMap (pageBatches env kb))

/-- What the indexer clears before. -/
def cleared (kb : KnowledgeBase) (reset : Bool) (coll : Collection ν) : Collection ν :=
  if kb.source = "markdown" then deletePointsByPayload coll "kb_id" kb.id
  else if reset then deleteCollection coll
  else coll

variable (env) in
theorem indexBase_served (kb : KnowledgeBase) (reset : Bool) (crawl : Crawl) (coll : Collection ν) :
    ∃ result, indexBase env kb reset crawl {} coll
      = ((cleared kb reset coll).putAll (newPoints env kb crawl), .ok result) := by
  unfold indexBase cleared newPoints
  split
  · simp only [indexMarkdown, upsertBatches_served]
    exact ⟨_, rfl⟩
  · simp only [indexConfluence, upsertBatches_served]
    cases reset with
    | _ => exact ⟨_, rfl⟩

/-- The `kb_id` of the points of a base. -/
def KnowledgeBase.kbID (kb : KnowledgeBase) : Option String :=
  if kb.source = "markdown" then some kb.id else none

theorem batchedPoints_flatMap (pages : List ConfluencePage)
    (f : ConfluencePage → List (String × List (OwnedPoint ν))) :
    batchedPoints (pages.flatMap f) = pages.flatMap fun page => batchedPoints (f page) := by
  induction pages with
  | nil => rfl
  | cons page pages ih =>
    rw [List.flatMap_cons, List.flatMap_cons, ← ih]
    simp [batchedPoints]

theorem mem_newPoints {kb : KnowledgeBase} {crawl : Crawl} {p : OwnedPoint ν}
    (h : p ∈ newPoints env kb crawl) :
    p.owner = kb.id ∧ p.payload.lookup "kb_id" = kb.kbID
      ∧ ∃ c ∈ chunksOf env kb crawl, IsPointOf env c p := by
  unfold newPoints at h
  unfold KnowledgeBase.kbID chunksOf
  split at h
  · rename_i hmd
    obtain ⟨c, hc, howner, hid, hpayload⟩ := mem_textBatches h
    rw [if_pos hmd, if_pos hmd, hpayload]
    exact ⟨howner, rfl, c, hc, hid, hpayload ▸ rfl⟩
  · rename_i hmd
    rw [batchedPoints_flatMap] at h
    obtain ⟨page, hpage, hp⟩ := List.mem_flatMap.mp h
    obtain ⟨c, hc, howner, hid, hpayload⟩ := mem_textBatches hp
    rw [if_neg hmd, if_neg hmd, hpayload]
    exact ⟨howner, rfl, c, List.mem_flatMap.mpr ⟨page, hpage, hc⟩, hid, hpayload ▸ rfl⟩

theorem exists_newPoint {kb : KnowledgeBase} {crawl : Crawl} {c : BaseChunk}
    (h : c ∈ chunksOf env kb crawl) : ∃ p ∈ newPoints env kb crawl, IsPointOf env c p := by
  unfold chunksOf at h
  unfold newPoints
  split at h
  · rename_i hmd
    obtain ⟨p, hp, -, hid, hpayload⟩ := exists_textBatch h
    rw [if_pos hmd]
    exact ⟨p, hp, hid, hpayload ▸ rfl⟩
  · rename_i hmd
    obtain ⟨page, hpage, hc⟩ := List.mem_flatMap.mp h
    obtain ⟨p, hp, -, hid, hpayload⟩ := exists_textBatch hc
    rw [if_neg hmd, batchedPoints_flatMap]
    exact ⟨p, List.mem_flatMap.mpr ⟨page, hpage, hp⟩, hid, hpayload ▸ rfl⟩

theorem ids_newPoints (kb : KnowledgeBase) (crawl : Crawl) :
    (newPoints env kb crawl).map OwnedPoint.id = (chunksOf env kb crawl).map (BaseChunk.pointID env) := by
  unfold newPoints chunksOf
  split
  · exact ids_textBatches _
  · have hpage : ∀ page, (batchedPoints (pageBatches env kb page)).map OwnedPoint.id
        = (indexed (pageName kb page) (pageChunks env kb page)).map (BaseChunk.pointID env) :=
      fun page => ids_textBatches _
    rw [batchedPoints_flatMap, List.map_flatMap, List.map_flatMap]
    simp only [hpage]

theorem nodup_indexed (name : String) (chunks : List String) :
    ((indexed name chunks).map (BaseChunk.pointID env)).Nodup := by
  have hidx : (chunks.zipIdx.map Prod.snd).Nodup := by
    rw [List.zipIdx_map_snd]
    exact List.nodup_range'
  rw [indexed, List.map_map]
  refine List.Nodup.map_on ?_ (List.Nodup.of_map _ hidx)
  intro c hc d hd heq
  exact List.inj_on_of_nodup_map hidx hc hd (env.pointID_inj heq).2

theorem mem_indexed {name : String} {chunks : List String} {c : BaseChunk}
    (h : c ∈ indexed name chunks) : c.name = name := by
  obtain ⟨c, -, rfl⟩ := List.mem_map.mp h
  rfl

theorem pageName_inj {kb : KnowledgeBase} {page page' : ConfluencePage}
    (h : pageName kb page = pageName kb page') : page.id = page'.id := by
  unfold pageName at h
  exact (String.append_right_inj _).mp h

/-- No run names two points alike. -/
theorem nodup_newPoints (kb : KnowledgeBase) (crawl : Crawl) :
    ((newPoints env kb crawl).map OwnedPoint.id).Nodup := by
  rw [ids_newPoints]
  unfold chunksOf
  split
  · exact nodup_indexed _ _
  · rw [List.map_flatMap, List.nodup_flatMap]
    refine ⟨fun page _ => nodup_indexed _ _, ?_⟩
    have hpages : crawl.pages.Pairwise (fun page page' => page.id ≠ page'.id) :=
      List.pairwise_map.mp crawl.distinct
    refine hpages.imp ?_
    intro page page' hne
    refine List.disjoint_left.mpr ?_
    intro x hx hx'
    obtain ⟨c, hc, rfl⟩ := List.mem_map.mp hx
    obtain ⟨c', hc', heq⟩ := List.mem_map.mp hx'
    have hname : c'.name = c.name := (env.pointID_inj heq).1
    rw [mem_indexed hc, mem_indexed hc'] at hname
    exact hne (pageName_inj hname.symm)

/-! ## The invariant -/

/-- All rows are of the workspace, and every point was written by one of
them, which its `kb_id` tells if it is a markdown base. -/
structure Owned (w : WorkspaceID) (s : KnowledgeState ν) : Prop where
  rows : ∀ kb ∈ s.kbs.rows, kb.workspaceID = w
  points : ∀ p ∈ s.points.rows, ∃ kb ∈ s.kbs.rows, kb.id = p.owner ∧ p.payload.lookup "kb_id" = kb.kbID

variable {w} {s : KnowledgeState ν}

/-- An update that keeps the columns the points depend on. -/
theorem Owned.updateAt (h : Owned w s) (id : String) (f : KnowledgeBase → KnowledgeBase)
    (hf : ∀ kb, (f kb).id = kb.id) (hsource : ∀ kb, (f kb).source = kb.source)
    (hws : ∀ kb, (f kb).workspaceID = kb.workspaceID) :
    Owned w { s with kbs := s.kbs.updateAt w id f hf } := by
  have hkept : ∀ kb : KnowledgeBase, (if kb.workspaceID = w then f kb else kb).id = kb.id
      ∧ (if kb.workspaceID = w then f kb else kb).kbID = kb.kbID
      ∧ (if kb.workspaceID = w then f kb else kb).workspaceID = kb.workspaceID := by
    intro kb
    split
    · exact ⟨hf kb, by simp [KnowledgeBase.kbID, hf, hsource], hws kb⟩
    · exact ⟨rfl, rfl, rfl⟩
  constructor
  · intro kb hkb
    rcases (mem_updateAt hf).mp hkb with ⟨hold, -⟩ | ⟨old, hold, -, rfl⟩
    · exact h.rows kb hold
    · rw [(hkept old).2.2]
      exact h.rows old hold
  · intro p hp
    obtain ⟨kb, hkb, howner, hid⟩ := h.points p hp
    by_cases hk : kb.id = id
    · exact ⟨_, (mem_updateAt hf).mpr (Or.inr ⟨kb, hkb, hk, rfl⟩), (hkept kb).1.trans howner,
        hid.trans (hkept kb).2.1.symm⟩
    · exact ⟨kb, (mem_updateAt hf).mpr (Or.inl ⟨hkb, hk⟩), howner, hid⟩

/-! ## The operations -/

theorem Owned.createBase (h : Owned w s) (collection newID : String)
    (body : Option KnowledgeBase) : Owned w (createBase s w collection newID body {}) := by
  unfold Knowledge.createBase
  split
  · exact h
  · split
    · exact h
    · split
      · exact h
      · rename_i kbs hcreate
        have hrows := (Lib.Table.insert_rows hcreate).2
        constructor
        · intro kb hkb
          rw [hrows] at hkb
          rcases List.mem_append.mp hkb with hold | hnew
          · exact h.rows kb hold
          · rw [List.mem_singleton.mp hnew]
        · intro p hp
          obtain ⟨kb, hkb, hpoint⟩ := h.points p hp
          rw [hrows]
          exact ⟨kb, List.mem_append_left _ hkb, hpoint⟩

theorem Owned.updateBase (h : Owned w s) (id : String) (body : Option KnowledgeBase) :
    Owned w (updateBase s w id body {}) := by
  unfold Knowledge.updateBase
  split
  · rename_i kb existing _
    exact h.updateAt id
      (KnowledgeBase.assign { kb with id := id, collection := existing.collection })
      (fun _ => rfl) (fun _ => rfl) (fun _ => rfl)
  · exact h

/-- Deleting a base that has no point. -/
theorem Owned.deleteBase (h : Owned w s) {id : String} (hnone : ∀ p ∈ s.points.rows, p.owner ≠ id) :
    Owned w (deleteBase s w id {}) := by
  constructor
  · intro kb hkb
    exact h.rows kb (Lib.Table.mem_delete.mp hkb).1
  · intro p hp
    obtain ⟨kb, hkb, howner, hid⟩ := h.points p hp
    have hne : ¬ kb.id = id := fun heq => hnone p hp (howner.symm.trans heq)
    exact ⟨kb, Lib.Table.mem_delete.mpr ⟨hkb, by simp [KnowledgeBase.at, hne]⟩, howner, hid⟩

theorem Owned.finishSync (h : Owned w s) (id : String) (now : Nat)
    (result : IndexResult) : Owned w (finishSync s w id now (.ok result) none) :=
  h.updateAt id
    (KnowledgeBase.withStatus "done" none result.totalPages result.totalChunks result.totalPoints now)
    (fun _ => rfl) (fun _ => rfl) (fun _ => rfl)

/-- The points after a run of `kb`. -/
def synced (env : Env ν) (kb : KnowledgeBase) (reset : Bool) (crawl : Crawl) (coll : Collection ν) :
    Collection ν :=
  (cleared kb reset coll).putAll (newPoints env kb crawl)

theorem mem_synced {kb : KnowledgeBase} {reset : Bool} {crawl : Crawl} {coll : Collection ν}
    {p : OwnedPoint ν} :
    p ∈ (synced env kb reset crawl coll).rows ↔ p ∈ newPoints env kb crawl
      ∨ p ∈ (cleared kb reset coll).rows ∧ ∀ c ∈ chunksOf env kb crawl, p.id ≠ c.pointID env := by
  rw [synced, Lib.Table.mem_putAll (nodup_newPoints kb crawl), ids_newPoints]
  simp [eq_comm]

variable {cfg}

variable (env) in
/-- A sync that the handler lets through, with every call served. -/
theorem syncBase_served {id : String} {kb : KnowledgeBase} (hget : s.kbs.get w id = some kb)
    (hcheck : checkSync cfg kb = none) (reset : Bool) (crawl : Crawl) (now : Nat) :
    ∃ result, syncBase env cfg s w id reset crawl now {} {}
      = finishSync
          { kbs := s.kbs.updateAt w id (KnowledgeBase.withStatus "syncing" none kb.totalPages
              kb.totalChunks kb.totalPoints now) (fun _ => rfl)
            points := synced env kb reset crawl s.points } w id now (.ok result) none := by
  obtain ⟨result, hindex⟩ := indexBase_served env kb reset crawl s.points
  refine ⟨result, ?_⟩
  unfold syncBase
  rw [hget]
  simp only [hcheck, KnowledgeTable.updateSyncStatus, hindex]
  rfl

variable (env) in
theorem syncBase_points {id : String} {kb : KnowledgeBase} (hget : s.kbs.get w id = some kb)
    (hcheck : checkSync cfg kb = none) (reset : Bool) (crawl : Crawl) (now : Nat) :
    (syncBase env cfg s w id reset crawl now {} {}).points = synced env kb reset crawl s.points := by
  obtain ⟨result, hsync⟩ := syncBase_served env hget hcheck reset crawl now
  rw [hsync]
  rfl

/-- A sync that the handler refuses. -/
theorem syncBase_refused {id : String}
    (h : ∀ kb, s.kbs.get w id = some kb → checkSync cfg kb ≠ none) (reset : Bool) (crawl : Crawl)
    (now : Nat) : syncBase env cfg s w id reset crawl now {} {} = s := by
  unfold syncBase
  cases hget : s.kbs.get w id with
  | none => rfl
  | some kb =>
    cases hcheck : checkSync cfg kb with
    | none => exact absurd hcheck (h kb hget)
    | some reply => simp only [hcheck]

theorem Owned.syncBase (h : Owned w s) (id : String) (reset : Bool) (crawl : Crawl) (now : Nat) :
    Owned w (syncBase env cfg s w id reset crawl now {} {}) := by
  by_cases hlet : ∀ kb, s.kbs.get w id = some kb → checkSync cfg kb ≠ none
  · rw [syncBase_refused hlet]
    exact h
  · push Not at hlet
    obtain ⟨kb, hget, hcheck⟩ := hlet
    obtain ⟨hkb, hid⟩ := get_some hget
    obtain ⟨result, hsync⟩ := syncBase_served env hget hcheck reset crawl now
    rw [hsync]
    refine Owned.finishSync ?_ id now result
    have hpoints : Owned w { s with points := synced env kb reset crawl s.points } := by
      refine ⟨h.rows, ?_⟩
      intro p hp
      rcases mem_synced.mp hp with hnew | ⟨hold, -⟩
      · obtain ⟨howner, hkbID, -⟩ := mem_newPoints hnew
        exact ⟨kb, hkb, howner.symm, hkbID⟩
      · refine h.points p ?_
        unfold cleared at hold
        split at hold
        · exact (Lib.Table.mem_delete.mp hold).1
        · split at hold
          · exact absurd hold List.not_mem_nil
          · exact hold
    exact hpoints.updateAt id
      (KnowledgeBase.withStatus "syncing" none kb.totalPages kb.totalChunks kb.totalPoints now)
      (fun _ => rfl) (fun _ => rfl) (fun _ => rfl)

/-! ## When an operation replaces -/

/-- What a run clears of the points: a markdown base its own, a reset of
Confluence all of them. -/
theorem mem_cleared (h : Owned w s) {kb : KnowledgeBase} (hkb : kb ∈ s.kbs.rows) {reset : Bool}
    {p : OwnedPoint ν} :
    p ∈ (cleared kb reset s.points).rows ↔ p ∈ s.points.rows
      ∧ (kb.source = "markdown" → p.owner ≠ kb.id) ∧ ¬ (kb.source ≠ "markdown" ∧ reset) := by
  unfold cleared
  split
  · rename_i hmd
    rw [deletePointsByPayload, Lib.Table.mem_delete]
    refine and_congr_right fun hp => ?_
    obtain ⟨owner, howner, hid, hkbID⟩ := h.points p hp
    have hown : p.payload.lookup "kb_id" = some kb.id ↔ p.owner = kb.id := by
      rw [hkbID, ← hid]
      constructor
      · intro hsome
        unfold KnowledgeBase.kbID at hsome
        split at hsome
        · exact Option.some.inj hsome
        · cases hsome
      · intro heq
        rw [s.kbs.eq_of_key howner hkb heq, KnowledgeBase.kbID, if_pos hmd]
    simp [hmd, hown]
  · rename_i hmd
    cases reset with
    | true => simp [hmd, deleteCollection, Lib.Table.empty]
    | false => simp [hmd]

theorem replaces_sync_iff (h : Owned w s) {id : String} {kb : KnowledgeBase}
    (hget : s.kbs.get w id = some kb) (reset : Bool) (crawl : Crawl) :
    ((∀ p, p.owner ≠ id → (p ∈ (synced env kb reset crawl s.points).rows ↔ p ∈ s.points.rows))
        ∧ (∀ p ∈ (synced env kb reset crawl s.points).rows, p.owner = id →
            ∃ c ∈ chunksOf env kb crawl, IsPointOf env c p)
        ∧ (∀ c ∈ chunksOf env kb crawl, ∃ p ∈ (synced env kb reset crawl s.points).rows,
            p.owner = id ∧ IsPointOf env c p))
      ↔ if kb.source ≠ "markdown" ∧ reset then ∀ p ∈ s.points.rows, p.owner = id
        else
          (∀ p ∈ s.points.rows, p.owner ≠ id → ∀ c ∈ chunksOf env kb crawl, p.id ≠ c.pointID env)
            ∧ (kb.source ≠ "markdown" →
                ∀ p ∈ s.points.rows, p.owner = id → ∃ c ∈ chunksOf env kb crawl, p.id = c.pointID env) := by
  obtain ⟨hkb, rfl⟩ := get_some hget
  have hothers : ∀ p : OwnedPoint ν, p.owner ≠ kb.id →
      (p ∈ (synced env kb reset crawl s.points).rows ↔ p ∈ s.points.rows
        ∧ ¬ (kb.source ≠ "markdown" ∧ reset) ∧ ∀ c ∈ chunksOf env kb crawl, p.id ≠ c.pointID env) := by
    intro p howner
    have hnew : p ∉ newPoints env kb crawl := fun hp => howner (mem_newPoints hp).1
    rw [mem_synced, mem_cleared h hkb]
    simp [hnew, howner, and_assoc]
  have hown : (∀ p ∈ (synced env kb reset crawl s.points).rows, p.owner = kb.id →
        ∃ c ∈ chunksOf env kb crawl, IsPointOf env c p)
      ↔ (kb.source ≠ "markdown" ∧ ¬ reset → ∀ p ∈ s.points.rows, p.owner = kb.id →
          ∃ c ∈ chunksOf env kb crawl, p.id = c.pointID env) := by
    constructor
    · intro hall hcond p hp howner
      by_contra hnone
      push Not at hnone
      have hstays : p ∈ (synced env kb reset crawl s.points).rows :=
        mem_synced.mpr (Or.inr ⟨(mem_cleared h hkb).mpr
          ⟨hp, fun hmd => absurd hmd hcond.1, fun hreset => hcond.2 hreset.2⟩, hnone⟩)
      obtain ⟨c, hc, hpoint⟩ := hall p hstays howner
      exact hnone c hc hpoint.id
    · intro hcond p hp howner
      rcases mem_synced.mp hp with hnew | ⟨hold, hnone⟩
      · exact (mem_newPoints hnew).2.2
      · obtain ⟨hin, hmd, hreset⟩ := (mem_cleared h hkb).mp hold
        have hconf : kb.source ≠ "markdown" := fun heq => hmd heq howner
        obtain ⟨c, hc, heq⟩ := hcond ⟨hconf, fun hr => hreset ⟨hconf, hr⟩⟩ p hin howner
        exact absurd heq (hnone c hc)
  have hchunks : ∀ c ∈ chunksOf env kb crawl, ∃ p ∈ (synced env kb reset crawl s.points).rows,
      p.owner = kb.id ∧ IsPointOf env c p := by
    intro c hc
    obtain ⟨p, hp, hpoint⟩ := exists_newPoint hc
    exact ⟨p, mem_synced.mpr (Or.inl hp), (mem_newPoints hp).1, hpoint⟩
  rw [hown, and_iff_left hchunks]
  by_cases hreset : kb.source ≠ "markdown" ∧ reset
  · rw [if_pos hreset, and_iff_left (fun hcond => absurd hreset.2 hcond.2)]
    constructor
    · intro hsame p hp
      by_contra howner
      exact ((hothers p howner).mp ((hsame p howner).mpr hp)).2.1 hreset
    · intro hall p howner
      rw [hothers p howner]
      exact ⟨fun hp => hp.1, fun hp => absurd (hall p hp) howner⟩
  · rw [if_neg hreset]
    refine and_congr ?_ ?_
    · constructor
      · intro hsame p hp howner
        exact ((hothers p howner).mp ((hsame p howner).mpr hp)).2.2
      · intro hfree p howner
        rw [hothers p howner]
        exact ⟨fun hp => hp.1, fun hp => ⟨hp, hreset, hfree p hp howner⟩⟩
    · constructor
      · exact fun hcond hconf => hcond ⟨hconf, fun hr => hreset ⟨hconf, hr⟩⟩
      · exact fun hcond hconf => hcond hconf.1

/-- An operation replaces what it should when, and only when, it is
clean. -/
theorem replaces_iff {r : KnowledgeRun ν} (h : Owned w r.state) (collection : String)
    (op : KnowledgeOp) :
    Replaces env cfg w r.state op (op.apply env cfg w collection r.state)
      ↔ CleanOp env cfg w r op := by
  cases op with
  | create newID body => rfl
  | update id body => rfl
  | delete id => rfl
  | sync id reset crawl now =>
    refine forall_congr' fun kb => forall_congr' fun hget => forall_congr' fun hcheck => ?_
    rw [← replaces_sync_iff h hget reset crawl]
    have hpoints := syncBase_points env hget hcheck reset crawl now
    show _ ∧ _ ∧ _ ↔ _
    rw [KnowledgeOp.apply, hpoints]

theorem Owned.apply {r : KnowledgeRun ν} (h : Owned w r.state) {collection : String}
    {op : KnowledgeOp} (hclean : CleanOp env cfg w r op) :
    Owned w (op.apply env cfg w collection r.state) := by
  cases op with
  | create newID body => exact h.createBase collection newID body
  | update id body => exact h.updateBase id body
  | delete id => exact h.deleteBase hclean
  | sync id reset crawl now => exact h.syncBase id reset crawl now

theorem lastReplaces_step {r : KnowledgeRun ν} (h : Owned w r.state) {collection : String}
    (op : KnowledgeOp) :
    LastReplaces env cfg w (r.step env cfg w collection op) ↔ CleanOp env cfg w r op := by
  rw [← replaces_iff h collection]
  constructor
  · intro hlast
    exact hlast r.state op rfl
  · intro hop before op' heq
    cases heq
    exact hop

theorem owned_start : Owned w (KnowledgeRun.start (ν := ν)).state where
  rows := fun _ h => absurd h List.not_mem_nil
  points := fun _ h => absurd h List.not_mem_nil

/-- Every sync and every deletion of a run replaces exactly the points of
its base when, and only when, all of them are clean. -/
theorem sync_replaces_iff (env : Env ν) (cfg : SyncConfig) (w : WorkspaceID) (collection : String)
    (ops : List KnowledgeOp) :
    Lib.Always (LastReplaces env cfg w) (KnowledgeRun.step env cfg w collection)
        KnowledgeRun.start ops
      ↔ Lib.Along (CleanOp env cfg w) (KnowledgeRun.step env cfg w collection)
        KnowledgeRun.start ops := by
  let Good (r : KnowledgeRun ν) : Prop := Owned w r.state ∧ LastReplaces env cfg w r
  have hstep : ∀ r op, Good r → CleanOp env cfg w r op → Good (r.step env cfg w collection op) := by
    intro r op hr hclean
    exact ⟨hr.1.apply hclean, (lastReplaces_step hr.1 op).mpr hclean⟩
  have hbad : ∀ r op, Good r → ¬ CleanOp env cfg w r op →
      ¬ LastReplaces env cfg w (r.step env cfg w collection op) := by
    intro r op hr hnot hlast
    exact hnot ((lastReplaces_step hr.1 op).mp hlast)
  have hstart : Good KnowledgeRun.start := by
    refine ⟨owned_start, ?_⟩
    intro before op h
    cases h
  exact Lib.always_iff_along hstep (fun r hr => hr.2) hbad ops _ hstart

end

/-! ### Two bases in one collection -/

/-- One chunk a text, named in unary. -/
def plainEnv : Env Unit where
  chunk text _ _ := [text]
  htmlToText := id
  translate := none
  embed := Lib.unitVectors
  embed_length := Lib.unitVectors_length
  pointID := Lib.unaryKey
  pointID_inj := Lib.unaryKey_inj

def fullConfig : SyncConfig := { embeddingBaseURL := true, qdrantHost := true, confluence := true }

/-- The root page alone. -/
def onePage : Crawl where
  pages :=
    [{ id := "4711", title := "Fees", body := "Fees are monthly.", spaceKey := "LEND", url := "",
       labels := [] }]
  distinct := by decide

/-- A markdown base is synced, then a Confluence base with reset. -/
def guideThenWiki : List KnowledgeOp :=
  [.create "guide" (some { name := "Guide", source := "markdown", content := "Ask for consent." }),
   .create "wiki" (some { name := "Wiki", spaceKey := "LEND", rootPage := "Fees" }),
   .sync "guide" false onePage 1]

def wikiCollection : String := "lending_agent_workspace_default"

/-- The reset of the one drops the points of the other. -/
theorem reset_drops_other_base :
    ¬ Lib.Always (LastReplaces plainEnv fullConfig defaultWorkspaceID)
        (KnowledgeRun.step plainEnv fullConfig defaultWorkspaceID wikiCollection)
        KnowledgeRun.start (guideThenWiki ++ [.sync "wiki" true onePage 2]) := by
  intro h
  let before := (Lib.run (KnowledgeRun.step plainEnv fullConfig defaultWorkspaceID wikiCollection)
    KnowledgeRun.start guideThenWiki).state
  have hget : (before.kbs.get defaultWorkspaceID "wiki").isSome := by decide +kernel
  have hcheck : ∀ kb ∈ before.kbs.get defaultWorkspaceID "wiki", checkSync fullConfig kb = none := by
    intro kb hkb
    have hnone : (before.kbs.get defaultWorkspaceID "wiki").all
        (fun kb => (checkSync fullConfig kb).isNone) := by decide +kernel
    rw [hkb] at hnone
    exact Option.isNone_iff_eq_none.mp hnone
  obtain ⟨kb, hkb⟩ := Option.isSome_iff_exists.mp hget
  obtain ⟨hothers, -⟩ := h.last before (.sync "wiki" true onePage 2) rfl kb hkb (hcheck kb hkb)
  have hhad : before.points.rows.any (fun p => p.owner == "guide") := by decide +kernel
  obtain ⟨p, hp, howner⟩ := List.any_eq_true.mp hhad
  have hguide : p.owner = "guide" := eq_of_beq howner
  have hkept := (hothers p (by rw [hguide]; decide)).mpr hp
  have hgone : (Lib.run (KnowledgeRun.step plainEnv fullConfig defaultWorkspaceID wikiCollection)
      KnowledgeRun.start (guideThenWiki ++ [.sync "wiki" true onePage 2])).state.points.rows.all
        (fun p => p.owner != "guide") := by decide +kernel
  have hne := List.all_eq_true.mp hgone p hkept
  simp [hguide] at hne

end LendingClaw.Knowledge
