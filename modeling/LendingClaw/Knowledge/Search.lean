/-
LendingClaw.Knowledge.Search — the search in the knowledge bases of a
workspace (`internal/tools/knowledge/search_knowledge.go`, with
`SearchKnowledgeIn` of `internal/services/qdrant/client.go`).

Each collection answers with its own best points, and the tool ranks what
it got. What it shows are the best points of all collections that
answered (`knowledge_found`): a collection that several bases share is
searched once, one that fails is passed over, and none of another
workspace is asked.

Scores are of any linear order, and so without NaN. How a score is
printed and how a content is cut at 2000 bytes are parameters; numbers
from 2^63 on are left out, and of a payload the fields that are no texts.
-/
import LendingClaw.Knowledge.Store
import LendingClaw.Lib.Ranking
import LendingClaw.Tools.Types
import Mathlib.Data.Rat.Floor

namespace LendingClaw.Knowledge

open LendingClaw.Lib LendingClaw.Store LendingClaw.Tools

/-! ## The client -/

structure KBSearchResult (R : Type) where
  title : String
  category : String
  source : String
  url : String
  docLink : String
  content : String
  score : R

/-- An element of Qdrant's answer. -/
structure Hit (R : Type) where
  score : R
  payload : List (String × String)

section
variable {ν R : Type}

/-- A text of the payload. -/
def Hit.text (r : Hit R) (field : String) : String := (r.payload.lookup field).getD ""

def Hit.result (r : Hit R) : KBSearchResult R :=
  { title := r.text "title"
    category := r.text "category"
    source := r.text "source"
    url := r.text "url"
    docLink := r.text "doc_link"
    content := if r.text "content" = "" then r.text "document" else r.text "content"
    score := r.score }

/-- `QdrantClient`: its settings, the embedding provider, and the search
request, for a collection, a vector, a limit and a threshold. -/
structure QdrantClient (ν R : Type) where
  collection : String
  scoreThreshold : Option R
  translate : Option (String → String)
  embed : List String → Except String (List ν)
  noVector : ν → Bool
  search : String → ν → Nat → Option R → Except String (List (Hit R))

namespace QdrantClient

/-- The vector of a query. -/
def queryVector (c : QdrantClient ν R) (query : String) : Except String ν :=
  let query := match c.translate with
    | some translate => translate query
    | none => query
  match c.embed [query] with
  | .error err => .error ("embed query: " ++ err)
  | .ok [] => .error "empty embedding returned"
  | .ok (v :: _) => if c.noVector v then .error "empty embedding returned" else .ok v

def searchKnowledgeIn (c : QdrantClient ν R) (collection query : String) (maxResults : Nat) :
    Except String (List (KBSearchResult R)) :=
  let collection := if collection = "" then c.collection else collection
  let maxResults := if maxResults = 0 then 5 else maxResults
  match c.queryVector query with
  | .error err => .error err
  | .ok v =>
    match c.search collection v maxResults c.scoreThreshold with
    | .error err => .error err
    | .ok result => .ok (result.map Hit.result)

end QdrantClient

/-! ## The tool -/

/-- `MySQLKnowledgeStore.List`; `byName` is the `ORDER BY`. -/
def KnowledgeTable.list (t : KnowledgeTable) (w : WorkspaceID)
    (byName : List KnowledgeBase → List KnowledgeBase) (query : Fault) : Except String (List KnowledgeBase) :=
  match query with
  | some err => .error ("list knowledge bases: " ++ err)
  | none => .ok (byName (t.select fun kb => decide (kb.workspaceID = w)))

/-- The loop over the bases, with the collections that were seen. -/
def mergeCollections (c : QdrantClient ν R) (query : String) (maxResults : Nat) :
    (seen : List String) → List KnowledgeBase → List (KBSearchResult R)
  | _, [] => []
  | seen, kb :: kbs =>
    if kb.collection = "" ∨ kb.collection ∈ seen then mergeCollections c query maxResults seen kbs
    else
      match c.searchKnowledgeIn kb.collection query maxResults with
      | .error _ => mergeCollections c query maxResults (kb.collection :: seen) kbs
      | .ok res => res ++ mergeCollections c query maxResults (kb.collection :: seen) kbs

/-- `SearchKnowledgeTool.search`, for what `List` gives; none without a
store. -/
def searchTool [LinearOrder R] (c : QdrantClient ν R) (knowledge : Option (Except String (List KnowledgeBase)))
    (query : String) (maxResults : Nat) : Except String (List (KBSearchResult R)) :=
  match knowledge with
  | none => c.searchKnowledgeIn c.collection query maxResults
  | some (.error err) => .error ("list knowledge bases: " ++ err)
  | some (.ok kbs) =>
    .ok ((rank KBSearchResult.score (mergeCollections c query maxResults [] kbs)).take maxResults)

/-- The argument `max_results`. -/
def resultLimit (maxResults : Option Rat) : Nat :=
  match maxResults with
  | none => 5
  | some v => if v > 0 then min v.floor.toNat 10 else 5

/-- How `%.2f` prints a score, and `content[:2000]`. -/
structure Printing (R : Type) where
  score : R → String
  cut : String → String

/-- A line for a field that is not empty. -/
def fieldLine (label text : String) : String := if text ≠ "" then "**" ++ label ++ ":** " ++ text ++ "\n" else ""

def KBSearchResult.show (print : Printing R) (r : KBSearchResult R) (i : Nat) : String :=
  "---\n### Result " ++ toString (i + 1) ++ " (relevance: " ++ print.score r.score ++ ")\n"
    ++ fieldLine "Title" r.title ++ fieldLine "Category" r.category ++ fieldLine "Source" r.source
    ++ fieldLine "URL" r.url ++ fieldLine "Document Link" r.docLink
    ++ if r.content ≠ "" then
        "\n" ++ (if r.content.utf8ByteSize > 2000 then print.cut r.content ++ "... [truncated]" else r.content)
          ++ "\n\n"
      else ""

def showResults (print : Printing R) (results : List (KBSearchResult R)) : String :=
  "Found " ++ toString results.length ++ " relevant knowledge base document(s):\n\n"
    ++ String.join (results.zipIdx.map fun (r, i) => r.show print i)

/-- `SearchKnowledgeTool.Execute`. -/
def searchKnowledge [LinearOrder R] (c : QdrantClient ν R) (print : Printing R)
    (knowledge : Option (Except String (List KnowledgeBase))) (query : String) (maxResults : Option Rat) :
    Result :=
  if query = "" then errorResult "query is required"
  else
    match searchTool c knowledge query (resultLimit maxResults) with
    | .error err => errorResult ("Knowledge base search failed: " ++ err)
    | .ok [] => newResult "No relevant knowledge base documents found for the given query."
    | .ok results => newResult (showResults print results)

/-! ## What is found -/

/-- The points of the collections, with their scores for a vector. -/
abbrev Points (ν R : Type) := String → ν → List (Hit R)

variable [LinearOrder R]

/-- The points that a search may give. -/
def relevant (c : QdrantClient ν R) (points : Points ν R) (v : ν) (collection : String) :
    List (KBSearchResult R) :=
  ((points collection v).filter fun r => decide (∀ least ∈ c.scoreThreshold, least ≤ r.score)).map Hit.result

/-- The documented behaviour of a search: the nearest points, at most so
many, in order, and none below the threshold. -/
def Nearest (c : QdrantClient ν R) (points : Points ν R) : Prop :=
  ∀ collection v limit threshold result, c.search collection v limit threshold = .ok result →
    Best Hit.score limit
      ((points collection v).filter fun r => decide (∀ least ∈ threshold, least ≤ r.score)) result

/-- A collection of a base of the workspace. -/
def CollectionOf (t : KnowledgeTable) (w : WorkspaceID) (collection : String) : Prop :=
  collection ≠ "" ∧ ∃ kb ∈ t.rows, kb.workspaceID = w ∧ kb.collection = collection

/-- The results for a query. -/
structure Found (c : QdrantClient ν R) (points : Points ν R) (t : KnowledgeTable) (w : WorkspaceID)
    (query : String) (maxResults : Nat) (results : List (KBSearchResult R)) : Prop where
  /-- Without a vector nothing is found, and nothing is said of it. -/
  noVector : ∀ err, c.queryVector query = .error err → results = []
  /-- The best of the collections that answered, each taken once. -/
  best : ∀ v, c.queryVector query = .ok v → ∃ collections : List String,
    collections.Nodup
      ∧ (∀ collection, collection ∈ collections ↔ CollectionOf t w collection
        ∧ ∃ res, c.searchKnowledgeIn collection query maxResults = .ok res)
      ∧ Best KBSearchResult.score maxResults (collections.flatMap (relevant c points v)) results

section
variable {c : QdrantClient ν R} {points : Points ν R} {query : String} {v : ν} {maxResults : Nat}

omit [LinearOrder R] in
/-- Without a vector every search fails. -/
theorem mergeCollections_error {err : String} (hv : c.queryVector query = .error err)
    (seen : List String) (kbs : List KnowledgeBase) : mergeCollections c query maxResults seen kbs = [] := by
  have hfails : ∀ collection, c.searchKnowledgeIn collection query maxResults = .error err := by
    intro collection
    simp [QdrantClient.searchKnowledgeIn, hv]
  induction kbs generalizing seen with
  | nil => rfl
  | cons kb kbs ih => simp [mergeCollections, hfails, ih]

theorem searchKnowledgeIn_best (hnearest : Nearest c points) (hv : c.queryVector query = .ok v)
    {collection : String} (hcollection : collection ≠ "") {res : List (KBSearchResult R)}
    (h : c.searchKnowledgeIn collection query maxResults = .ok res) :
    Best KBSearchResult.score (if maxResults = 0 then 5 else maxResults) (relevant c points v collection)
      res := by
  unfold QdrantClient.searchKnowledgeIn at h
  simp only [hcollection, if_false, hv] at h
  cases hsearch : c.search collection v (if maxResults = 0 then 5 else maxResults) c.scoreThreshold with
  | error err =>
    rw [hsearch] at h
    cases h
  | ok result =>
    rw [hsearch] at h
    cases h
    exact Best.map (f := Hit.result) (fun _ => rfl) (hnearest _ _ _ _ _ hsearch)

/-- The loop asks every collection once, but for those seen before. -/
theorem mergeCollections_best (maxResults : Nat) (hnearest : Nearest c points) (hv : c.queryVector query = .ok v)
    (seen : List String) (kbs : List KnowledgeBase) :
    ∃ collections : List String, ∃ tops, collections.Nodup
      ∧ (∀ collection, collection ∈ collections ↔ collection ∉ seen ∧ collection ≠ ""
        ∧ (∃ kb ∈ kbs, kb.collection = collection)
        ∧ ∃ res, c.searchKnowledgeIn collection query maxResults = .ok res)
      ∧ mergeCollections c query maxResults seen kbs = tops.flatten
      ∧ List.Forall₂ (Best KBSearchResult.score (if maxResults = 0 then 5 else maxResults))
        (collections.map (relevant c points v)) tops := by
  induction kbs generalizing seen with
  | nil => exact ⟨[], [], List.nodup_nil, by simp, rfl, .nil⟩
  | cons kb kbs ih =>
    by_cases hskip : kb.collection = "" ∨ kb.collection ∈ seen
    · obtain ⟨collections, tops, hnodup, hmem, hmerge, hbest⟩ := ih seen
      refine ⟨collections, tops, hnodup, fun collection => ?_, by simp [mergeCollections, hskip, hmerge], hbest⟩
      rw [hmem]
      constructor
      · rintro ⟨hseen, hne, ⟨kb', hkb', hcoll⟩, hanswer⟩
        exact ⟨hseen, hne, ⟨kb', List.mem_cons_of_mem _ hkb', hcoll⟩, hanswer⟩
      · rintro ⟨hseen, hne, ⟨kb', hkb', rfl⟩, hanswer⟩
        refine ⟨hseen, hne, ⟨kb', ?_, rfl⟩, hanswer⟩
        rcases List.mem_cons.mp hkb' with rfl | hkb'
        · rcases hskip with hempty | hmem
          · exact absurd hempty hne
          · exact absurd hmem hseen
        · exact hkb'
    · obtain ⟨hne, hseen⟩ := not_or.mp hskip
      obtain ⟨collections, tops, hnodup, hmem, hmerge, hbest⟩ := ih (kb.collection :: seen)
      have hfresh : kb.collection ∉ collections := fun h => ((hmem _).mp h).1 List.mem_cons_self
      have hlater : ∀ collection, collection ≠ kb.collection → (collection ∈ collections
          ↔ collection ∉ seen ∧ collection ≠ "" ∧ (∃ kb' ∈ kb :: kbs, kb'.collection = collection)
            ∧ ∃ res, c.searchKnowledgeIn collection query maxResults = .ok res) := by
        intro collection hother
        simp [hmem, hother, Ne.symm hother]
      cases hanswer : c.searchKnowledgeIn kb.collection query maxResults with
      | error err =>
        refine ⟨collections, tops, hnodup, fun collection => ?_, ?_, hbest⟩
        · by_cases hother : collection = kb.collection
          · simp [hother, hfresh, hanswer]
          · exact hlater collection hother
        · simp [mergeCollections, hskip, hanswer, hmerge]
      | ok res =>
        refine ⟨kb.collection :: collections, res :: tops, List.nodup_cons.mpr ⟨hfresh, hnodup⟩,
          fun collection => ?_, ?_, .cons (searchKnowledgeIn_best hnearest hv hne hanswer) hbest⟩
        · by_cases hother : collection = kb.collection
          · simp [hother, hne, hseen, hanswer]
          · rw [List.mem_cons, or_iff_right hother]
            exact hlater collection hother
        · simp [mergeCollections, hskip, hanswer, hmerge]

end

/-- The bases are those of the workspace. -/
theorem mem_list {t : KnowledgeTable} {w : WorkspaceID} {byName : List KnowledgeBase → List KnowledgeBase}
    (hbyName : ∀ l, (byName l).Perm l) {kb : KnowledgeBase} :
    kb ∈ byName (t.select fun kb => decide (kb.workspaceID = w)) ↔ kb ∈ t.rows ∧ kb.workspaceID = w := by
  rw [(hbyName _).mem_iff]
  simp [Table.select]

/-- What the tool takes of the merged results. -/
theorem found_merge {c : QdrantClient ν R} {points : Points ν R} (hnearest : Nearest c points)
    (t : KnowledgeTable) (w : WorkspaceID) {byName : List KnowledgeBase → List KnowledgeBase}
    (hbyName : ∀ l, (byName l).Perm l) (query : String) (maxResults : Nat) :
    Found c points t w query maxResults
      ((rank KBSearchResult.score (mergeCollections c query maxResults []
        (byName (t.select fun kb => decide (kb.workspaceID = w))))).take maxResults) where
  noVector err herr := by simp [mergeCollections_error herr, rank]
  best v hv := by
    obtain ⟨collections, tops, hnodup, hmem, hmerge, hbest⟩ :=
      mergeCollections_best maxResults hnearest hv []
        (byName (t.select fun kb => decide (kb.workspaceID = w)))
    refine ⟨collections, hnodup, fun collection => ?_, ?_⟩
    · simp [hmem, CollectionOf, mem_list hbyName, and_assoc]
    · by_cases hzero : maxResults = 0
      · rw [hzero, List.take_zero]
        exact best_zero _
      · rw [if_neg hzero] at hbest
        rw [hmerge, List.flatMap_def]
        exact best_merge hbest

end

/-! ## Two collections -/

/-- Two guides of a workspace that share its collection, and a base whose
collection was never filled. -/
def guides : KnowledgeTable :=
  { rows :=
      [{ id := "k1", name := "Consent", collection := "lending" },
       { id := "k2", name := "Credit", collection := "lending" },
       { id := "k3", name := "Archive", collection := "archive" }]
    unique := by decide }

def guidePoints : Points Unit Nat := fun collection _ =>
  if collection = "lending" then [⟨7, [("title", "Consent")]⟩, ⟨9, [("title", "Credit")]⟩, ⟨4, []⟩] else []

/-- A client that ranks the points of the one collection there is. -/
def guideClient : QdrantClient Unit Nat :=
  { collection := "kb"
    scoreThreshold := some 5
    translate := none
    embed := fun texts => .ok (texts.map fun _ => ())
    noVector := fun _ => false
    search := fun collection v limit threshold =>
      if collection = "lending" then
        .ok ((rank Hit.score ((guidePoints collection v).filter fun r =>
          decide (∀ least ∈ threshold, least ≤ r.score))).take limit)
      else .error "404" }

theorem guideClient_nearest : Nearest guideClient guidePoints := by
  intro collection v limit threshold result h
  by_cases hcollection : collection = "lending"
  · simp only [guideClient, hcollection, if_true] at h
    cases h
    rw [hcollection]
    exact best_rank limit _
  · simp [guideClient, hcollection] at h

end LendingClaw.Knowledge
