/-
LendingClaw.Http.Collections — the vector collections of workspaces:
the slug that `WorkspacesHandler.Create` gives a workspace
(`internal/transport/http/handler/workspaces.go`, with
`internal/store/mysql/workspaces.go`), the two collection names that are
derived from it (`WorkspaceCollectionName` of `internal/memory/manager.go`
and of `handler/knowledge.go`), and the URLs that Qdrant is called with
(`memory/manager.go`, `services/qdrant/client.go`).

The table keeps slugs apart. The names replace '-' by '_', and the URLs
take them as they are: `collections_isolated_iff` says which creations
keep the collections apart as well. `toLower` is `strings.ToLower`, and
`sameText` is what the collation of the table calls equal.
-/
import LendingClaw.Lib.Paths
import LendingClaw.Lib.Runs
import LendingClaw.Lib.Strings
import LendingClaw.Store.Workspace

namespace LendingClaw.Http

open LendingClaw.Store

/-! ## Slugs -/

/-- A character that `slugRe` leaves alone. -/
def slugChar (c : Char) : Bool := ('a' ≤ c && c ≤ 'z') || ('0' ≤ c && c ≤ '9')

/-- `slugRe.ReplaceAllString(s, "-")`: a dash for every run of other
characters; `inRun` inside one. -/
def dashRuns : List Char → (inRun : Bool) → List Char
  | [], _ => []
  | c :: cs, inRun =>
    if slugChar c then c :: dashRuns cs false
    else if inRun then dashRuns cs true
    else '-' :: dashRuns cs true

/-- `strings.Trim(s, "-")`. -/
def trimDashes (cs : List Char) : List Char :=
  (cs.dropWhile (fun c => c = '-')).rdropWhile (fun c => c = '-')

def slugify (toLower : String → String) (name : String) : String :=
  let s := trimDashes (dashRuns (toLower name).toList false)
  if s = [] then "workspace" else String.ofList s

theorem mem_dashRuns {cs : List Char} {inRun : Bool} {c : Char} (h : c ∈ dashRuns cs inRun) :
    slugChar c = true ∨ c = '-' := by
  induction cs generalizing inRun with
  | nil => cases h
  | cons d cs ih =>
    unfold dashRuns at h
    split at h
    · rename_i hd
      rcases List.mem_cons.mp h with rfl | h
      · exact Or.inl hd
      · exact ih h
    · split at h
      · exact ih h
      · rcases List.mem_cons.mp h with rfl | h
        · exact Or.inr rfl
        · exact ih h

theorem mem_trimDashes {cs : List Char} {c : Char} (h : c ∈ trimDashes cs) : c ∈ cs := by
  have hback := (List.rdropWhile_prefix (fun c => decide (c = '-'))
    (l := cs.dropWhile (fun c => c = '-'))).subset h
  exact (List.dropWhile_suffix _).subset hback

theorem plainChar_of_slugChar {c : Char} (h : slugChar c = true ∨ c = '-') :
    Lib.plainChar c = true := by
  rcases h with h | rfl
  · have hrange : 97 ≤ c.toNat ∧ c.toNat ≤ 122 ∨ 48 ≤ c.toNat ∧ c.toNat ≤ 57 := by
      simpa [slugChar, Char.le_def, UInt32.le_iff_toNat_le] using h
    refine Lib.plainChar_iff.mpr ⟨?_, ?_, ?_, ?_, ?_⟩
    · rintro rfl
      revert hrange
      decide
    · rintro rfl
      revert hrange
      decide
    · rintro rfl
      revert hrange
      decide
    · rintro rfl
      revert hrange
      decide
    · simp only [Lib.isCTL, Bool.or_eq_false_iff, decide_eq_false_iff_not, beq_eq_false_iff_ne]
      omega
  · decide

/-- A slug of characters that stand for themselves in a URL path. -/
def PlainSlug (slug : String) : Prop := ∀ c ∈ slug.toList, Lib.plainChar c = true

instance (slug : String) : Decidable (PlainSlug slug) :=
  decidable_of_iff (slug.toList.all Lib.plainChar = true) List.all_eq_true

theorem plainSlug_append {a b : String} : PlainSlug (a ++ b) ↔ PlainSlug a ∧ PlainSlug b := by
  unfold PlainSlug
  rw [String.toList_append, List.forall_mem_append]

/-- What the handler makes of a name never needs escaping. -/
theorem slugify_plain (toLower : String → String) (name : String) :
    PlainSlug (slugify toLower name) := by
  intro c hc
  unfold slugify at hc
  dsimp only at hc
  split at hc
  · exact (show PlainSlug "workspace" by decide) c hc
  · rw [String.toList_ofList] at hc
    exact plainChar_of_slugChar (mem_dashRuns (mem_trimDashes hc))

/-! ## The workspaces table -/

structure WorkspaceRow where
  id : WorkspaceID
  slug : String

/-- The row that the migration seeds. -/
def defaultRow : WorkspaceRow := { id := defaultWorkspaceID, slug := "default" }

/-- `uuid.New().String()[:8]`. -/
structure ShortID where
  val : String
  hex : ∀ c ∈ val.toList, ('0' ≤ c ∧ c ≤ '9') ∨ ('a' ≤ c ∧ c ≤ 'f')

/-- A request of `Create`: the user, the body, the two ids it draws, and
the faults of `store.Get` and of the `INSERT`. -/
structure CreateRequest where
  claims : Option String
  body : Option (String × String)
  id : WorkspaceID
  suffix : ShortID
  get : Fault := none
  insert : Fault := none

section
variable (toLower : String → String) (sameText : String → String → Bool)

/-- `store.Get`, by id or slug. -/
def getWorkspace (rows : List WorkspaceRow) (idOrSlug : String) : Option WorkspaceRow :=
  rows.find? (fun row => sameText row.id.val idOrSlug || sameText row.slug idOrSlug)

/-- The slug of a new workspace, with the suffix on collision. -/
def newSlug (rows : List WorkspaceRow) (name slug : String) (suffix : ShortID) (get : Fault) :
    String :=
  let slug := if slug = "" then slugify toLower name else slug
  match get, getWorkspace sameText rows slug with
  | none, some _ => slug ++ "-" ++ suffix.val
  | _, _ => slug

/-- The row that `WorkspacesHandler.Create` inserts, if it does: not
without a user, a body and a name, and not when the `INSERT` fails, as it
does on an id or slug that is there. -/
def insertedRow (rows : List WorkspaceRow) (r : CreateRequest) : Option WorkspaceRow :=
  match r.claims, r.body with
  | some _, some (name, slug) =>
    if Lib.trimSpace name = "" then none
    else
      let row : WorkspaceRow :=
        { id := r.id, slug := newSlug toLower sameText rows name slug r.suffix r.get }
      if r.insert.isSome ∨ rows.any (fun old =>
          sameText old.id.val row.id.val || sameText old.slug row.slug) then none
      else some row
  | _, _ => none

/-- `WorkspacesHandler.Create`, for the table. What it does to members
and roles is `Membership.create`. -/
def createWorkspace (rows : List WorkspaceRow) (r : CreateRequest) : List WorkspaceRow :=
  match insertedRow toLower sameText rows r with
  | some row => rows ++ [row]
  | none => rows

end

/-! ## Collection names -/

/-- `strings.ReplaceAll(slug, "-", "_")`. -/
def underscored (slug : String) : String :=
  String.ofList (slug.toList.map (fun c => if c = '-' then '_' else c))

/-- `memory.WorkspaceCollectionName`. -/
def memoryCollectionName (slug : String) : String :=
  "lending_memory_workspace_" ++ underscored slug

/-- `handler.WorkspaceCollectionName`. -/
def knowledgeCollectionName (slug : String) : String :=
  "lending_agent_workspace_" ++ underscored slug

theorem memoryCollectionName_inj {a b : String} :
    memoryCollectionName a = memoryCollectionName b ↔ underscored a = underscored b := by
  unfold memoryCollectionName
  exact String.append_right_inj _

theorem knowledgeCollectionName_inj {a b : String} :
    knowledgeCollectionName a = knowledgeCollectionName b ↔ underscored a = underscored b := by
  unfold knowledgeCollectionName
  exact String.append_right_inj _

/-- The two prefixes differ at their ninth character. -/
theorem memory_ne_knowledge (a b : String) :
    memoryCollectionName a ≠ knowledgeCollectionName b := by
  intro h
  unfold memoryCollectionName knowledgeCollectionName at h
  have hlist := congrArg String.toList h
  rw [String.toList_append, String.toList_append] at hlist
  have hninth := congrArg (fun cs : List Char => cs[8]?) hlist
  have hm : 8 < "lending_memory_workspace_".toList.length := by decide
  have hk : 8 < "lending_agent_workspace_".toList.length := by decide
  rw [List.getElem?_append_left hm, List.getElem?_append_left hk] at hninth
  revert hninth
  decide

theorem mem_underscored {slug : String} {c : Char} :
    c ∈ (underscored slug).toList ↔ c ≠ '-' ∧ c ∈ slug.toList ∨ c = '_' ∧ '-' ∈ slug.toList := by
  simp only [underscored, String.toList_ofList, List.mem_map]
  constructor
  · rintro ⟨d, hd, rfl⟩
    split
    · rename_i hdash
      exact Or.inr ⟨rfl, hdash ▸ hd⟩
    · rename_i hdash
      exact Or.inl ⟨hdash, hd⟩
  · rintro (⟨hc, hmem⟩ | ⟨rfl, hmem⟩)
    · exact ⟨c, hmem, if_neg hc⟩
    · exact ⟨'-', hmem, rfl⟩

theorem underscored_plain {slug : String} : PlainSlug (underscored slug) ↔ PlainSlug slug := by
  constructor
  · intro h c hc
    by_cases hdash : c = '-'
    · subst hdash
      decide
    · exact h c (mem_underscored.mpr (Or.inl ⟨hdash, hc⟩))
  · intro h c hc
    rcases mem_underscored.mp hc with ⟨-, hmem⟩ | ⟨rfl, -⟩
    · exact h c hmem
    · decide

/-! ## Requests to Qdrant -/

/-- The calls that name a collection. -/
inductive QdrantCall where
  | collection
  | index
  | search
  | deletePoints
  | upsertPoints

/-- What follows the name. -/
def QdrantCall.tail : QdrantCall → String
  | .collection => ""
  | .index => "/index?wait=true"
  | .search => "/points/search"
  | .deletePoints => "/points/delete?wait=true"
  | .upsertPoints => "/points?wait=true"

/-- The segments of the operation. -/
def QdrantCall.operation : QdrantCall → List String
  | .collection => []
  | .index => ["index"]
  | .search => ["points", "search"]
  | .deletePoints => ["points", "delete"]
  | .upsertPoints => ["points"]

/-- The URL of a call, after the host. -/
def QdrantCall.url (call : QdrantCall) (collection : String) : String :=
  "/collections/" ++ collection ++ call.tail

/-- Every call on a collection reaches that collection, with its own
operation. -/
def OneSegment (collection : String) : Prop :=
  ∀ call : QdrantCall, Lib.urlSegments (call.url collection).toList
    = some (("collections" :: collection :: call.operation).map String.toList)

theorem oneSegment_iff (collection : String) : OneSegment collection ↔ PlainSlug collection := by
  have hfirst : PlainSlug "collections" := by decide
  constructor
  · intro h
    apply Lib.plain_of_urlSegments hfirst
    have hurl := h .collection
    simpa [QdrantCall.url, QdrantCall.tail, QdrantCall.operation] using hurl
  · intro hplain call
    have hsegs : ∀ s ∈ ("collections" :: collection :: call.operation).map String.toList,
        ∀ c ∈ s, Lib.plainChar c = true := by
      have hop : ∀ s ∈ call.operation, PlainSlug s := by
        cases call with
        | _ => decide
      simp only [List.map_cons, List.forall_mem_cons, List.forall_mem_map]
      exact ⟨hfirst, hplain, hop⟩
    have hjoin (query : String)
        (hq : query.toList.all (fun c => c ≠ '#' ∧ Lib.isCTL c = false) = true)
        (hcut : query.toList = [] ∨ ∃ q, query.toList = '?' :: q)
        (hurl : (call.url collection).toList = '/' :: Lib.joinSegments
          (("collections" :: collection :: call.operation).map String.toList) ++ query.toList) :
        Lib.urlSegments (call.url collection).toList
          = some (("collections" :: collection :: call.operation).map String.toList) := by
      rw [hurl]
      exact Lib.urlSegments_join (by simp) hsegs (Lib.forall_mem_of_all hq) hcut
    cases call with
    | collection | search =>
      apply hjoin "" (by decide) (Or.inl rfl)
      simp [QdrantCall.url, QdrantCall.tail, QdrantCall.operation, Lib.joinSegments,
        List.intercalate_cons_cons]
    | index | deletePoints | upsertPoints =>
      apply hjoin "?wait=true" (by decide) (Or.inr ⟨_, rfl⟩)
      simp [QdrantCall.url, QdrantCall.tail, QdrantCall.operation, Lib.joinSegments,
        List.intercalate_cons_cons]

/-! ## Isolation -/

/-- No two workspaces share a collection, and every call for a workspace
reaches its collections only. -/
structure Isolated (rows : List WorkspaceRow) : Prop where
  memory : rows.Pairwise (fun a b => memoryCollectionName a.slug ≠ memoryCollectionName b.slug)
  knowledge :
    rows.Pairwise (fun a b => knowledgeCollectionName a.slug ≠ knowledgeCollectionName b.slug)
  apart : ∀ a ∈ rows, ∀ b ∈ rows, memoryCollectionName a.slug ≠ knowledgeCollectionName b.slug
  requests : ∀ row ∈ rows, OneSegment (memoryCollectionName row.slug)
    ∧ OneSegment (knowledgeCollectionName row.slug)

theorem oneSegment_memory {slug : String} :
    OneSegment (memoryCollectionName slug) ↔ PlainSlug slug := by
  have hpre : PlainSlug "lending_memory_workspace_" := by decide
  rw [oneSegment_iff]
  unfold memoryCollectionName
  exact plainSlug_append.trans
    ⟨fun h => underscored_plain.mp h.2, fun h => ⟨hpre, underscored_plain.mpr h⟩⟩

theorem oneSegment_knowledge {slug : String} :
    OneSegment (knowledgeCollectionName slug) ↔ PlainSlug slug := by
  have hpre : PlainSlug "lending_agent_workspace_" := by decide
  rw [oneSegment_iff]
  unfold knowledgeCollectionName
  exact plainSlug_append.trans
    ⟨fun h => underscored_plain.mp h.2, fun h => ⟨hpre, underscored_plain.mpr h⟩⟩

/-- Isolation, read off the slugs. -/
theorem isolated_iff (rows : List WorkspaceRow) :
    Isolated rows ↔ rows.Pairwise (fun a b => underscored a.slug ≠ underscored b.slug)
      ∧ ∀ row ∈ rows, PlainSlug row.slug := by
  constructor
  · intro h
    refine ⟨h.memory.imp ?_, fun row hrow => oneSegment_memory.mp (h.requests row hrow).1⟩
    intro a b hne heq
    exact hne (memoryCollectionName_inj.mpr heq)
  · rintro ⟨hpair, hplain⟩
    refine ⟨hpair.imp ?_, hpair.imp ?_, fun a _ b _ => memory_ne_knowledge a.slug b.slug,
      fun row hrow => ⟨oneSegment_memory.mpr (hplain row hrow),
        oneSegment_knowledge.mpr (hplain row hrow)⟩⟩
    · intro a b hne heq
      exact hne (memoryCollectionName_inj.mp heq)
    · intro a b hne heq
      exact hne (knowledgeCollectionName_inj.mp heq)

theorem isolated_snoc {rows : List WorkspaceRow} {row : WorkspaceRow} :
    Isolated (rows ++ [row]) ↔ Isolated rows ∧ PlainSlug row.slug
      ∧ ∀ old ∈ rows, underscored old.slug ≠ underscored row.slug := by
  simp only [isolated_iff, List.pairwise_append, List.pairwise_singleton, List.mem_append,
    List.mem_singleton, forall_eq, true_and, or_imp, forall_and]
  tauto

theorem isolated_default : Isolated [defaultRow] := by
  rw [isolated_iff]
  refine ⟨List.pairwise_singleton _ _, ?_⟩
  intro row hrow
  rw [List.mem_singleton.mp hrow]
  decide

section
variable (toLower : String → String) (sameText : String → String → Bool)

theorem suffix_plain (suffix : ShortID) : PlainSlug suffix.val := by
  intro c hc
  apply plainChar_of_slugChar
  left
  rcases suffix.hex c hc with ⟨h₀, h₉⟩ | ⟨ha, hf⟩
  · simp [slugChar, h₀, h₉]
  · have hz : 'f' ≤ 'z' := by decide
    simp [slugChar, ha, Char.le_trans hf hz]

/-- The handler adds plain characters to the slug of the client. -/
theorem newSlug_plain (rows : List WorkspaceRow) (name slug : String) (suffix : ShortID)
    (get : Fault) :
    PlainSlug (newSlug toLower sameText rows name slug suffix get) ↔ PlainSlug slug := by
  have hbase : PlainSlug (if slug = "" then slugify toLower name else slug) ↔ PlainSlug slug := by
    split
    · rename_i h
      subst h
      refine ⟨fun _ => ?_, fun _ => slugify_plain toLower name⟩
      intro c hc
      cases hc
    · rfl
  have hdash : PlainSlug "-" := by decide
  rw [← hbase]
  unfold newSlug
  dsimp only
  split
  · rw [plainSlug_append, plainSlug_append]
    exact ⟨fun h => h.1.1, fun h => ⟨⟨h, hdash⟩, suffix_plain suffix⟩⟩
  · rfl

/-- A creation that keeps collections apart: if it inserts a row, the
slug of the client needs no escaping, and no slug of the table becomes
the new one where '-' and '_' are the same. -/
def Admits (rows : List WorkspaceRow) (r : CreateRequest) : Prop :=
  ∀ row, insertedRow toLower sameText rows r = some row →
    (∀ name slug, r.body = some (name, slug) → PlainSlug slug)
      ∧ ∀ old ∈ rows, underscored old.slug ≠ underscored row.slug

/-- Where an inserted row has its slug from. -/
theorem insertedRow_slug {rows : List WorkspaceRow} {r : CreateRequest} {row : WorkspaceRow}
    (h : insertedRow toLower sameText rows r = some row) :
    ∃ name slug, r.body = some (name, slug)
      ∧ row.slug = newSlug toLower sameText rows name slug r.suffix r.get := by
  unfold insertedRow at h
  split at h
  · rename_i name slug _ hbody
    split at h
    · cases h
    · dsimp only at h
      split at h
      · cases h
      · cases h
        exact ⟨_, _, hbody, rfl⟩
  · cases h

theorem createWorkspace_isolated_iff {rows : List WorkspaceRow} (hrows : Isolated rows)
    (r : CreateRequest) :
    Isolated (createWorkspace toLower sameText rows r) ↔ Admits toLower sameText rows r := by
  unfold createWorkspace Admits
  cases hins : insertedRow toLower sameText rows r with
  | none => simp [hrows]
  | some row =>
    obtain ⟨name, slug, hbody, hslug⟩ := insertedRow_slug toLower sameText hins
    have hplain : PlainSlug row.slug ↔ PlainSlug slug := by
      rw [hslug]
      exact newSlug_plain toLower sameText rows name slug r.suffix r.get
    simp [isolated_snoc, hrows, hplain, hbody]

/-- The collections of workspaces stay apart, in every sequence of
creations, exactly when each creation admits it. -/
theorem collections_isolated_iff (rs : List CreateRequest) :
    Lib.Always Isolated (createWorkspace toLower sameText) [defaultRow] rs
      ↔ Lib.Along (Admits toLower sameText) (createWorkspace toLower sameText) [defaultRow] rs := by
  have hstep : ∀ rows r, Isolated rows → Admits toLower sameText rows r →
      Isolated (createWorkspace toLower sameText rows r) := fun rows r hrows hr =>
    (createWorkspace_isolated_iff toLower sameText hrows r).mpr hr
  have hbad : ∀ rows r, Isolated rows → ¬ Admits toLower sameText rows r →
      ¬ Isolated (createWorkspace toLower sameText rows r) := fun rows r hrows hr h =>
    hr ((createWorkspace_isolated_iff toLower sameText hrows r).mp h)
  exact Lib.always_iff_along hstep (fun _ h => h) hbad rs [defaultRow] isolated_default

end

/-! ## Two teams, one collection -/

def teamRequest (id : WorkspaceID) (slug : String) : CreateRequest :=
  { claims := some "alice"
    body := some ("Team A", slug)
    id := id
    suffix := { val := "00000000", hex := Lib.forall_mem_of_all (by decide) } }

def dashedTeam : WorkspaceID :=
  ⟨"11111111-1111-1111-1111-111111111111", by decide, by decide, by decide⟩

def underscoredTeam : WorkspaceID :=
  ⟨"22222222-2222-2222-2222-222222222222", by decide, by decide, by decide⟩

/-- The slugs "team-a" and "team_a" differ, and both workspaces keep
their memory in lending_memory_workspace_team_a. -/
theorem team_slugs_share_collection :
    ¬ Lib.Always Isolated (createWorkspace id (fun a b => a == b)) [defaultRow]
        [teamRequest dashedTeam "team-a", teamRequest underscoredTeam "team_a"] := by
  intro h
  have hlast := h.last
  have hrows : Lib.run (createWorkspace id (fun a b => a == b)) [defaultRow]
      [teamRequest dashedTeam "team-a", teamRequest underscoredTeam "team_a"]
      = [defaultRow, { id := dashedTeam, slug := "team-a" },
          { id := underscoredTeam, slug := "team_a" }] := by
    rfl
  rw [hrows] at hlast
  have hpair := ((isolated_iff _).mp hlast).1
  simp only [List.pairwise_cons, List.mem_cons] at hpair
  exact hpair.2.1 _ (Or.inl rfl) (by decide)

end LendingClaw.Http
