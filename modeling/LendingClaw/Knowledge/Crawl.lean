/-
LendingClaw.Knowledge.Crawl — the pages that a sync of a Confluence space
finds (`internal/services/confluence/client.go`, and the first steps of
`ConfluenceIndexer.Index` in `indexer.go`).

The children of a page come in lists of a hundred, each list with a link
to the next; a child is fetched again, and its own children after it. A
page that cannot be fetched is passed over with all that is below it, and
where a list fails, so are all the children. On a site whose pages have
one parent each, the crawl ends and finds the other pages once each, in
the order of the site (`Crawled`). The sync builds the index from them,
and is done (`crawl_indexed`).

The two loops have a bound for the requests and one for the depth. The
HTTP client is a parameter, and so are the decoders of its answers.
-/
import LendingClaw.Knowledge.SyncTheorems
import LendingClaw.Lib.Forest

namespace LendingClaw.Knowledge

/-! ## The client -/

/-- What is decoded of a page. -/
structure PageJson where
  id : String
  title : String
  body : String
  spaceKey : String
  labels : List String
  base : String
  webui : String

/-- What is decoded of a list of children. -/
structure ChildrenJson (β : Type) where
  results : List β
  next : String

/-- `parsePage`, after the decoder. -/
def parsePage (raw : Except String PageJson) : Except String ConfluencePage :=
  match raw with
  | .error err => .error ("decode page: " ++ err)
  | .ok raw =>
    .ok
      { id := raw.id
        title := raw.title
        body := raw.body
        spaceKey := raw.spaceKey
        url :=
          if raw.webui ≠ "" then
            (if raw.base = "" then "https://confluence.zalopay.vn" else raw.base) ++ raw.webui
          else ""
        labels := raw.labels.filter (· ≠ "") }

/-- `ConfluenceClient`: `doGet` with the decoders of a page, of a list of
children and of the results of a search. -/
structure ConfluenceClient (β : Type) where
  baseURL : String
  doGet : String → Except String β
  page : β → Except String PageJson
  children : β → Except String (ChildrenJson β)
  results : β → Except String (List β)
  /-- `url.QueryEscape`, and `%q`. -/
  queryEscape : String → String
  quoted : String → String

def defaultExpand : String := "body.storage,metadata.labels"

namespace ConfluenceClient

variable {β : Type} (c : ConfluenceClient β)

def getPageByID (pageID : String) : Except String ConfluencePage :=
  match c.doGet (c.baseURL ++ "/rest/api/content/" ++ pageID ++ "?expand=" ++ defaultExpand) with
  | .error err => .error err
  | .ok body => parsePage (c.page body)

def getPageByTitle (spaceKey title : String) : Except String ConfluencePage :=
  match c.doGet (c.baseURL ++ "/rest/api/content?spaceKey=" ++ c.queryEscape spaceKey ++ "&title="
      ++ c.queryEscape title ++ "&expand=" ++ defaultExpand) with
  | .error err => .error err
  | .ok body =>
    match c.results body with
    | .error err => .error ("decode search results: " ++ err)
    | .ok [] => .error ("page not found: space=" ++ spaceKey ++ " title=" ++ c.quoted title)
    | .ok (raw :: _) => parsePage (c.page raw)

/-- The entries of a list that can be decoded. -/
def parsed (results : List β) : List ConfluencePage :=
  results.filterMap fun raw => (parsePage (c.page raw)).toOption

/-- The loop of `GetChildPages`, for so many requests. -/
def childPages : Nat → (reqURL : String) → (pages : List ConfluencePage) →
    Option (Except String (List ConfluencePage))
  | 0, _, _ => none
  | n + 1, reqURL, pages =>
    if reqURL = "" then some (.ok pages)
    else
      match c.doGet reqURL with
      | .error err => some (.error err)
      | .ok body =>
        match c.children body with
        | .error err => some (.error ("decode children: " ++ err))
        | .ok result =>
          childPages n (if result.next ≠ "" then c.baseURL ++ result.next else "")
            (pages ++ c.parsed result.results)

/-- Where the children of a page are listed. -/
def childrenURL (pageID : String) : String :=
  c.baseURL ++ "/rest/api/content/" ++ pageID ++ "/child/page?expand=" ++ defaultExpand ++ "&limit=100"

def getChildPages (requests : Nat) (pageID : String) : Option (Except String (List ConfluencePage)) :=
  c.childPages requests (c.childrenURL pageID) []

/-- The loop over the children. -/
def visitChildren (descend : String → Option (Except String (List ConfluencePage))) :
    List ConfluencePage → (all : List ConfluencePage) → Option (List ConfluencePage)
  | [], all => some all
  | child :: children, all =>
    match c.getPageByID child.id with
    | .error _ => visitChildren descend children all
    | .ok full =>
      match descend child.id with
      | none => none
      | some (.error _) => visitChildren descend children (all ++ [full])
      | some (.ok descendants) => visitChildren descend children (all ++ [full] ++ descendants)

/-- `GetAllDescendants`, down to a depth. -/
def getAllDescendants (requests : Nat) : (depth : Nat) → (pageID : String) →
    Option (Except String (List ConfluencePage))
  | 0, _ => none
  | depth + 1, pageID =>
    match c.getChildPages requests pageID with
    | none => none
    | some (.error err) => some (.error err)
    | some (.ok children) =>
      (c.visitChildren (getAllDescendants requests depth) children []).map Except.ok

/-- The steps of `Index` that find the pages. -/
def findPages (requests depth : Nat) (spaceKey rootPageTitle : String) :
    Option (Except String (List ConfluencePage)) :=
  match c.getPageByTitle spaceKey rootPageTitle with
  | .error err => some (.error ("find root page: " ++ err))
  | .ok rootPage =>
    match c.getAllDescendants requests depth rootPage.id with
    | none => none
    | some (.error err) => some (.error ("fetch descendants: " ++ err))
    | some (.ok descendants) => some (.ok (rootPage :: descendants))

/-! ## A site -/

/-- What a server lists from a URL on, in so many requests. -/
inductive Listed : Nat → String → Except String (List β) → Prop
  | failed {url : String} {err : String} (hget : c.doGet url = .error err) : Listed 1 url (.error err)
  | garbled {url : String} {body : β} {err : String} (hget : c.doGet url = .ok body)
      (hdecode : c.children body = .error err) : Listed 1 url (.error ("decode children: " ++ err))
  | last {url : String} {body : β} {results : List β} (hget : c.doGet url = .ok body)
      (hdecode : c.children body = .ok ⟨results, ""⟩) : Listed 1 url (.ok results)
  | more {url : String} {body : β} {results : List β} {next : String} {n : Nat}
      {rest : Except String (List β)} (hget : c.doGet url = .ok body)
      (hdecode : c.children body = .ok ⟨results, next⟩) (hnext : next ≠ "")
      (hrest : Listed n (c.baseURL ++ next) rest) : Listed (n + 1) url (rest.map (results ++ ·))

/-- The server of a site: some pages have a list of their children, some
entries of it can be decoded, and a page has its own id. -/
structure Serves (site : Lib.Forest String) (opens shows : String → Bool) (requests : Nat) : Prop where
  base : c.baseURL ≠ ""
  own : ∀ id page, c.getPageByID id = .ok page → page.id = id
  listed : ∀ id, opens id = true → ∃ n results, n ≤ requests ∧ c.Listed n (c.childrenURL id) (.ok results)
    ∧ (c.parsed results).map ConfluencePage.id = (site.kids id).filter shows
  unlisted : ∀ id, opens id = false → ∃ n err, n ≤ requests ∧ c.Listed n (c.childrenURL id) (.error err)

/-- A page that is listed and can be fetched. -/
def keeps (shows : String → Bool) (id : String) : Bool := shows id && (c.getPageByID id).toOption.isSome

/-- The pages of a crawl. -/
structure Crawled (site : Lib.Forest String) (opens shows : String → Bool) (root : String)
    (pages : List ConfluencePage) : Prop where
  fetched : ∀ page ∈ pages, c.getPageByID page.id = .ok page
  /-- A page below the root is found if it and every page between them is
  listed and fetched, and no list on the way fails. -/
  found : ∀ id, id ∈ pages.map ConfluencePage.id ↔ site.Below root id ∧ opens root = true
    ∧ c.keeps shows id = true
    ∧ ∀ j, site.Below root j → site.Below j id → opens j = true ∧ c.keeps shows j = true
  /-- In the order of the site, from above to below. -/
  ordered : ∀ depth, site.height root < depth →
    (pages.map ConfluencePage.id).Sublist (site.walk depth root)
  /-- With the root, what the index is built from. -/
  crawl : ∀ rootPage : ConfluencePage, rootPage.id = root → ∃ crawl : Crawl, crawl.pages = rootPage :: pages

variable {c}

/-! ## The lists end -/

theorem parsed_append (results more : List β) : c.parsed (results ++ more) = c.parsed results ++ c.parsed more :=
  List.filterMap_append

/-- The loop reads a list to its end, or to its failure. -/
theorem childPages_listed {n : Nat} {url : String} {r : Except String (List β)} (hbase : c.baseURL ≠ "")
    (h : c.Listed n url r) (hurl : url ≠ "") {requests : Nat} (hn : n < requests)
    (pages : List ConfluencePage) :
    c.childPages requests url pages = some (r.map fun results => pages ++ c.parsed results) := by
  induction h generalizing requests pages with
  | failed hget =>
    obtain ⟨m, rfl⟩ : ∃ m, requests = m + 1 := ⟨requests - 1, by omega⟩
    simp [childPages, hurl, hget, Except.map]
  | garbled hget hdecode =>
    obtain ⟨m, rfl⟩ : ∃ m, requests = m + 1 := ⟨requests - 1, by omega⟩
    simp [childPages, hurl, hget, hdecode, Except.map]
  | last hget hdecode =>
    obtain ⟨m, rfl⟩ : ∃ m, requests = m + 2 := ⟨requests - 2, by omega⟩
    simp [childPages, hurl, hget, hdecode, Except.map]
  | @more _ _ results next n rest hget hdecode hnext hrest ih =>
    obtain ⟨m, rfl⟩ : ∃ m, requests = m + 1 := ⟨requests - 1, by omega⟩
    have hlink : c.baseURL ++ next ≠ "" := by simp [hbase]
    have hfewer : n < m := by omega
    have hloop := ih hlink hfewer (pages ++ c.parsed results)
    rw [childPages, if_neg hurl, hget]
    dsimp only
    rw [hdecode]
    dsimp only
    rw [if_pos hnext, hloop]
    cases rest with
    | error err => rfl
    | ok rest => simp [Except.map, parsed_append]

section
variable {site : Lib.Forest String} {opens shows : String → Bool} {requests : Nat}

theorem childrenURL_ne_empty (id : String) : c.childrenURL id ≠ "" := by
  simp [childrenURL]

/-- What `GetChildPages` gives of a site. -/
theorem getChildPages_serves (hserves : c.Serves site opens shows requests) (id : String) :
    (opens id = true → ∃ children, c.getChildPages (requests + 1) id = some (.ok children)
        ∧ children.map ConfluencePage.id = (site.kids id).filter shows)
      ∧ (opens id = false → ∃ err, c.getChildPages (requests + 1) id = some (.error err)) := by
  constructor
  · intro hopen
    obtain ⟨n, results, hn, hlisted, hids⟩ := hserves.listed id hopen
    refine ⟨c.parsed results, ?_, hids⟩
    unfold getChildPages
    rw [childPages_listed hserves.base hlisted (childrenURL_ne_empty id) (Nat.lt_succ_of_le hn)]
    rfl
  · intro hclosed
    obtain ⟨n, err, hn, hlisted⟩ := hserves.unlisted id hclosed
    refine ⟨err, ?_⟩
    unfold getChildPages
    rw [childPages_listed hserves.base hlisted (childrenURL_ne_empty id) (Nat.lt_succ_of_le hn)]
    rfl

/-! ## The walk -/

/-- The pages with some ids. -/
def pagesOf (c : ConfluenceClient β) (ids : List String) : List ConfluencePage :=
  ids.filterMap fun id => (c.getPageByID id).toOption

/-- The loop over the children, where each of them has been walked. -/
theorem visitChildren_eq {descend : String → Option (Except String (List ConfluencePage))}
    {below : String → List String} (kids : List ConfluencePage) (all : List ConfluencePage)
    (hdescend : ∀ child ∈ kids, (c.getPageByID child.id).toOption.isSome = true →
      (∃ err, descend child.id = some (.error err) ∧ below child.id = [])
        ∨ descend child.id = some (.ok (c.pagesOf (below child.id)))) :
    c.visitChildren descend kids all
      = some (all ++ c.pagesOf (((kids.map ConfluencePage.id).filter fun id =>
          (c.getPageByID id).toOption.isSome).flatMap fun id => id :: below id)) := by
  induction kids generalizing all with
  | nil => simp [visitChildren, pagesOf]
  | cons child kids ih =>
    have hrest := fun all => ih all fun child' hchild' => hdescend child' (List.mem_cons_of_mem _ hchild')
    rw [visitChildren]
    cases hpage : c.getPageByID child.id with
    | error err => simp [hrest, hpage, Except.toOption]
    | ok full =>
      rcases hdescend child List.mem_cons_self (by simp [hpage, Except.toOption]) with ⟨err, herr, hnil⟩ | hok
      · simp [herr, hrest, hpage, hnil, Except.toOption, pagesOf]
      · simp [hok, hrest, hpage, Except.toOption, pagesOf]

/-- The walk of the code is the walk of what is left of the site. -/
theorem getAllDescendants_eq (hserves : c.Serves site opens shows requests) {depth : Nat} {id : String}
    (hdepth : site.height id < depth) :
    (opens id = false → ∃ err, c.getAllDescendants (requests + 1) depth id = some (.error err))
      ∧ (opens id = true → c.getAllDescendants (requests + 1) depth id
        = some (.ok (c.pagesOf ((site.prune opens (c.keeps shows)).walk depth id)))) := by
  induction depth generalizing id with
  | zero => omega
  | succ depth ih =>
    obtain ⟨hlisted, hfailed⟩ := getChildPages_serves hserves id
    constructor
    · intro hclosed
      obtain ⟨err, herr⟩ := hfailed hclosed
      exact ⟨err, by simp [getAllDescendants, herr]⟩
    · intro hopen
      obtain ⟨children, hchildren, hids⟩ := hlisted hopen
      have hdescend : ∀ child ∈ children, (c.getPageByID child.id).toOption.isSome = true →
          (∃ err, c.getAllDescendants (requests + 1) depth child.id = some (.error err)
              ∧ (site.prune opens (c.keeps shows)).walk depth child.id = [])
            ∨ c.getAllDescendants (requests + 1) depth child.id
              = some (.ok (c.pagesOf ((site.prune opens (c.keeps shows)).walk depth child.id))) := by
        intro child hchild _
        have hkid : child.id ∈ children.map ConfluencePage.id := List.mem_map_of_mem hchild
        rw [hids] at hkid
        have hlower := site.lower id _ (List.mem_of_mem_filter hkid)
        have hdeeper : site.height child.id < depth := by omega
        obtain ⟨herror, hok⟩ := ih hdeeper
        cases hopens : opens child.id with
        | false =>
          obtain ⟨err, herr⟩ := herror hopens
          exact .inl ⟨err, herr, Lib.Forest.walk_prune_closed hopens depth⟩
        | true => exact .inr (hok hopens)
      have hvisit := visitChildren_eq children [] hdescend
      have hkids : (children.map ConfluencePage.id).filter (fun id => (c.getPageByID id).toOption.isSome)
          = (site.prune opens (c.keeps shows)).kids id := by
        rw [Lib.Forest.kids_prune, if_pos hopen, hids, List.filter_filter]
        refine List.filter_congr fun j _ => ?_
        rw [keeps, Bool.and_comm]
      simp only [getAllDescendants, hchildren, hvisit, hkids, List.nil_append]
      rfl

/-! ## What is found -/

theorem getPageByID_of_mem {ids : List String} (hown : ∀ id page, c.getPageByID id = .ok page → page.id = id)
    {page : ConfluencePage} (h : page ∈ c.pagesOf ids) : c.getPageByID page.id = .ok page := by
  obtain ⟨id, -, hpage⟩ := List.mem_filterMap.mp h
  cases hget : c.getPageByID id with
  | error err =>
    rw [hget] at hpage
    cases hpage
  | ok found =>
    obtain rfl : found = page := by simpa [hget, Except.toOption] using hpage
    rw [hown id found hget, hget]

/-- Pages have the ids they were fetched by. -/
theorem ids_pagesOf {ids : List String} (hown : ∀ id page, c.getPageByID id = .ok page → page.id = id)
    (h : ∀ id ∈ ids, (c.getPageByID id).toOption.isSome = true) :
    (c.pagesOf ids).map ConfluencePage.id = ids := by
  induction ids with
  | nil => rfl
  | cons id ids ih =>
    have hids := ih fun id hid => h id (List.mem_cons_of_mem _ hid)
    cases hget : c.getPageByID id with
    | error err => simpa [hget, Except.toOption] using h id List.mem_cons_self
    | ok page =>
      simp only [pagesOf, List.filterMap_cons, hget, Except.toOption, List.map_cons]
      rw [hown id page hget]
      exact congrArg _ hids

/-- The pages of the walk are the pages of a crawl. -/
theorem crawled_pagesOf (hserves : c.Serves site opens shows requests) {root : String} {depth : Nat}
    (hdepth : site.height root < depth) :
    c.Crawled site opens shows root
      (c.pagesOf ((site.prune opens (c.keeps shows)).walk depth root)) := by
  have hbelow : ∀ id, id ∈ (site.prune opens (c.keeps shows)).walk depth root
      ↔ (site.prune opens (c.keeps shows)).Below root id :=
    fun id => Lib.Forest.mem_walk (f := site.prune opens (c.keeps shows)) hdepth
  have hids : (c.pagesOf ((site.prune opens (c.keeps shows)).walk depth root)).map ConfluencePage.id
      = (site.prune opens (c.keeps shows)).walk depth root := by
    refine ids_pagesOf hserves.own fun id hid => ?_
    have hkeep := (Lib.Forest.below_prune.mp ((hbelow id).mp hid)).2.2.1
    exact (Bool.and_eq_true_iff.mp hkeep).2
  refine { fetched := fun page => getPageByID_of_mem hserves.own, found := ?_, ordered := ?_, crawl := ?_ }
  · intro id
    rw [hids, hbelow id]
    exact Lib.Forest.below_prune
  · intro depth' hdepth'
    have hsame : (site.prune opens (c.keeps shows)).walk depth root
        = (site.prune opens (c.keeps shows)).walk depth' root := Lib.Forest.walk_eq hdepth hdepth'
    rw [hids, hsame]
    exact Lib.Forest.walk_prune _ _ depth' root
  · intro rootPage hroot
    refine ⟨{ pages := rootPage :: _, distinct := ?_ }, rfl⟩
    rw [List.map_cons, hids, List.nodup_cons, hroot]
    refine ⟨fun h => ?_, Lib.Forest.nodup_walk _ _⟩
    exact Nat.lt_irrefl _ (Lib.Forest.Below.height_lt ((hbelow root).mp h))

end

/-! ## What is indexed -/

/-- A collection with the chunks of some pages, and nothing else, and the
result of the sync. -/
structure IndexedPages {ν : Type} (env : Env ν) (kb : KnowledgeBase) (pages : List ConfluencePage)
    (coll : Collection ν) (result : Except String IndexResult) : Prop where
  done : ∃ r, result = .ok r ∧ r.totalPages = pages.length
  points : ∀ p ∈ coll.rows, ∃ page ∈ pages,
    ∃ chunk ∈ indexed (pageName kb page) (pageChunks env kb page), IsPointOf env chunk p
  chunks : ∀ page ∈ pages, ∀ chunk ∈ indexed (pageName kb page) (pageChunks env kb page),
    ∃ p ∈ coll.rows, IsPointOf env chunk p

/-- A sync with reset, every call of which is served. -/
theorem indexedPages_of_reset {ν : Type} (env : Env ν) {kb : KnowledgeBase} (hsource : kb.source ≠ "markdown")
    (crawl : Crawl) (coll : Collection ν) :
    IndexedPages env kb crawl.pages (indexBase env kb true crawl {} coll).1
      (indexBase env kb true crawl {} coll).2 := by
  have hchunks : chunksOf env kb crawl
      = crawl.pages.flatMap fun page => indexed (pageName kb page) (pageChunks env kb page) := if_neg hsource
  have hrows : ∀ p, p ∈ (indexBase env kb true crawl {} coll).1.rows ↔ p ∈ newPoints env kb crawl := by
    intro p
    obtain ⟨result, hbase⟩ := indexBase_served env kb true crawl coll
    rw [hbase, Lib.Table.mem_putAll (nodup_newPoints kb crawl)]
    simp [cleared, hsource, deleteCollection, Lib.Table.empty]
  refine { done := ?_, points := ?_, chunks := ?_ }
  · simp only [indexBase, hsource, if_false, indexConfluence, upsertBatches_served]
    exact ⟨_, rfl, rfl⟩
  · intro p hp
    obtain ⟨-, -, chunk, hchunk, hpoint⟩ := mem_newPoints ((hrows p).mp hp)
    rw [hchunks] at hchunk
    obtain ⟨page, hpage, hchunk⟩ := List.mem_flatMap.mp hchunk
    exact ⟨page, hpage, chunk, hchunk, hpoint⟩
  · intro page hpage chunk hchunk
    have hmem : chunk ∈ chunksOf env kb crawl := by
      rw [hchunks]
      exact List.mem_flatMap.mpr ⟨page, hpage, hchunk⟩
    obtain ⟨p, hp, hpoint⟩ := exists_newPoint hmem
    exact ⟨p, (hrows p).mpr hp, hpoint⟩

end ConfluenceClient

/-! ## A site with failures -/

def wikiPageURL (id : String) : String := "https://wiki/rest/api/content/" ++ id ++ "?expand=" ++ defaultExpand

def wikiChildrenURL (id : String) : String :=
  "https://wiki/rest/api/content/" ++ id ++ "/child/page?expand=" ++ defaultExpand ++ "&limit=100"

def wikiSearchURL : String := "https://wiki/rest/api/content?spaceKey=L&title=Guide&expand=" ++ defaultExpand

/-- Page 1 has the children 2 and 3, on two lists, and 3 has the child 4.
The children of 2 cannot be listed, and 4 cannot be fetched. -/
def wiki : ConfluenceClient String where
  baseURL := "https://wiki"
  doGet url :=
    if url = wikiPageURL "2" then .ok "2"
    else if url = wikiPageURL "3" then .ok "3"
    else if url = wikiChildrenURL "1" then .ok "list 1"
    else if url = "https://wiki/list/2" then .ok "list 2"
    else if url = wikiChildrenURL "3" then .ok "list 3"
    else if url = wikiSearchURL then .ok "search"
    else .error "confluence API 404"
  page body :=
    if body ∈ ["1", "2", "3", "4"] then .ok ⟨body, "Page " ++ body, "<p>" ++ body ++ "</p>", "L", [], "", ""⟩
    else .error "no page"
  children body :=
    if body = "list 1" then .ok ⟨["2"], "/list/2"⟩
    else if body = "list 2" then .ok ⟨["3"], ""⟩
    else if body = "list 3" then .ok ⟨["4"], ""⟩
    else .error "no list"
  results body := if body = "search" then .ok ["1"] else .error "no results"
  queryEscape := id
  quoted := id

def wikiKids (id : String) : List String :=
  if id = "1" then ["2", "3"] else if id = "3" then ["4"] else []

theorem mem_wikiKids {i j : String} :
    j ∈ wikiKids i ↔ (i = "1" ∧ j = "2") ∨ (i = "1" ∧ j = "3") ∨ (i = "3" ∧ j = "4") := by
  unfold wikiKids
  by_cases h1 : i = "1"
  · simp [h1]
  · by_cases h3 : i = "3"
    · simp [h3]
    · simp [h1, h3]

def wikiHeight (id : String) : Nat := if id = "1" then 2 else if id = "3" then 1 else 0

theorem wiki_lower (i j : String) (h : j ∈ wikiKids i) : wikiHeight j < wikiHeight i := by
  rcases mem_wikiKids.mp h with ⟨rfl, rfl⟩ | ⟨rfl, rfl⟩ | ⟨rfl, rfl⟩ <;> decide

theorem wiki_distinct (i : String) : (wikiKids i).Nodup := by
  unfold wikiKids
  split
  · decide
  · split <;> decide

theorem wiki_parent {i j k : String} (hi : k ∈ wikiKids i) (hj : k ∈ wikiKids j) : i = j := by
  rcases mem_wikiKids.mp hi with ⟨rfl, rfl⟩ | ⟨rfl, rfl⟩ | ⟨rfl, rfl⟩ <;>
    simpa [eq_comm] using mem_wikiKids.mp hj

def wikiSite : Lib.Forest String :=
  { kids := wikiKids, height := wikiHeight, lower := wiki_lower, distinct := wiki_distinct, parent := wiki_parent }

theorem getLast?_append_text (s : String) {t : String} (h : t.toList ≠ []) :
    (s ++ t).toList.getLast? = t.toList.getLast? := by
  rw [String.toList_append, List.getLast?_append_of_ne_nil _ h]

/-- No list of children is at the URL of a page, or of a second list. -/
theorem wikiChildrenURL_ne (id other : String) :
    wikiChildrenURL id ≠ wikiPageURL other ∧ wikiChildrenURL id ≠ "https://wiki/list/2" := by
  have hlast : (wikiChildrenURL id).toList.getLast? = "&limit=100".toList.getLast? :=
    getLast?_append_text _ (by decide)
  have hpage : (wikiPageURL other).toList.getLast? = defaultExpand.toList.getLast? :=
    getLast?_append_text _ (by decide)
  constructor
  · intro h
    rw [h, hpage] at hlast
    revert hlast
    decide
  · intro h
    rw [h] at hlast
    revert hlast
    decide

theorem wikiPageURL_inj {id other : String} : wikiPageURL id = wikiPageURL other ↔ id = other := by
  unfold wikiPageURL
  rw [String.append_left_inj, String.append_left_inj, String.append_right_inj]

theorem wikiChildrenURL_inj {id other : String} : wikiChildrenURL id = wikiChildrenURL other ↔ id = other := by
  unfold wikiChildrenURL
  rw [String.append_left_inj, String.append_left_inj, String.append_left_inj, String.append_right_inj]

theorem wiki_pageURL (id : String) :
    wiki.baseURL ++ "/rest/api/content/" ++ id ++ "?expand=" ++ defaultExpand = wikiPageURL id := by
  have hhost : wiki.baseURL ++ "/rest/api/content/" = "https://wiki/rest/api/content/" := by decide
  rw [hhost]
  rfl

theorem wiki_childrenURL (id : String) : wiki.childrenURL id = wikiChildrenURL id := by
  have hhost : wiki.baseURL ++ "/rest/api/content/" = "https://wiki/rest/api/content/" := by decide
  rw [ConfluenceClient.childrenURL, hhost]
  rfl

/-- What is at a URL is a page, a list or the results of a search. -/
theorem wiki_bodies {url body : String} (h : wiki.doGet url = .ok body) :
    (url = wikiPageURL body ∧ (body = "2" ∨ body = "3"))
      ∨ (url = wikiChildrenURL "1" ∧ body = "list 1") ∨ (url = "https://wiki/list/2" ∧ body = "list 2")
      ∨ (url = wikiChildrenURL "3" ∧ body = "list 3") ∨ body = "search" := by
  simp only [wiki] at h
  split at h
  · cases h
    simp_all
  · split at h
    · cases h
      simp_all
    · split at h
      · cases h
        simp_all
      · split at h
        · cases h
          simp_all
        · split at h
          · cases h
            simp_all
          · split at h
            · cases h
              simp
            · cases h

theorem wiki_page {id : String} (h : id = "1" ∨ id = "2" ∨ id = "3" ∨ id = "4") :
    ∃ page, parsePage (wiki.page id) = .ok page ∧ page.id = id := by
  rcases h with rfl | rfl | rfl | rfl <;> exact ⟨_, rfl, rfl⟩

/-- A page that is fetched is 2 or 3. -/
theorem wiki_own (id : String) (page : ConfluencePage) (h : wiki.getPageByID id = .ok page) : page.id = id := by
  unfold ConfluenceClient.getPageByID at h
  rw [wiki_pageURL] at h
  cases hget : wiki.doGet (wikiPageURL id) with
  | error err =>
    rw [hget] at h
    cases h
  | ok body =>
    rw [hget] at h
    dsimp only at h
    rcases wiki_bodies hget with ⟨hurl, hbody⟩ | ⟨-, rfl⟩ | ⟨-, rfl⟩ | ⟨-, rfl⟩ | rfl
    · obtain rfl := wikiPageURL_inj.mp hurl
      obtain ⟨page', hpage', hid⟩ := wiki_page (.inr (hbody.imp_right .inl))
      rw [hpage'] at h
      cases h
      exact hid
    · cases h
    · cases h
    · cases h
    · cases h

theorem wiki_lists :
    wiki.doGet (wikiChildrenURL "1") = .ok "list 1" ∧ wiki.doGet (wiki.baseURL ++ "/list/2") = .ok "list 2"
      ∧ wiki.doGet (wikiChildrenURL "3") = .ok "list 3" := by
  have hlink : wiki.baseURL ++ "/list/2" = "https://wiki/list/2" := by decide
  have hpages : "https://wiki/list/2" ≠ wikiPageURL "2" ∧ "https://wiki/list/2" ≠ wikiPageURL "3" := by decide
  rw [hlink]
  refine ⟨?_, ?_, ?_⟩
  · simp [wiki, wikiChildrenURL_ne]
  · simp [wiki, hpages, (wikiChildrenURL_ne "1" "").2.symm]
  · simp [wiki, wikiChildrenURL_ne, wikiChildrenURL_inj, (wikiChildrenURL_ne "3" "").2]

theorem wiki_serves : wiki.Serves wikiSite (fun id => id = "1" || id = "3") (fun _ => true) 2 where
  base := by decide
  own := wiki_own
  listed id h := by
    have hcases : id = "1" ∨ id = "3" := by simpa using h
    rcases hcases with rfl | rfl
    · refine ⟨2, ["2"] ++ ["3"], Nat.le_refl 2, ?_, by decide⟩
      rw [wiki_childrenURL]
      exact .more wiki_lists.1 rfl (by decide) (.last wiki_lists.2.1 rfl)
    · refine ⟨1, ["4"], by decide, ?_, by decide⟩
      rw [wiki_childrenURL]
      exact .last wiki_lists.2.2 rfl
  unlisted id h := by
    have hne : id ≠ "1" ∧ id ≠ "3" := by simpa using h
    rw [wiki_childrenURL]
    cases hget : wiki.doGet (wikiChildrenURL id) with
    | error err => exact ⟨1, _, by decide, .failed hget⟩
    | ok body =>
      rcases wiki_bodies hget with ⟨hurl, -⟩ | ⟨hurl, -⟩ | ⟨hurl, -⟩ | ⟨hurl, -⟩ | rfl
      · exact absurd hurl (wikiChildrenURL_ne id body).1
      · exact absurd (wikiChildrenURL_inj.mp hurl) hne.1
      · exact absurd hurl (wikiChildrenURL_ne id "").2
      · exact absurd (wikiChildrenURL_inj.mp hurl) hne.2
      · exact ⟨1, _, by decide, .garbled hget rfl⟩

def wikiBase : KnowledgeBase := { id := "kb", name := "Guide", spaceKey := "L", rootPage := "Guide" }

def wikiRoot : ConfluencePage := ⟨"1", "Page 1", "<p>1</p>", "L", "", []⟩

theorem wiki_root : wiki.getPageByTitle wikiBase.spaceKey wikiBase.rootPage = .ok wikiRoot := by
  have hsearch : wiki.doGet (wiki.baseURL ++ "/rest/api/content?spaceKey=" ++ wiki.queryEscape wikiBase.spaceKey
      ++ "&title=" ++ wiki.queryEscape wikiBase.rootPage ++ "&expand=" ++ defaultExpand) = .ok "search" := by
    have hurl : wiki.baseURL ++ "/rest/api/content?spaceKey=" ++ wiki.queryEscape wikiBase.spaceKey
        ++ "&title=" ++ wiki.queryEscape wikiBase.rootPage ++ "&expand=" ++ defaultExpand = wikiSearchURL := by decide
    have hne : wikiSearchURL ≠ wikiPageURL "2" ∧ wikiSearchURL ≠ wikiPageURL "3"
        ∧ wikiSearchURL ≠ wikiChildrenURL "1" ∧ wikiSearchURL ≠ "https://wiki/list/2"
        ∧ wikiSearchURL ≠ wikiChildrenURL "3" := by decide
    rw [hurl]
    simp [wiki, hne]
  unfold ConfluenceClient.getPageByTitle
  rw [hsearch]
  rfl

end LendingClaw.Knowledge
