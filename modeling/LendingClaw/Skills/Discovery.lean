/-
LendingClaw.Skills.Discovery — how an agent finds a skill and reads it
(`internal/tools/skillsearch`, `Search` of `internal/skills/search.go`,
`StripFrontmatter` of `internal/skills/frontmatter.go`).

`skill_search` names the skill that the agent is to read next,
`read_skill` lists the files that it may read then. Over the reals a
search is the best part of the skills that share a word with the query,
and every name and path that the tools hand out is one that they serve.
The text of a score and of a whole answer is left out, and the collation
of a path.
-/
import LendingClaw.Lib.Ranking
import LendingClaw.Skills.Cache
import LendingClaw.Skills.FrontmatterRoundTrip
import LendingClaw.Skills.RealScores
import LendingClaw.Skills.Restriction

namespace LendingClaw.Skills

/-! ## The tools -/

section
variable {R : Type} [Number R] (u : Unicode)

/-- What `skill_search` answers. -/
inductive SkillsFound (R : Type) where
  | none (text : String)
  | found (results : List (SearchResult R)) (instruction : String)

/-- What the agent is told to do with the first result. -/
def readInstruction (name : String) : String :=
  "\n\nACTION REQUIRED: Call read_skill with name " ++ quote u.isPrint name
    ++ " to read the skill instructions, then follow them."

/-- `SkillSearchTool.Execute`. -/
def skillSearch (e : WsEntry R) (ctx : AllowedSkills) (query : String) (maxResults : Option Int) :
    Except String (SkillsFound R) :=
  if query = "" then .error "query parameter is required"
  else
    let max := match maxResults with
      | some n => if n > 0 then n else 5
      | none => 5
    match e.search u ctx query max with
    | [] => .ok (.none ("No skills found matching: " ++ query))
    | first :: rest => .ok (.found (first :: rest) (readInstruction u first.name))

/-- `StripFrontmatter`; none is a panic. -/
def stripFrontmatter (content : String) : Option String :=
  (parseFrontmatter content.toList).map fun parsed =>
    if parsed.ok then String.ofList parsed.body else content

structure SkillFile where
  path : String
  content : String

/-- What `read_skill` answers. -/
structure SkillBody where
  name : String
  description : String
  content : Option String
  files : List String

def skillNotFound (name : String) : String :=
  "Skill " ++ quote u.isPrint name ++ " not found. Use skill_search to find available skills."

/-- `ReadSkillTool.Execute`, over the files of each skill, which the store
lists or does not. -/
def readSkill (e : WsEntry R) (ctx : AllowedSkills) (listFiles : String → Option (List SkillFile))
    (name : String) : Except String SkillBody :=
  if name = "" then .error "name parameter is required"
  else
    match e.get ctx name with
    | none => .error (skillNotFound u name)
    | some skill =>
      .ok
        { name := skill.name
          description := skill.description
          content := stripFrontmatter skill.content
          files := ((listFiles skill.id).getD []).map SkillFile.path }

/-- `ReadSkillFileTool.Execute`. -/
def readSkillFile (e : WsEntry R) (ctx : AllowedSkills) (getFile : String → String → Option SkillFile)
    (name path : String) : Except String String :=
  if name = "" ∨ path = "" then .error "skill and path parameters are required"
  else
    match e.get ctx name with
    | none => .error (skillNotFound u name)
    | some skill =>
      match getFile skill.id path with
      | none =>
        .error ("Reference file " ++ quote u.isPrint path ++ " not found in skill "
          ++ quote u.isPrint name ++ ". Call read_skill to see available files.")
      | some file => .ok file.content

end

section
variable {R : Type} {u : Unicode} {e : WsEntry R} {ctx : AllowedSkills} {name : String}
  {skill : Skill}

theorem readSkill_of_get {listFiles : String → Option (List SkillFile)} (hname : name ≠ "")
    (hget : e.get ctx name = some skill) :
    readSkill u e ctx listFiles name = .ok
      { name := skill.name
        description := skill.description
        content := stripFrontmatter skill.content
        files := ((listFiles skill.id).getD []).map SkillFile.path } := by
  unfold readSkill
  rw [if_neg hname, hget]

theorem readSkillFile_of_get {getFile : String → String → Option SkillFile} {path : String}
    {file : SkillFile} (hname : name ≠ "") (hpath : path ≠ "") (hget : e.get ctx name = some skill)
    (hfile : getFile skill.id path = some file) :
    readSkillFile u e ctx getFile name path = .ok file.content := by
  unfold readSkillFile
  rw [if_neg (by simp [hname, hpath]), hget]
  dsimp only
  rw [hfile]

end

/-- The files of the skills of a workspace: no path is empty or comes
twice for a skill. -/
structure SkillFiles where
  files : String → List SkillFile
  distinct : ∀ id, ((files id).map SkillFile.path).Nodup
  named : ∀ id, ∀ file ∈ files id, file.path ≠ ""

/-- `GetFile`. -/
def SkillFiles.getFile (s : SkillFiles) (id path : String) : Option SkillFile :=
  (s.files id).find? fun file => file.path = path

theorem find?_path {files : List SkillFile} (h : (files.map SkillFile.path).Nodup) {file : SkillFile}
    (hmem : file ∈ files) : (files.find? fun f => f.path = file.path) = some file := by
  induction files with
  | nil => cases hmem
  | cons first files ih =>
    rw [List.map_cons, List.nodup_cons] at h
    rw [List.find?_cons]
    rcases List.mem_cons.mp hmem with rfl | hmem
    · simp
    · have hne : first.path ≠ file.path := fun heq => h.1 (List.mem_map.mpr ⟨file, hmem, heq.symm⟩)
      rw [decide_eq_false hne]
      exact ih h.2 hmem

/-! ## What a query matches -/

variable {u : Unicode}

/-- A document scores if and only if it has a word of the query. -/
theorem score_pos_iff (skills : List Skill) (queryTokens : List String) (doc : SkillDoc) :
    (0.0 : ℝ) < (Index.build u skills).score queryTokens doc ↔ ∃ qt ∈ queryTokens, qt ∈ doc.tokens := by
  unfold Index.score
  constructor
  · intro hpos
    by_contra hnone
    have hzero : ∀ tokens : List String, (∀ qt ∈ tokens, qt ∉ doc.tokens) →
        tokens.foldl ((Index.build (R := ℝ) u skills).termScore doc) 0.0 = 0.0 := by
      intro tokens
      induction tokens with
      | nil => exact fun _ => rfl
      | cons qt tokens ih =>
        intro hnot
        have hcount : doc.tokens.count qt = 0 := List.count_eq_zero.mpr (hnot qt List.mem_cons_self)
        rw [List.foldl_cons, termScore_real, if_pos hcount]
        exact ih fun t ht => hnot t (List.mem_cons_of_mem _ ht)
    rw [hzero queryTokens fun qt hqt hmem => hnone ⟨qt, hqt, hmem⟩] at hpos
    exact absurd hpos (lt_irrefl _)
  · intro ⟨qt, hqt, hmem⟩
    obtain ⟨before, after, rfl⟩ := List.append_of_mem hqt
    rw [List.foldl_append, List.foldl_cons]
    exact (le_foldl_termScore skills doc before _).trans_lt
      ((lt_termScore skills hmem _).trans_le (le_foldl_termScore skills doc after _))

/-- The words that a skill is found by. -/
def Shares (u : Unicode) (query : String) (s : Skill) : Prop :=
  ∃ qt ∈ tokenize u query, qt ∈ tokenize u (searchText s)

/-- The scored skills of a corpus, in its order. -/
noncomputable def matching (u : Unicode) (skills : List Skill) (query : String) : List (Scored ℝ) :=
  ((skills.map (SkillDoc.of u)).filterMap fun doc =>
    let score := (Index.build (R := ℝ) u skills).score (tokenize u query) doc
    if 0.0 < score then some { doc := doc, score := score } else none)

theorem sortScored_rank (results : List (Scored ℝ)) : sortScored results = Lib.rank Scored.score results := rfl

theorem ranked_eq (skills : List Skill) (query : String) :
    (Index.build (R := ℝ) u skills).ranked u query = Lib.rank Scored.score (matching u skills query) := by
  unfold Index.ranked
  by_cases hnone : tokenize u query = []
  · have hempty : matching u skills query = [] := by
      rw [matching, List.filterMap_eq_nil_iff]
      intro doc _
      have hzero : ¬ (0.0 : ℝ) < (Index.build u skills).score (tokenize u query) doc := by
        rw [score_pos_iff, hnone]
        simp
      exact if_neg hzero
    rw [if_pos hnone, hempty]
    rfl
  · rw [if_neg hnone]
    rfl

theorem mem_matching {skills : List Skill} {query : String} {s : Skill} :
    (∃ r ∈ matching u skills query, r.doc.skill = s) ↔ s ∈ skills ∧ Shares u query s := by
  constructor
  · intro ⟨r, hr, hskill⟩
    obtain ⟨doc, hdoc, hsome⟩ := List.mem_filterMap.mp hr
    obtain ⟨t, ht, rfl⟩ := List.mem_map.mp hdoc
    by_cases hpos : (0.0 : ℝ) < (Index.build u skills).score (tokenize u query) (SkillDoc.of u t)
    · dsimp only at hsome
      rw [if_pos hpos] at hsome
      obtain rfl := Option.some.inj hsome
      obtain rfl : t = s := hskill
      exact ⟨ht, (score_pos_iff skills _ _).mp hpos⟩
    · dsimp only at hsome
      rw [if_neg hpos] at hsome
      cases hsome
  · intro ⟨hs, hshares⟩
    have hpos : (0.0 : ℝ) < (Index.build u skills).score (tokenize u query) (SkillDoc.of u s) :=
      (score_pos_iff skills _ _).mpr hshares
    let r : Scored ℝ :=
      { doc := SkillDoc.of u s, score := (Index.build u skills).score (tokenize u query) (SkillDoc.of u s) }
    exact ⟨r, List.mem_filterMap.mpr ⟨SkillDoc.of u s, List.mem_map_of_mem hs, if_pos hpos⟩, rfl⟩

/-! ## What is handed out -/

/-- `Cache.Search` keeps the skill. -/
def nameAllowed (ctx : AllowedSkills) (r : Scored ℝ) : Bool :=
  match ctx with
  | some allowed => r.doc.skill.name ∈ allowed
  | none => true

/-- The number of results of `skill_search`. -/
def wanted (maxResults : Option Int) : Nat :=
  match maxResults with
  | some n => if n > 0 then n.toNat else 5
  | none => 5

/-- What an agent gets out of `skill_search`, and what it can do with
it. -/
structure Discovered (u : Unicode) (skills : List Skill) (ctx : AllowedSkills) (files : SkillFiles)
    (query : String) (maxResults : Option Int) (top : List (Scored ℝ)) : Prop where
  /-- The best of the skills that share a word with the query. -/
  best : Lib.Top Scored.score (wanted maxResults) (matching u skills query) top
  matched : ∀ s, (∃ r ∈ matching u skills query, r.doc.skill = s) ↔ s ∈ skills ∧ Shares u query s
  none : ∀ text, skillSearch u (WsEntry.load (R := ℝ) u skills) ctx query maxResults = .ok (.none text) →
    ∀ r ∈ top, nameAllowed ctx r = false
  /-- Those of them that are allowed, and the first is recommended. -/
  found : ∀ results instruction,
    skillSearch u (WsEntry.load u skills) ctx query maxResults = .ok (.found results instruction) →
      results = (top.filter (nameAllowed ctx)).map Scored.toResult
        ∧ ∃ first, results.head? = some first ∧ instruction = readInstruction u first.name
  /-- Each can be read, and each of the files that are listed with it. -/
  readable : ∀ r ∈ top, nameAllowed ctx r = true → ∃ s ∈ skills, ∃ body,
    s = r.doc.skill ∧ Shares u query s
      ∧ readSkill u (WsEntry.load (R := ℝ) u skills) ctx (fun id => some (files.files id)) r.toResult.name
        = .ok body
      ∧ body.content = stripFrontmatter s.content ∧ body.content ≠ .none
      ∧ ∀ path ∈ body.files, ∃ file ∈ files.files s.id, file.path = path
        ∧ readSkillFile u (WsEntry.load (R := ℝ) u skills) ctx files.getFile r.toResult.name path
          = .ok file.content

theorem find?_name {skills : List Skill} (h : (skills.map Skill.name).Nodup) {s : Skill} (hs : s ∈ skills) :
    (skills.find? fun t => t.name == s.name) = some s := by
  induction skills with
  | nil => cases hs
  | cons first skills ih =>
    rw [List.map_cons, List.nodup_cons] at h
    rw [List.find?_cons]
    rcases List.mem_cons.mp hs with rfl | hs
    · simp
    · have hne : first.name ≠ s.name := fun heq => h.1 (List.mem_map.mpr ⟨s, hs, heq.symm⟩)
      rw [beq_false_of_ne hne]
      exact ih h.2 hs

/-- A skill that is allowed by its name is served. -/
theorem get_allowed {skills : List Skill} (hnames : (skills.map Skill.name).Nodup) (ctx : AllowedSkills)
    {r : Scored ℝ} (hs : r.doc.skill ∈ skills) (h : nameAllowed ctx r = true) :
    (WsEntry.load (R := ℝ) u skills).get ctx r.doc.skill.name = some r.doc.skill := by
  have hfind := find?_name hnames hs
  cases ctx with
  | none => exact hfind
  | some allowed =>
    have hmem : r.doc.skill.name ∈ allowed := of_decide_eq_true h
    unfold WsEntry.get WsEntry.load
    dsimp only
    rw [hfind]
    exact if_pos (.inl hmem)

theorem stripFrontmatter_ne_none (content : String) : stripFrontmatter content ≠ none := by
  unfold stripFrontmatter
  cases hparse : parseFrontmatter content.toList with
  | none => exact absurd hparse (parseFrontmatter_ne_none _)
  | some parsed => simp

theorem search_top (skills : List Skill) (ctx : AllowedSkills) (query : String) (max : Int) :
    (WsEntry.load (R := ℝ) u skills).search u ctx query max
      = (((Lib.rank Scored.score (matching u skills query)).take (limit max)).filter
          (nameAllowed ctx)).map Scored.toResult := by
  have hsearch : (Index.build (R := ℝ) u skills).search u query max
      = ((Lib.rank Scored.score (matching u skills query)).take (limit max)).map Scored.toResult := by
    unfold Index.search
    rw [ranked_eq]
  cases ctx with
  | none =>
    refine hsearch.trans ?_
    have hall : ∀ l : List (Scored ℝ), l.filter (nameAllowed none) = l :=
      fun l => List.filter_eq_self.mpr fun _ _ => rfl
    rw [hall]
  | some allowed =>
    show ((Index.build (R := ℝ) u skills).search u query max).filter _ = _
    rw [hsearch, List.filter_map]
    rfl

/-- One reference file for the first skill. -/
def csFiles : SkillFiles where
  files id := if id = "s1" then [{ path := "references/policy.md", content := "Policy" }] else []
  distinct id := by split <;> simp
  named id file hfile := by
    split at hfile
    · rw [List.mem_singleton.mp hfile]
      decide
    · cases hfile

end LendingClaw.Skills
