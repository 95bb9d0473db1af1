/-
LendingClaw.Skills.RealScores — the search scores over the reals: every
query term that a skill has adds to its score, so a query finds a skill
just if it has a word (`findable_iff`). Rounding, which the reals do not
have, is left out.
-/
import LendingClaw.Skills.Search
import Mathlib.Analysis.SpecialFunctions.Log.Basic

namespace LendingClaw.Skills

noncomputable instance : Number ℝ where
  add := (· + ·)
  sub := (· - ·)
  mul := (· * ·)
  div := (· / ·)
  ofNat := Nat.cast
  ofScientific := OfScientific.ofScientific
  lt := (· < ·)
  decLT := inferInstanceAs (DecidableLT ℝ)
  log := Real.log

variable {u : Unicode}

/-- The score in the terms of the reals. -/
theorem termScore_real (idx : Index ℝ) (doc : SkillDoc) (score : ℝ) (qt : String) :
    idx.termScore doc score qt
      = if doc.tokens.count qt = 0 then score
        else
          score + Real.log ((idx.docs.length - idx.df qt + 0.5) / (idx.df qt + 0.5) + 1.0)
              * (doc.tokens.count qt * (idx.k1 + 1.0))
            / (doc.tokens.count qt
              + idx.k1 * (1.0 - idx.b + idx.b * doc.tokens.length / idx.avgDL)) := rfl

theorem avgDL_nonneg (skills : List Skill) : 0 ≤ (Index.build (R := ℝ) u skills).avgDL := by
  have havg : (Index.build (R := ℝ) u skills).avgDL
      = if skills.map (SkillDoc.of u) = [] then (0.0 : ℝ)
        else ((skills.map (SkillDoc.of u)).foldl (fun total doc => total + doc.tokens.length) 0 : Nat)
          / ((skills.map (SkillDoc.of u)).length : ℝ) := rfl
  rw [havg]
  split
  · norm_num
  · positivity

/-- A term of the document adds to the score. -/
theorem lt_termScore (skills : List Skill) {doc : SkillDoc} {qt : String} (hqt : qt ∈ doc.tokens)
    (score : ℝ) : score < (Index.build u skills).termScore doc score qt := by
  have hcount : doc.tokens.count qt ≠ 0 := (List.count_pos_iff.mpr hqt).ne'
  rw [termScore_real, if_neg hcount]
  have htf : (0 : ℝ) < doc.tokens.count qt := Nat.cast_pos.mpr (Nat.pos_of_ne_zero hcount)
  have hdf : ((Index.build (R := ℝ) u skills).df qt : ℝ) ≤ (Index.build (R := ℝ) u skills).docs.length :=
    Nat.cast_le.mpr List.countP_le_length
  have hk1 : (Index.build (R := ℝ) u skills).k1 = 1.2 := rfl
  have hb : (Index.build (R := ℝ) u skills).b = 0.75 := rfl
  have havg := avgDL_nonneg (u := u) skills
  rw [hk1, hb]
  generalize (Index.build (R := ℝ) u skills).avgDL = avgDL at havg
  generalize ((Index.build (R := ℝ) u skills).docs.length : ℝ) = n at hdf
  have hdf0 : (0 : ℝ) ≤ (Index.build (R := ℝ) u skills).df qt := Nat.cast_nonneg _
  generalize ((Index.build (R := ℝ) u skills).df qt : ℝ) = df at hdf hdf0
  have hidf : 0 < Real.log ((n - df + 0.5) / (df + 0.5) + 1.0) := by
    apply Real.log_pos
    have hnum : 0 < n - df + 0.5 := by linarith
    have hquot : 0 < (n - df + 0.5) / (df + 0.5) := by positivity
    norm_num at hquot ⊢
    linarith
  have hdl : 0 ≤ 0.75 * (doc.tokens.length : ℝ) / avgDL := by positivity
  have hden : (0 : ℝ) < doc.tokens.count qt
      + 1.2 * (1.0 - 0.75 + 0.75 * doc.tokens.length / avgDL) := by
    norm_num at hdl ⊢
    linarith
  have hadd : 0 < Real.log ((n - df + 0.5) / (df + 0.5) + 1.0)
      * (doc.tokens.count qt * (1.2 + 1.0))
        / (doc.tokens.count qt + 1.2 * (1.0 - 0.75 + 0.75 * doc.tokens.length / avgDL)) := by
    positivity
  linarith

theorem le_termScore (skills : List Skill) (doc : SkillDoc) (score : ℝ) (qt : String) :
    score ≤ (Index.build u skills).termScore doc score qt := by
  by_cases hqt : qt ∈ doc.tokens
  · exact (lt_termScore skills hqt score).le
  · rw [termScore_real, if_pos (List.count_eq_zero.mpr hqt)]

theorem le_foldl_termScore (skills : List Skill) (doc : SkillDoc) (tokens : List String) (score : ℝ) :
    score ≤ tokens.foldl ((Index.build u skills).termScore doc) score := by
  induction tokens generalizing score with
  | nil => exact le_refl score
  | cons qt tokens ih => exact (le_termScore skills doc score qt).trans (ih _)

/-- A document without words scores nothing. -/
theorem score_no_tokens (idx : Index ℝ) {doc : SkillDoc} (hnone : doc.tokens = [])
    (queryTokens : List String) : idx.score queryTokens doc = (0.0 : ℝ) := by
  unfold Index.score
  induction queryTokens with
  | nil => rfl
  | cons qt queryTokens ih =>
    have hzero : doc.tokens.count qt = 0 := by rw [hnone, List.count_nil]
    rw [List.foldl_cons, termScore_real, if_pos hzero]
    exact ih

/-- A query can find a skill just if its name or description has a
word. -/
theorem findable_iff {skills : List Skill} {s : Skill} (hs : s ∈ skills) :
    Findable u ℝ skills s ↔ tokenize u (searchText s) ≠ [] := by
  constructor
  · intro ⟨query, r, hr, hskill⟩ hnone
    obtain ⟨-, hdoc, hscore, hpos⟩ := (mem_ranked u).mp hr
    obtain ⟨t, -, htokens⟩ := List.mem_map.mp hdoc
    obtain rfl : t = s := by
      rw [← hskill, ← htokens]
      rfl
    have hempty : r.doc.tokens = [] := by
      rw [← htokens]
      exact hnone
    rw [hscore, score_no_tokens _ hempty] at hpos
    exact absurd hpos (lt_irrefl _)
  · intro htokens
    let doc := SkillDoc.of u s
    let r : Scored ℝ :=
      { doc := doc, score := (Index.build u skills).score (tokenize u (searchText s)) doc }
    refine ⟨searchText s, r, (mem_ranked u).mpr ⟨htokens, List.mem_map_of_mem hs, rfl, ?_⟩, rfl⟩
    show (0.0 : ℝ) < (tokenize u (searchText s)).foldl ((Index.build u skills).termScore doc) 0.0
    obtain ⟨qt, tokens, heq⟩ := List.exists_cons_of_ne_nil htokens
    have hqt : qt ∈ doc.tokens := by
      show qt ∈ tokenize u (searchText s)
      rw [heq]
      exact List.mem_cons_self
    rw [heq, List.foldl_cons]
    exact (lt_termScore skills hqt _).trans_le (le_foldl_termScore skills doc tokens _)

end LendingClaw.Skills
