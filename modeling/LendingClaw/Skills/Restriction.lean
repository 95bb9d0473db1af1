/-
LendingClaw.Skills.Restriction — when the accessors of the skill cache
show what a workspace of the allowed skills alone would show.

`Get`, `List` and the unused `BuildSummaryFiltered` always do
(`get_restricted`, `list_restricted`, `summary_filtered`). `Search` keeps
what is allowed by name, and after it has cut the ranking; `Count` and
`BuildSummary` show everything. `restricted_iff` puts them together.
-/
import LendingClaw.Skills.Cache

namespace LendingClaw.Skills

section
variable {R : Type} [Number R] (u : Unicode)

/-! ## The property -/

/-- The names and ids of a restriction. -/
def AllowedSkills.elems (ctx : AllowedSkills) : List String := ctx.getD []

/-- Allowed by name or by id. -/
def Skill.Allowed (ctx : AllowedSkills) (s : Skill) : Prop := s.name ∈ ctx.elems ∨ s.id ∈ ctx.elems

instance (ctx : AllowedSkills) : DecidablePred (Skill.Allowed ctx) :=
  fun _ => inferInstanceAs (Decidable (_ ∨ _))

/-- The skills that are allowed. -/
def allowedSkills (ctx : AllowedSkills) (skills : List Skill) : List Skill :=
  skills.filter fun s => s.Allowed ctx

variable (R) in
/-- The accessors under a restriction, against those of a workspace that
has the allowed skills and no restriction. A search keeps the order of
the ranking of all skills. Nothing that is shown is of another skill. -/
structure Restricted (skills : List Skill) (ctx : AllowedSkills) : Prop where
  get : ∀ name, (WsEntry.load (R := R) u skills).get ctx name
    = (WsEntry.load (R := R) u (allowedSkills ctx skills)).get none name
  list : (WsEntry.load (R := R) u skills).list ctx
    = (WsEntry.load (R := R) u (allowedSkills ctx skills)).list none
  count : (WsEntry.load (R := R) u skills).count ctx
    = (WsEntry.load (R := R) u (allowedSkills ctx skills)).count none
  summary : ∀ maxInline, (WsEntry.load (R := R) u skills).buildSummary u ctx maxInline
    = (WsEntry.load (R := R) u (allowedSkills ctx skills)).buildSummary u none maxInline
  search : ∀ query maxResults, (WsEntry.load (R := R) u skills).search u ctx query maxResults
    = ((((Index.build u skills).ranked u query).filter fun r => r.doc.skill.Allowed ctx).take
        (limit maxResults)).map Scored.toResult
  shown_get : ∀ name s, (WsEntry.load (R := R) u skills).get ctx name = some s → s.Allowed ctx
  shown_list : ∀ s ∈ (WsEntry.load (R := R) u skills).list ctx, s.Allowed ctx
  shown_summary : ∀ maxInline, ∃ shown : List Skill, (∀ s ∈ shown, s.Allowed ctx)
    ∧ (WsEntry.load (R := R) u skills).buildSummary u ctx maxInline
      = buildSummaryWithSkills u shown maxInline
  shown_search : ∀ query maxResults,
    ∀ r ∈ (WsEntry.load (R := R) u skills).search u ctx query maxResults,
      ∃ s ∈ skills, s.Allowed ctx ∧ r.name = s.name ∧ r.description = s.description

/-! ## Accessor by accessor -/

theorem list_restricted (skills : List Skill) (allowed : List String) :
    (WsEntry.load (R := R) u skills).list (some allowed) = allowedSkills (some allowed) skills := rfl

theorem summary_filtered (skills : List Skill) (maxInline : Int) (allowed : List String) :
    (WsEntry.load (R := R) u skills).buildSummaryFiltered u maxInline allowed
      = (WsEntry.load (R := R) u (allowedSkills (some allowed) skills)).buildSummary u none maxInline := by
  unfold WsEntry.buildSummaryFiltered
  split
  · rename_i hnil
    obtain rfl : skills = [] := hnil
    rfl
  · rfl

/-- Names are unique in a workspace. -/
theorem get_restricted {skills : List Skill} (hnames : (skills.map Skill.name).Nodup)
    (allowed : List String) (name : String) :
    (WsEntry.load (R := R) u skills).get (some allowed) name
      = (WsEntry.load (R := R) u (allowedSkills (some allowed) skills)).get none name := by
  unfold WsEntry.get allowedSkills WsEntry.load
  induction skills with
  | nil => rfl
  | cons s skills ih =>
    rw [List.map_cons, List.nodup_cons] at hnames
    by_cases hname : s.name = name
    · subst hname
      by_cases hallowed : s.Allowed (some allowed)
      · have hmem : s.name ∈ allowed ∨ s.id ∈ allowed := hallowed
        simp [hallowed, hmem]
      · have hmem : ¬ (s.name ∈ allowed ∨ s.id ∈ allowed) := hallowed
        have hnone : (skills.filter fun s => s.Allowed (some allowed)).find?
            (fun t => t.name == s.name) = none := by
          rw [List.find?_eq_none]
          intro t ht htname
          have hmapped := List.mem_map_of_mem (f := Skill.name) (List.mem_filter.mp ht).1
          rw [eq_of_beq htname] at hmapped
          exact hnames.1 hmapped
        simp [hallowed, hmem, hnone]
    · have hskip : (s.name == name) = false := beq_false_of_ne hname
      specialize ih hnames.2
      by_cases hallowed : s.Allowed (some allowed)
      · simpa [hallowed, hskip] using ih
      · simpa [hallowed, hskip] using ih

/-! ## All accessors -/

/-- A restriction to all there is. -/
theorem allowedSkills_eq_self {skills : List Skill} {ctx : AllowedSkills}
    (hall : ∀ s ∈ skills, s.Allowed ctx) : allowedSkills ctx skills = skills := by
  rw [allowedSkills, List.filter_eq_self]
  intro s hs
  exact decide_eq_true (hall s hs)

/-- `Count` tells whether a skill is left out. -/
theorem allowed_of_count {skills : List Skill} {ctx : AllowedSkills}
    (hcount : (WsEntry.load (R := R) u skills).count ctx
      = (WsEntry.load (R := R) u (allowedSkills ctx skills)).count none) :
    ∀ s ∈ skills, s.Allowed ctx := by
  intro s hs
  have hlength : (allowedSkills ctx skills).length = skills.length := hcount.symm
  exact of_decide_eq_true (List.length_filter_eq_length_iff.mp hlength s hs)

/-- No list is nil but for an empty workspace. -/
theorem eq_nil_of_allowed_none {skills : List Skill} (hall : ∀ s ∈ skills, s.Allowed none) :
    skills = [] := by
  rw [List.eq_nil_iff_forall_not_mem]
  intro s hs
  rcases hall s hs with hname | hid
  · exact absurd hname List.not_mem_nil
  · exact absurd hid List.not_mem_nil

/-- Then the whole ranking is allowed. -/
theorem filter_ranked {skills : List Skill} {ctx : AllowedSkills} (hall : ∀ s ∈ skills, s.Allowed ctx)
    (query : String) :
    ((Index.build (R := R) u skills).ranked u query).filter (fun r => r.doc.skill.Allowed ctx)
      = (Index.build u skills).ranked u query := by
  rw [List.filter_eq_self]
  intro r hr
  exact decide_eq_true (hall _ (skill_of_ranked u hr))

/-- A search with room for all it finds shows the skill. -/
theorem name_of_search {skills : List Skill} {allowed : List String}
    (hall : ∀ s ∈ skills, s.Allowed (some allowed))
    (hsearch : ∀ query maxResults,
      (WsEntry.load (R := R) u skills).search u (some allowed) query maxResults
        = ((((Index.build u skills).ranked u query).filter
            fun r => r.doc.skill.Allowed (some allowed)).take (limit maxResults)).map Scored.toResult)
    {s : Skill} (hfind : Findable u R skills s) : s.name ∈ allowed := by
  obtain ⟨query, r, hr, rfl⟩ := hfind
  let ranking := (Index.build (R := R) u skills).ranked u query
  have hlimit : limit ranking.length = ranking.length := by
    have hpos : 0 < ranking.length := List.length_pos_of_mem hr
    unfold limit
    rw [if_neg (by omega)]
    omega
  have hfound := hsearch query ranking.length
  rw [filter_ranked u hall, hlimit, List.take_length] at hfound
  have hmem : r.toResult ∈ (WsEntry.load (R := R) u skills).search u (some allowed) query
      ranking.length := by
    rw [hfound]
    exact List.mem_map_of_mem hr
  exact of_decide_eq_true (List.mem_filter.mp hmem).2

/-- The cut ranking has no name to drop. -/
theorem search_unfiltered {skills : List Skill} {ctx : AllowedSkills}
    (hnames : ∀ s ∈ skills, Findable u R skills s → s.name ∈ ctx.elems)
    (query : String) (maxResults : Int) :
    (WsEntry.load (R := R) u skills).search u ctx query maxResults
      = (((Index.build u skills).ranked u query).take (limit maxResults)).map Scored.toResult := by
  cases ctx with
  | none => rfl
  | some allowed =>
    refine List.filter_eq_self.mpr ?_
    intro result hresult
    obtain ⟨r, hr, rfl⟩ := List.mem_map.mp hresult
    have hranked := List.mem_of_mem_take hr
    exact decide_eq_true (hnames _ (skill_of_ranked u hranked) ⟨query, r, hranked, rfl⟩)

variable (R) in
/-- The accessors keep to a restriction if and only if it allows every
skill of the workspace, and by its name every skill that a query can
find. -/
theorem restricted_iff (skills : List Skill) (ctx : AllowedSkills) :
    Restricted R u skills ctx
      ↔ ∀ s ∈ skills, s.Allowed ctx ∧ (Findable u R skills s → s.name ∈ ctx.elems) := by
  constructor
  · intro h s hs
    have hall := allowed_of_count u h.count
    refine ⟨hall s hs, ?_⟩
    cases ctx with
    | none =>
      rw [eq_nil_of_allowed_none hall] at hs
      exact absurd hs List.not_mem_nil
    | some allowed => exact name_of_search u hall h.search
  · intro h
    have hall : ∀ s ∈ skills, s.Allowed ctx := fun s hs => (h s hs).1
    have hself := allowedSkills_eq_self hall
    have hget : ∀ name, (WsEntry.load (R := R) u skills).get ctx name
        = skills.find? (fun s => s.name == name) := by
      intro name
      cases ctx with
      | none => rfl
      | some allowed =>
        unfold WsEntry.get WsEntry.load
        cases hfind : skills.find? (fun s => s.name == name) with
        | none => simp only
        | some found =>
          simp only
          exact if_pos (hall found (List.mem_of_find?_eq_some hfind))
    have hlist : (WsEntry.load (R := R) u skills).list ctx = skills := by
      cases ctx with
      | none => rfl
      | some allowed => exact hself
    have hsearch := search_unfiltered u (fun s hs => (h s hs).2)
    constructor
    · intro name
      rw [hself, hget]
      rfl
    · rw [hself, hlist]
      rfl
    · rw [hself]
      rfl
    · intro maxInline
      rw [hself]
      rfl
    · intro query maxResults
      rw [hsearch, filter_ranked u hall]
    · intro name s hs
      rw [hget] at hs
      exact hall s (List.mem_of_find?_eq_some hs)
    · rw [hlist]
      exact hall
    · intro maxInline
      exact ⟨skills, hall, rfl⟩
    · intro query maxResults result hresult
      rw [hsearch] at hresult
      obtain ⟨r, hr, rfl⟩ := List.mem_map.mp hresult
      have hskill := skill_of_ranked u (List.mem_of_mem_take hr)
      exact ⟨r.doc.skill, hskill, hall _ hskill, rfl, rfl⟩

end

/-! ### Two skills, one allowed -/

/-- The letters and digits of ASCII. -/
def asciiUnicode : Unicode where
  toLower s := String.ofList (s.toList.map Char.toLower)
  isLetter := Char.isAlpha
  isDigit := Char.isDigit
  isPrint c := decide (0x20 ≤ c.toNat ∧ c.toNat < 0x7f)

def csSkills : List Skill :=
  [{ id := "s1", name := "cs_ticket_triage", description := "Triage of tickets", content := "" },
   { id := "s2", name := "loan_investigation", description := "Loans", content := "" }]

/-- `Count` counts the skill that is not allowed. -/
theorem count_ignores_restriction :
    ¬ Restricted Float asciiUnicode csSkills (some ["loan_investigation"]) := by
  intro h
  exact absurd h.count (by decide)

/-- And the system prompt names it. -/
example :
    resolveSkillsSummary asciiUnicode (some (WsEntry.load (R := Float) asciiUnicode csSkills))
        (some ["loan_investigation"])
      = "<available_skills>\n  <skill name=\"cs_ticket_triage\">Triage of tickets</skill>\n"
        ++ "  <skill name=\"loan_investigation\">Loans</skill>\n</available_skills>" := by
  decide +kernel

end LendingClaw.Skills
