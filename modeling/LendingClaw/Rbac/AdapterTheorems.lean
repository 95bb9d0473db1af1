/-
LendingClaw.Rbac.AdapterTheorems — which policies survive a restart.

A rule whose fields are all plain comes back as it is. Any other rule
comes back lighter, as another rule, or not at all. So in a policy that
comes back as a whole the heaviest rule that is not plain would have no
rule to come from: there is none, and `policy_roundtrip_iff` is exact.
-/
import LendingClaw.Rbac.Adapter
import Mathlib.Data.Finset.Max

namespace LendingClaw.Rbac

open LendingClaw.Store LendingClaw.Lib

/-! ## Lines -/

/-- The columns that reach the line. -/
def lineFields (values : List String) : List (List Char) :=
  (values.map String.toList).filter (fun f => f ≠ [])

theorem policyLine_toList (row : CasbinRow) :
    (policyLine row).toList = row.pType.toList ++ Csv.joined (lineFields row.values) := by
  unfold policyLine lineFields
  generalize row.pType = line
  induction row.values generalizing line with
  | nil => simp
  | cons v values ih =>
    rw [List.foldl_cons, ih]
    by_cases hv : v = ""
    · subst hv
      simp
    · have hne : v.toList ≠ [] := by
        intro h
        exact hv (String.toList_inj.mp h)
      simp [hv, hne, String.toList_append]

/-- The trimmed fields of a rule that are not empty. -/
def ruleFields (rule : List String) : List (List Char) :=
  (rule.map (fun v => trimChars v.toList)).filter (fun f => f ≠ [])

theorem padRule_values {rule : List String} (h : rule.length ≤ 6) (ptype : String) :
    (padRule ptype rule).values
      = rule.map trimSpace ++ List.replicate (6 - rule.length) "" := by
  match rule, h with
  | [], _ => rfl
  | [a], _ => rfl
  | [a, b], _ => rfl
  | [a, b, c], _ => rfl
  | [a, b, c, d], _ => rfl
  | [a, b, c, d, e], _ => rfl
  | [a, b, c, d, e, f], _ => rfl

theorem lineFields_padRule {rule : List String} (h : rule.length ≤ 6) (ptype : String) :
    lineFields (padRule ptype rule).values = ruleFields rule := by
  have htrim : ∀ v, (trimSpace v).toList = trimChars v.toList := by
    intro v
    simp [trimSpace]
  unfold lineFields ruleFields
  rw [padRule_values h, List.map_append, List.filter_append, List.map_map]
  simp [Function.comp_def, htrim]

/-! ## Loading -/

/-- `m["p"]` and `m["g"]`. -/
def sectionOf (key : String) (m : Model) : List (List String) :=
  if key = "p" then m.p else if key = "g" then m.g else []

/-- What one row adds to its section. -/
structure Loads (casbin : Casbin) (key : String) (row : CasbinRow) (rule : List String) :
    Prop where
  nonempty : policyLine row ≠ ""
  noComment : hasPrefix (policyLine row) "#" = false
  accepted : casbin.accepts key rule = true
  read : ∃ tokens, Csv.readRecord (policyLine row).toList = some tokens
    ∧ tokens.map String.ofList = key :: rule

section
variable {casbin : Casbin} {key : String} {m : Model} {rule : List String}

theorem mem_addRule {policy : List (List String)} {r : List String} :
    rule ∈ addRule casbin key policy r
      ↔ rule ∈ policy ∨ rule = r ∧ casbin.accepts key rule = true := by
  unfold addRule
  by_cases h : casbin.accepts key r = true ∧ r ∉ policy
  · rw [if_pos h, List.mem_append, List.mem_singleton]
    refine or_congr_right ⟨fun hr => ⟨hr, hr ▸ h.1⟩, And.left⟩
  · rw [if_neg h]
    constructor
    · exact Or.inl
    · intro hr
      rcases hr with hr | ⟨rfl, hacc⟩
      · exact hr
      · by_contra hc
        exact h ⟨hacc, hc⟩

theorem mem_loadPolicyArray {tokens : List String} (hkey : key = "p" ∨ key = "g") :
    rule ∈ sectionOf key (loadPolicyArray casbin tokens m)
      ↔ rule ∈ sectionOf key m ∨ tokens = key :: rule ∧ casbin.accepts key rule = true := by
  cases tokens with
  | nil => simp [loadPolicyArray]
  | cons k r =>
    have hpg : ("g" : String) ≠ "p" := by decide
    rw [loadPolicyArray, List.cons.injEq]
    by_cases hp : k = "p"
    · subst hp
      rcases hkey with rfl | rfl
      · simp only [if_true, sectionOf, mem_addRule, true_and, eq_comm]
      · simp [sectionOf]
    · by_cases hg : k = "g"
      · subst hg
        rcases hkey with rfl | rfl
        · simp [sectionOf]
        · simp only [hpg, if_true, if_false, sectionOf, mem_addRule, true_and, eq_comm]
      · have hk : k ≠ key := by
          rcases hkey with rfl | rfl
          · exact hp
          · exact hg
        simp [hp, hg, hk]

theorem mem_loadPolicyLine {row : CasbinRow} (hkey : key = "p" ∨ key = "g") :
    rule ∈ sectionOf key (loadPolicyLine casbin (policyLine row) m)
      ↔ rule ∈ sectionOf key m ∨ Loads casbin key row rule := by
  unfold loadPolicyLine
  by_cases h : policyLine row = "" ∨ hasPrefix (policyLine row) "#" = true
  · rw [if_pos h]
    refine (or_iff_left fun hl => ?_).symm
    rcases h with h | h
    · exact hl.nonempty h
    · rw [hl.noComment] at h
      cases h
  · rw [if_neg h]
    rw [not_or, Bool.not_eq_true] at h
    cases hread : Csv.readRecord (policyLine row).toList with
    | none =>
      refine (or_iff_left fun hl => ?_).symm
      obtain ⟨tokens, ht, -⟩ := hl.read
      rw [hread] at ht
      cases ht
    | some tokens =>
      simp only
      rw [mem_loadPolicyArray hkey]
      refine or_congr_right ⟨fun ht => ⟨h.1, h.2, ht.2, tokens, hread, ht.1⟩, fun hl => ?_⟩
      obtain ⟨tokens', ht, htokens⟩ := hl.read
      rw [hread] at ht
      cases ht
      exact ⟨htokens, hl.accepted⟩

/-- What is loaded is what the rows add. -/
theorem mem_loadPolicy {table : List CasbinRow} (hkey : key = "p" ∨ key = "g") :
    rule ∈ sectionOf key (loadPolicy casbin table) ↔ ∃ row ∈ table, Loads casbin key row rule := by
  have hfold : ∀ (table : List CasbinRow) (m : Model),
      rule ∈ sectionOf key
          (table.foldl (fun m row => loadPolicyLine casbin (policyLine row) m) m)
        ↔ rule ∈ sectionOf key m ∨ ∃ row ∈ table, Loads casbin key row rule := by
    intro table
    induction table with
    | nil => simp
    | cons row table ih =>
      intro m
      rw [List.foldl_cons, ih, mem_loadPolicyLine hkey, or_assoc]
      simp
  unfold loadPolicy
  rw [hfold]
  refine or_iff_right ?_
  rcases hkey with rfl | rfl <;> simp [sectionOf]

/-! ## One rule -/

/-- The weight of a rule. -/
def ruleWeight (rule : List String) : Nat := (rule.map (fun v => Csv.weight v.toList)).sum

/-- A rule all of whose fields are plain. -/
def PlainRule (rule : List String) : Prop := ∀ v ∈ rule, Csv.PlainField v.toList

theorem weight_add_length_le {as bs : List Char} (h : as.Sublist bs) :
    Csv.weight as + bs.length ≤ Csv.weight bs + as.length := by
  induction h with
  | slnil => simp
  | cons c h ih =>
    simp only [Csv.weight_cons, List.length_cons]
    split <;> omega
  | cons_cons c h ih =>
    simp only [Csv.weight_cons, List.length_cons]
    omega

/-- Trimming takes weight away, or does nothing. -/
theorem weight_trimChars (cs : List Char) :
    trimChars cs = cs ∨ Csv.weight (trimChars cs) < Csv.weight cs := by
  have hsub := trimChars_sublist cs
  have hle := weight_add_length_le hsub
  by_cases hlen : cs.length ≤ (trimChars cs).length
  · exact Or.inl (hsub.eq_of_length_le hlen)
  · right
    omega

theorem weight_ruleFields (rule : List String) :
    ((ruleFields rule).map Csv.weight).sum ≤ ruleWeight rule
      ∧ ((∃ v ∈ rule, trimChars v.toList ≠ v.toList) →
        ((ruleFields rule).map Csv.weight).sum < ruleWeight rule) := by
  induction rule with
  | nil => simp [ruleFields, ruleWeight]
  | cons v rule ih =>
    have hhead : ((ruleFields (v :: rule)).map Csv.weight).sum
        = Csv.weight (trimChars v.toList) + ((ruleFields rule).map Csv.weight).sum := by
      by_cases hv : trimChars v.toList = []
      · simp [ruleFields, hv]
      · simp [ruleFields, hv]
    have hrule : ruleWeight (v :: rule) = Csv.weight v.toList + ruleWeight rule := by
      simp [ruleWeight]
    rw [hhead, hrule]
    have hv := weight_trimChars v.toList
    obtain ⟨hle, hlt⟩ := ih
    constructor
    · rcases hv with hv | hv
      · rw [hv]
        omega
      · omega
    · intro hex
      rw [List.exists_mem_cons_iff] at hex
      rcases hv with hv | hv
      · have hrest := hlt (hex.resolve_left fun hc => hc hv)
        rw [hv]
        omega
      · omega

theorem mem_ruleFields {f : List Char} (h : f ∈ ruleFields rule) :
    f ≠ [] ∧ trimChars f = f := by
  unfold ruleFields at h
  rw [List.mem_filter, List.mem_map] at h
  obtain ⟨⟨v, -, rfl⟩, hne⟩ := h
  exact ⟨by simpa using hne, trimChars_trimChars _⟩

/-- The first character of a line, and that casbin reads it. -/
theorem exists_keyChar (hkey : key = "p" ∨ key = "g") :
    ∃ c, key = String.ofList [c] ∧ Csv.KeyChar c := by
  rcases hkey with rfl | rfl
  · exact ⟨'p', rfl, by decide, by decide, by decide, by decide⟩
  · exact ⟨'g', rfl, by decide, by decide, by decide, by decide⟩

theorem policyLine_padRule {c : Char} (h : rule.length ≤ 6) :
    (policyLine (padRule (String.ofList [c]) rule)).toList = c :: Csv.joined (ruleFields rule) := by
  rw [policyLine_toList, lineFields_padRule h]
  simp [padRule]

/-- A rule comes back as it is and plain, or as a lighter one. -/
theorem loads_cases {out : List String} (hkey : key = "p" ∨ key = "g") (hfour : rule.length ≤ 4)
    (hlen : out.length = rule.length) (h : Loads casbin key (padRule key rule) out) :
    out = rule ∧ PlainRule rule ∨ ruleWeight out < ruleWeight rule := by
  obtain ⟨c, rfl, hc⟩ := exists_keyChar hkey
  obtain ⟨tokens, hread, htokens⟩ := h.read
  rw [policyLine_padRule (by omega)] at hread
  obtain ⟨k, fields, rfl⟩ : ∃ k fields, tokens = k :: fields := by
    cases tokens with
    | nil => simp at htokens
    | cons k fields => exact ⟨k, fields, rfl⟩
  rw [List.map_cons, List.cons.injEq] at htokens
  obtain ⟨-, rfl⟩ := htokens
  rw [List.length_map] at hlen
  have hshort : (ruleFields rule).length ≤ rule.length := by
    unfold ruleFields
    exact (List.length_filter_le _ _).trans (List.length_map _).le
  obtain ⟨hle, hlt⟩ := weight_ruleFields rule
  have hout : ruleWeight (fields.map String.ofList) = (fields.map Csv.weight).sum := by
    simp [ruleWeight, Function.comp_def]
  rw [hout]
  rcases hc.readRecord_cases (fun f hf => mem_ruleFields hf) hread (by omega) (by omega) with
    ⟨rfl, hplain⟩ | hloss
  · by_cases hex : ∃ v ∈ rule, trimChars v.toList ≠ v.toList
    · exact Or.inr (hlt hex)
    · push Not at hex
      left
      have hall : ruleFields rule = rule.map String.toList := by
        have hmap : rule.map (fun v => trimChars v.toList) = rule.map String.toList :=
          List.map_congr_left hex
        unfold ruleFields at hlen ⊢
        rw [hmap] at hlen ⊢
        rw [List.filter_eq_self, ← List.length_filter_eq_length_iff, hlen, List.length_map]
      rw [hall] at hplain ⊢
      refine ⟨by simp [Function.comp_def], fun v hv => ?_⟩
      exact hplain v.toList (List.mem_map.mpr ⟨v, hv, rfl⟩)
  · right
    omega

theorem plainRule_loads (hkey : key = "p" ∨ key = "g") (hsix : rule.length ≤ 6)
    (hplain : PlainRule rule) (hacc : casbin.accepts key rule = true) :
    Loads casbin key (padRule key rule) rule := by
  obtain ⟨c, rfl, hc⟩ := exists_keyChar hkey
  have hfields : ruleFields rule = rule.map String.toList := by
    have hmap : rule.map (fun v => trimChars v.toList) = rule.map String.toList :=
      List.map_congr_left fun v hv => (hplain v hv).trimmed
    unfold ruleFields
    rw [hmap, List.filter_eq_self]
    intro f hf
    obtain ⟨v, hv, rfl⟩ := List.mem_map.mp hf
    simpa using (hplain v hv).nonempty
  have hline := policyLine_padRule (c := c) hsix
  have hread := hc.readRecord_joined (fun f hf => by
    obtain ⟨v, hv, rfl⟩ := List.mem_map.mp hf
    exact hplain v hv : ∀ f ∈ rule.map String.toList, Csv.PlainField f)
  rw [hfields] at hline
  refine ⟨fun hnil => ?_, ?_, hacc, [c] :: rule.map String.toList, ?_, ?_⟩
  · rw [hnil] at hline
    simp at hline
  · rw [hasPrefix, hline]
    simp [List.isPrefixOf, Ne.symm hc.comment]
  · rw [hline]
    exact hread
  · simp [Function.comp_def]

theorem Loads.unique {row : CasbinRow} {out : List String} (h : Loads casbin key row rule)
    (h' : Loads casbin key row out) : out = rule := by
  obtain ⟨tokens, ht, htokens⟩ := h.read
  obtain ⟨tokens', ht', htokens'⟩ := h'.read
  rw [ht] at ht'
  cases ht'
  rw [htokens] at htokens'
  exact (List.cons.inj htokens').2.symm

/-! ## A section -/

/-- A section of rules of one size comes back as the same set of rules if
and only if they are all plain. -/
theorem section_roundtrip_iff {rules : List (List String)} {n : Nat}
    (hkey : key = "p" ∨ key = "g") (hn : n ≤ 4) (hrules : ∀ r ∈ rules, r.length = n)
    (hacc : ∀ r : List String, r.length = n → casbin.accepts key r = true) :
    (∀ out, (∃ r ∈ rules, Loads casbin key (padRule key r) out) ↔ out ∈ rules)
      ↔ ∀ r ∈ rules, PlainRule r := by
  classical
  constructor
  · intro h
    by_contra hbad
    push Not at hbad
    obtain ⟨r₀, hr₀, hplain₀⟩ := hbad
    -- the heaviest rule that is not plain
    obtain ⟨r, hr, hmax⟩ := Finset.exists_max_image
      (rules.toFinset.filter (fun r => ¬ PlainRule r)) ruleWeight
      ⟨r₀, by simp [hr₀, hplain₀]⟩
    simp only [Finset.mem_filter, List.mem_toFinset] at hr hmax
    obtain ⟨r', hr', hloads⟩ := (h r).mpr hr.1
    have hlen : r.length = r'.length := (hrules r hr.1).trans (hrules r' hr').symm
    rcases loads_cases hkey ((hrules r' hr').trans_le hn) hlen hloads with ⟨rfl, hp⟩ | hlt
    · exact hr.2 hp
    · have hnot : ¬ PlainRule r' := by
        intro hp
        have hself := plainRule_loads hkey (by rw [hrules r' hr']; omega) hp
          (hacc r' (hrules r' hr'))
        rw [hself.unique hloads] at hlt
        exact lt_irrefl _ hlt
      exact absurd (hmax r' ⟨hr', hnot⟩) (by omega)
  · intro h out
    constructor
    · intro hout
      obtain ⟨r, hr, hloads⟩ := hout
      have hself := plainRule_loads hkey (by rw [hrules r hr]; omega) (h r hr)
        (hacc r (hrules r hr))
      rw [hself.unique hloads]
      exact hr
    · intro hout
      exact ⟨out, hout, plainRule_loads hkey (by rw [hrules out hout]; omega) (h out hout)
        (hacc out (hrules out hout))⟩

end

/-! ## The whole policy -/

theorem insertAll_eq {insertable : List CasbinRow → CasbinRow → Bool} {rows : List CasbinRow} :
    ∀ {table final : List CasbinRow}, insertAll insertable table rows = some final →
      final = table ++ rows := by
  induction rows with
  | nil =>
    intro table final h
    simp only [insertAll, Option.some.injEq] at h
    simp [h]
  | cons row rows ih =>
    intro table final h
    rw [insertAll] at h
    split at h
    · simp [ih h]
    · cases h

/-- The same sets of rules. -/
def SameRules (m m' : Model) : Prop :=
  (∀ rule, rule ∈ m'.p ↔ rule ∈ m.p) ∧ ∀ rule, rule ∈ m'.g ↔ rule ∈ m.g

theorem Policy.length_p (pol : Policy) {rule : List String} (h : rule ∈ pol.p) :
    rule.length = 4 := by
  obtain ⟨name, dom, perm, -, -, rfl⟩ := pol.p_rules rule h
  rfl

theorem Policy.length_g (pol : Policy) {rule : List String} (h : rule ∈ pol.g) :
    rule.length = 3 := by
  obtain ⟨sub, role, dom, -, -, rfl⟩ := pol.g_rules rule h
  rfl

/-- Rows of another key add nothing to a section. -/
theorem loads_padRule_key {casbin : Casbin} {key key' : String} {r out : List String}
    (hkey : key = "p" ∨ key = "g") (hkey' : key' = "p" ∨ key' = "g") (hsix : r.length ≤ 6)
    (h : Loads casbin key (padRule key' r) out) : key' = key := by
  obtain ⟨c, rfl, hc⟩ := exists_keyChar hkey'
  obtain ⟨d, rfl, -⟩ := exists_keyChar hkey
  obtain ⟨tokens, hread, htokens⟩ := h.read
  rw [policyLine_padRule hsix, hc.readRecord] at hread
  obtain ⟨fields, -, rfl⟩ := Option.map_eq_some_iff.mp hread
  have hfirst := congrArg String.toList (List.cons.inj htokens).1
  simp only [String.toList_ofList, List.cons.injEq] at hfirst
  rw [hfirst.1]

theorem mem_saved {casbin : Casbin} {insertable : List CasbinRow → CasbinRow → Bool}
    {pol : Policy} {table : List CasbinRow} (hsave : savePolicy insertable pol.toModel = some table)
    {key : String} (hkey : key = "p" ∨ key = "g") (out : List String) :
    out ∈ sectionOf key (loadPolicy casbin table)
      ↔ ∃ r ∈ sectionOf key pol.toModel, Loads casbin key (padRule key r) out := by
  have htable : table = pol.p.map (padRule "p") ++ pol.g.map (padRule "g") := by
    simpa using insertAll_eq hsave
  rw [mem_loadPolicy hkey, htable]
  constructor
  · intro h
    obtain ⟨row, hrow, hl⟩ := h
    rw [List.mem_append, List.mem_map, List.mem_map] at hrow
    rcases hrow with ⟨r, hr, rfl⟩ | ⟨r, hr, rfl⟩
    · have hlen := pol.length_p hr
      have heq := loads_padRule_key hkey (Or.inl rfl) (by omega) hl
      subst heq
      exact ⟨r, hr, hl⟩
    · have hlen := pol.length_g hr
      have heq := loads_padRule_key hkey (Or.inr rfl) (by omega) hl
      subst heq
      exact ⟨r, hr, hl⟩
  · intro h
    obtain ⟨r, hr, hl⟩ := h
    refine ⟨padRule key r, ?_, hl⟩
    rw [List.mem_append, List.mem_map, List.mem_map]
    rcases hkey with rfl | rfl
    · exact Or.inl ⟨r, hr, rfl⟩
    · exact Or.inr ⟨r, hr, rfl⟩

/-- A policy that is saved comes back from the table as the same sets of
rules if and only if every field of every rule is plain. -/
theorem policy_roundtrip_iff (casbin : Casbin)
    (insertable : List CasbinRow → CasbinRow → Bool) (pol : Policy) (table : List CasbinRow)
    (hsave : savePolicy insertable pol.toModel = some table) :
    SameRules pol.toModel (loadPolicy casbin table)
      ↔ ∀ rule ∈ pol.p ++ pol.g, PlainRule rule := by
  have hp := section_roundtrip_iff (Or.inl rfl) (by omega : 4 ≤ 4)
    (fun r hr => pol.length_p hr) casbin.accepts_p
  have hg := section_roundtrip_iff (Or.inr rfl) (by omega : 3 ≤ 4)
    (fun r hr => pol.length_g hr) casbin.accepts_g
  have hmem_p : ∀ out, out ∈ (loadPolicy casbin table).p
      ↔ ∃ r ∈ pol.p, Loads casbin "p" (padRule "p" r) out := mem_saved hsave (Or.inl rfl)
  have hmem_g : ∀ out, out ∈ (loadPolicy casbin table).g
      ↔ ∃ r ∈ pol.g, Loads casbin "g" (padRule "g" r) out := mem_saved hsave (Or.inr rfl)
  simp only [List.mem_append, or_imp, forall_and]
  rw [← hp, ← hg]
  unfold SameRules
  refine and_congr (forall_congr' fun out => ?_) (forall_congr' fun out => ?_)
  · rw [← hmem_p out]
  · rw [← hmem_g out]

/-! ### A permission with a comma -/

/-- The size check of casbin's model, and nothing else. -/
def sizeCheck : Casbin :=
  { accepts := fun key rule =>
      key == "p" && rule.length == 4 || key == "g" && decide (3 ≤ rule.length)
    accepts_p := by
      intro rule h
      simp [h]
    accepts_g := by
      intro rule h
      simp [h] }

/-- The unique index and the widths of the columns. -/
def uniqueIndex (table : List CasbinRow) (row : CasbinRow) : Bool :=
  !table.contains row && row.values.all (fun v => decide (v.length ≤ 100))

/-- One role with one permission and one member. -/
def oneRole (role perm sub : String) (hr : role ≠ "") (hp : perm ≠ "") (hs : sub ≠ "") :
    Policy :=
  { p := [policyRule role defaultWorkspaceID perm]
    g := [groupingRule sub role defaultWorkspaceID]
    p_rules := by
      intro rule h
      exact ⟨role, defaultWorkspaceID, perm, hr, hp, List.mem_singleton.mp h⟩
    g_rules := by
      intro rule h
      exact ⟨sub, role, defaultWorkspaceID, hs, hr, List.mem_singleton.mp h⟩ }

/-- The permission of a remote function whose name has a comma. -/
def commaPolicy : Policy :=
  oneRole "analyst" "mcp:jira:search,list" "alice" (by decide) (by decide) (by decide)

/-- The policy is saved, and the role comes back without its permission. -/
theorem comma_permission_is_lost :
    ∃ table, savePolicy uniqueIndex commaPolicy.toModel = some table
      ∧ (loadPolicy sizeCheck table).p = []
      ∧ ¬ SameRules commaPolicy.toModel (loadPolicy sizeCheck table) := by
  have hlost : (loadPolicy sizeCheck
      [padRule "p" (policyRule "analyst" defaultWorkspaceID "mcp:jira:search,list"),
        padRule "g" (groupingRule "alice" "analyst" defaultWorkspaceID)]).p = [] := by
    decide +kernel
  refine ⟨_, rfl, hlost, fun h => ?_⟩
  have hrule := (h.1 (policyRule "analyst" defaultWorkspaceID "mcp:jira:search,list")).mpr
    List.mem_cons_self
  exact List.not_mem_nil (hlost ▸ hrule)

/-- A role over plain names. -/
theorem policy_roundtrip_iff_plain :
    SameRules
        (oneRole "analyst" "tool:memory_set" "alice" (by decide) (by decide) (by decide)).toModel
        (loadPolicy sizeCheck
          [padRule "p" (policyRule "analyst" defaultWorkspaceID "tool:memory_set"),
            padRule "g" (groupingRule "alice" "analyst" defaultWorkspaceID)])
      ↔ ∀ rule ∈ [policyRule "analyst" defaultWorkspaceID "tool:memory_set"]
          ++ [groupingRule "alice" "analyst" defaultWorkspaceID], PlainRule rule :=
  policy_roundtrip_iff sizeCheck uniqueIndex
    (oneRole "analyst" "tool:memory_set" "alice" (by decide) (by decide) (by decide)) _
    (by decide)

end LendingClaw.Rbac
