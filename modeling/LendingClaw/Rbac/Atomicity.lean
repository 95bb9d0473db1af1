/-
LendingClaw.Rbac.Atomicity — role edits that fail half-way
(`pkg/rbac/enforcer.go`, with the adapter's incremental writes in
`pkg/rbac/adapter.go`).

Casbin saves each rule as it changes: the adapter's statement first, and
the memory once it has succeeded. `SavePolicy` then replaces the table in
one transaction. Nothing takes the changes back when a later call fails,
so a failed edit leaves no trace exactly when what it had written by then
is what it had taken away: `role_edits_atomic_iff`.

How the database compares a column with a value is a parameter.
-/
import LendingClaw.Rbac.Policies

namespace LendingClaw.Rbac

open LendingClaw.Store CasbinEnforcer CasbinPolicy

/-- What the enforcer has in memory, and the `casbin_rules` table. -/
structure PolicyStore (σ : Type) where
  memory : σ
  table : List CasbinRow

/-- The WHERE clause of the adapter's `RemoveFilteredPolicy`. -/
def rowMatches (sameText : String → String → Bool) (ptype : String) (fieldIndex : Nat)
    (fieldValues : List String) (row : CasbinRow) : Bool :=
  sameText row.pType ptype
    && (fieldValues.zipIdx fieldIndex).all
        (fun vi => vi.1 == "" || sameText ((row.values[vi.2]?).getD "") vi.1)

/-- The rule of one permission of a role. -/
def permissionRule (dom name perm : String) : List String := [name, dom, perm, actionAccess]

namespace PolicyStore

section
variable {σ : Type} [CasbinEnforcer σ]

/-- `AddPolicy`, served: a rule that is there already is not written. -/
def addPolicy (s : PolicyStore σ) (rule : List String) : PolicyStore σ :=
  { memory := CasbinEnforcer.addPolicy s.memory rule
    table := if (getPolicy s.memory).contains rule then s.table else s.table ++ [padRule "p" rule] }

/-- `RemoveFilteredPolicy`, served. -/
def removeFilteredPolicy (sameText : String → String → Bool) (s : PolicyStore σ)
    (fieldIndex : Nat) (fieldValues : List String) : PolicyStore σ :=
  { memory := CasbinEnforcer.removeFilteredPolicy s.memory fieldIndex fieldValues
    table := s.table.filter (fun row => !rowMatches sameText "p" fieldIndex fieldValues row) }

/-- `SavePolicy`: one transaction, all rows or none. -/
def savePolicy (s : PolicyStore σ) (save : Fault) : PolicyStore σ × Option RbacError :=
  match save with
  | some err => (s, some (.other err))
  | none =>
    ({ s with
        table := (getPolicy s.memory).map (padRule "p")
          ++ (getGroupingPolicy s.memory).map (padRule "g") }, none)

/-- The loop over the permissions. -/
def addPermissions (s : PolicyStore σ) (dom name : String) (faults : Nat → Fault) :
    (i : Nat) → List String → PolicyStore σ × Option RbacError
  | _, [] => (s, none)
  | i, perm :: perms =>
    match faults i with
    | some err => (s, some (.other ("add policy: " ++ err)))
    | none => addPermissions (s.addPolicy (permissionRule dom name perm)) dom name faults
        (i + 1) perms

/-- The permissions, then `SavePolicy`. -/
def setPermissions (s : PolicyStore σ) (dom name : String) (perms : List String)
    (f : RoleFaults) : PolicyStore σ × Option RbacError :=
  match s.addPermissions dom name f.add 0 perms with
  | (s, some err) => (s, some err)
  | (s, none) => s.savePolicy f.save

/-- `CreateRole`. -/
def createRole (s : PolicyStore σ) (dom name : String) (perms : List String) (f : RoleFaults) :
    PolicyStore σ × Option RbacError :=
  if getFilteredPolicy s.memory 0 [name, dom] ≠ [] then
    (s, some (.other ("role \x22" ++ name ++ "\x22 already exists")))
  else s.setPermissions dom name perms f

/-- `UpdateRole`. -/
def updateRole (sameText : String → String → Bool) (s : PolicyStore σ) (dom name : String)
    (perms : List String) (f : RoleFaults) : PolicyStore σ × Option RbacError :=
  match f.remove with
  | some err => (s, some (.other ("remove old policies: " ++ err)))
  | none => (s.removeFilteredPolicy sameText 0 [name, dom]).setPermissions dom name perms f

/-! ## In memory -/

theorem addPermissions_memory (dom name : String) (faults : Nat → Fault) :
    ∀ (perms : List String) (s : PolicyStore σ) (i : Nat),
      ((s.addPermissions dom name faults i perms).1.memory,
          (s.addPermissions dom name faults i perms).2)
        = Rbac.addPermissions s.memory dom name faults i perms := by
  intro perms
  induction perms with
  | nil =>
    intro s i
    rfl
  | cons perm perms ih =>
    intro s i
    rw [addPermissions, Rbac.addPermissions]
    cases faults i with
    | some err => rfl
    | none => exact ih (s.addPolicy (permissionRule dom name perm)) (i + 1)

theorem setPermissions_memory (s : PolicyStore σ) (dom name : String) (perms : List String)
    (f : RoleFaults) :
    ((s.setPermissions dom name perms f).1.memory, (s.setPermissions dom name perms f).2)
      = Rbac.setPermissions s.memory dom name perms f := by
  have h := addPermissions_memory dom name f.add perms s 0
  rw [setPermissions, Rbac.setPermissions, ← h]
  cases hadd : s.addPermissions dom name f.add 0 perms with
  | mk s' err =>
    cases err with
    | some err => rfl
    | none =>
      cases hsave : f.save with
      | some err => simp [savePolicy, savedWith]
      | none => simp [savePolicy, savedWith]

/-- An edit fails unless it is served, and it fails with what the loop
has left. -/
theorem setPermissions_cases (s : PolicyStore σ) (dom name : String) (perms : List String)
    (f : RoleFaults) :
    (f.Served perms ∧ (s.setPermissions dom name perms f).2 = none)
      ∨ (¬ f.Served perms ∧ (s.setPermissions dom name perms f).2 ≠ none
        ∧ (s.setPermissions dom name perms f).1
          = (s.addPermissions dom name f.add 0 perms).1) := by
  have hok := setPermissions_ok s.memory dom name perms f
  rw [← setPermissions_memory] at hok
  by_cases hserved : f.Served perms
  · exact Or.inl ⟨hserved, hok.mpr hserved⟩
  · have herr : (s.setPermissions dom name perms f).2 ≠ none := fun h => hserved (hok.mp h)
    refine Or.inr ⟨hserved, herr, ?_⟩
    rw [setPermissions] at herr ⊢
    cases hadd : s.addPermissions dom name f.add 0 perms with
    | mk s' err =>
      cases err with
      | some err => rfl
      | none =>
        simp only [hadd] at herr
        cases hsave : f.save with
        | some err => rfl
        | none =>
          rw [hsave] at herr
          exact absurd rfl herr

/-- In memory a role edit is the one of `Rbac.Management`. -/
theorem role_edits_memory (sameText : String → String → Bool) (s : PolicyStore σ)
    (dom name : String) (perms : List String) (f : RoleFaults) :
    ((s.createRole dom name perms f).1.memory, (s.createRole dom name perms f).2)
        = Rbac.createRole s.memory dom name perms f
      ∧ ((s.updateRole sameText dom name perms f).1.memory,
          (s.updateRole sameText dom name perms f).2)
        = Rbac.updateRole s.memory dom name perms f := by
  constructor
  · rw [createRole, Rbac.createRole]
    split
    · rfl
    · exact setPermissions_memory s dom name perms f
  · rw [updateRole, Rbac.updateRole]
    cases f.remove with
    | some err => rfl
    | none =>
      exact setPermissions_memory (s.removeFilteredPolicy sameText 0 [name, dom]) dom name perms f

end

end PolicyStore

/-! ## Atomic edits -/

section
variable {σ : Type} [CasbinRules σ]

/-- Every `IsAllowed` and `GetUserPermissions` answers the same. -/
def SameAnswers (e e' : σ) : Prop :=
  (∀ sub dom resource, isAllowed e sub dom resource = isAllowed e' sub dom resource)
    ∧ ∀ sub dom, getUserPermissions e sub dom = getUserPermissions e' sub dom

/-- An edit that returns an error has changed no answer and no row. -/
def Atomic (s : PolicyStore σ) (out : PolicyStore σ × Option RbacError) : Prop :=
  out.2 ≠ none → SameAnswers out.1.memory s.memory ∧ out.1.table.Perm s.table

theorem sameAnswers_iff {e e' : σ} :
    SameAnswers e e' ↔ ∀ q, Answers.yes e q ↔ Answers.yes e' q := by
  constructor
  · intro h q
    obtain ⟨hallowed, hperms⟩ := h
    cases q with
    | isAllowed sub dom resource => simp [Answers.yes, hallowed]
    | permission sub dom resource => simp [Answers.yes, hperms]
  · intro h
    constructor
    · intro sub dom resource
      exact Bool.eq_iff_iff.mpr (h (.isAllowed sub dom resource))
    · intro sub dom
      exact getUserPermissions_eq_iff.mpr (fun resource => h (.permission sub dom resource))

variable [LawfulRules σ]

/-- With these permissions added, nothing is left of the removal: what
its rules gave is given by the new rules or by others, the new rules give
nothing else, and the rows written are the rows deleted. -/
structure Restores (sameText : String → String → Bool) (s : PolicyStore σ) (dom name : String)
    (added : List String) : Prop where
  regiven : ∀ q, ∀ rule ∈ getPolicy s.memory, fieldsMatch rule 0 [name, dom] = true →
    Gives σ (getGroupingPolicy s.memory) q rule →
      (∃ perm ∈ added, Gives σ (getGroupingPolicy s.memory) q (permissionRule dom name perm))
        ∨ ∃ rule' ∈ getPolicy s.memory, fieldsMatch rule' 0 [name, dom] = false
          ∧ Gives σ (getGroupingPolicy s.memory) q rule'
  nothingNew : ∀ q, ∀ perm ∈ added,
    Gives σ (getGroupingPolicy s.memory) q (permissionRule dom name perm) →
      ∃ rule ∈ getPolicy s.memory, Gives σ (getGroupingPolicy s.memory) q rule
  rows : (s.table.filter (rowMatches sameText "p" 0 [name, dom])).Perm
    (added.dedup.map (fun perm => padRule "p" (permissionRule dom name perm)))

/-! ## What a failed edit leaves -/

/-- The rule of a permission is one that the edit removes. -/
theorem fieldsMatch_permissionRule (dom name perm : String) :
    fieldsMatch (permissionRule dom name perm) 0 [name, dom] = true := by
  simp [fieldsMatch, permissionRule]

namespace PolicyStore

/-- The loop writes a row for each permission that is not there, once. -/
theorem addPermissions_table (dom name : String) (faults : Nat → Fault) :
    ∀ (perms : List String) (s : PolicyStore σ) (i : Nat), ∃ news : List String,
      (s.addPermissions dom name faults i perms).1.table
          = s.table ++ news.map (fun perm => padRule "p" (permissionRule dom name perm))
        ∧ news.Nodup
        ∧ ∀ perm, perm ∈ news ↔ perm ∈ addedBefore faults i perms
          ∧ permissionRule dom name perm ∉ getPolicy s.memory := by
  intro perms
  induction perms with
  | nil =>
    intro s i
    exact ⟨[], by simp [addPermissions], List.nodup_nil, by simp [addedBefore]⟩
  | cons perm perms ih =>
    intro s i
    rw [addPermissions, addedBefore]
    cases faults i with
    | some err => exact ⟨[], by simp, List.nodup_nil, by simp⟩
    | none =>
      obtain ⟨news, htable, hnodup, hmem⟩ :=
        ih (s.addPolicy (permissionRule dom name perm)) (i + 1)
      have hrule : ∀ perm', permissionRule dom name perm' = permissionRule dom name perm
          ↔ perm' = perm := by
        intro perm'
        simp [permissionRule]
      have hmemory : (s.addPolicy (permissionRule dom name perm)).memory
          = CasbinEnforcer.addPolicy s.memory (permissionRule dom name perm) := rfl
      simp only [hmemory, LawfulRules.mem_add, hrule, not_or] at hmem
      by_cases hin : permissionRule dom name perm ∈ getPolicy s.memory
      · refine ⟨news, htable.trans (by simp [addPolicy, hin]), hnodup, ?_⟩
        intro perm'
        rw [hmem]
        constructor
        · rintro ⟨hadd, hne, hnot⟩
          exact ⟨List.mem_cons_of_mem perm hadd, hnot⟩
        · rintro ⟨hadd, hnot⟩
          have hne : perm' ≠ perm := fun heq => hnot (heq ▸ hin)
          exact ⟨(List.mem_cons.mp hadd).resolve_left hne, hne, hnot⟩
      · refine ⟨perm :: news, htable.trans (by simp [addPolicy, hin]), ?_, ?_⟩
        · refine List.nodup_cons.mpr ⟨?_, hnodup⟩
          intro hnews
          exact ((hmem perm).mp hnews).2.1 rfl
        · intro perm'
          rw [List.mem_cons, List.mem_cons, hmem]
          constructor
          · rintro (rfl | ⟨hadd, -, hnot⟩)
            · exact ⟨Or.inl rfl, hin⟩
            · exact ⟨Or.inr hadd, hnot⟩
          · rintro ⟨hadd, hnot⟩
            by_cases heq : perm' = perm
            · exact Or.inl heq
            · exact Or.inr ⟨hadd.resolve_left heq, heq, hnot⟩

section
variable (sameText : String → String → Bool) (s : PolicyStore σ) (dom name : String)
  (perms : List String) (f : RoleFaults)

/-- The rows of an update that stops in its loop: those that stay, and those of the permissions added. -/
theorem updated_rows : ∃ news : List String,
    ((s.removeFilteredPolicy sameText 0 [name, dom]).addPermissions dom name f.add 0 perms).1.table
        = s.table.filter (fun row => !rowMatches sameText "p" 0 [name, dom] row)
          ++ news.map (fun perm => padRule "p" (permissionRule dom name perm))
      ∧ news.Perm (addedBefore f.add 0 perms).dedup := by
  obtain ⟨news, htable, hnodup, hmem⟩ := addPermissions_table dom name f.add perms
    (s.removeFilteredPolicy sameText 0 [name, dom]) 0
  refine ⟨news, htable, (List.perm_ext_iff_of_nodup hnodup (List.nodup_dedup _)).mpr ?_⟩
  intro perm
  have hgone : permissionRule dom name perm
      ∉ getPolicy (s.removeFilteredPolicy sameText 0 [name, dom]).memory := by
    intro hperm
    have hmatch := ((LawfulRules.mem_removeFiltered s.memory 0 [name, dom] _).mp hperm).2
    rw [fieldsMatch_permissionRule] at hmatch
    cases hmatch
  rw [hmem, List.mem_dedup]
  exact ⟨fun h => h.1, fun h => ⟨h, hgone⟩⟩

/-- The table is as it was when the rows written are the rows deleted. -/
theorem updated_rows_iff :
    ((s.removeFilteredPolicy sameText 0 [name, dom]).addPermissions dom name f.add 0
        perms).1.table.Perm s.table
      ↔ (s.table.filter (rowMatches sameText "p" 0 [name, dom])).Perm
        ((addedBefore f.add 0 perms).dedup.map
          (fun perm => padRule "p" (permissionRule dom name perm))) := by
  obtain ⟨news, htable, hnews⟩ := updated_rows sameText s dom name perms f
  have hsplit := List.filter_append_perm
    (fun row => !rowMatches sameText "p" 0 [name, dom] row) s.table
  simp only [Bool.not_not] at hsplit
  rw [htable]
  constructor
  · intro h
    have hboth := (List.perm_append_left_iff _).mp (hsplit.trans h.symm)
    exact hboth.trans (hnews.map _)
  · intro h
    exact ((List.perm_append_left_iff _).mpr ((hnews.map _).trans h.symm)).trans hsplit

end

variable [LawfulCasbin σ]

/-- What an answer is after the loop, in terms of the rules before. -/
theorem yes_addPermissions (s : PolicyStore σ) (dom name : String) (perms : List String)
    (f : RoleFaults) (q : Query) :
    Answers.yes (s.addPermissions dom name f.add 0 perms).1.memory q
      ↔ (∃ perm ∈ addedBefore f.add 0 perms,
          Gives σ (getGroupingPolicy s.memory) q (permissionRule dom name perm))
        ∨ Answers.yes s.memory q := by
  have hmemory := congrArg Prod.fst (addPermissions_memory dom name f.add perms s 0)
  simp only at hmemory
  rw [answers_iff, answers_iff, hmemory, grouping_addPermissions]
  simp only [mem_addPermissions]
  constructor
  · rintro ⟨rule, ⟨perm, hperm, rfl⟩ | hrule, hgives⟩
    · exact Or.inl ⟨perm, hperm, hgives⟩
    · exact Or.inr ⟨rule, hrule, hgives⟩
  · rintro (⟨perm, hperm, hgives⟩ | ⟨rule, hrule, hgives⟩)
    · exact ⟨_, Or.inl ⟨perm, hperm, rfl⟩, hgives⟩
    · exact ⟨rule, Or.inr hrule, hgives⟩

/-- A created role had no rule, and leaves rows as soon as it has one. -/
theorem createRole_atomic_iff (s : PolicyStore σ) (dom name : String) (perms : List String)
    (f : RoleFaults) :
    Atomic s (s.createRole dom name perms f)
      ↔ f.Served perms ∨ getFilteredPolicy s.memory 0 [name, dom] ≠ []
        ∨ addedBefore f.add 0 perms = [] := by
  rw [createRole]
  split
  · rename_i hexists
    refine ⟨fun _ => Or.inr (Or.inl hexists), fun _ _ => ⟨?_, List.Perm.refl _⟩⟩
    exact sameAnswers_iff.mpr (fun _ => Iff.rfl)
  · rename_i hnew
    rw [not_not] at hnew
    have hfresh : ∀ perm, permissionRule dom name perm ∉ getPolicy s.memory := by
      intro perm hperm
      have hmem := (LawfulRules.mem_filtered s.memory 0 [name, dom] _).mpr
        ⟨hperm, fieldsMatch_permissionRule dom name perm⟩
      rw [hnew] at hmem
      cases hmem
    rcases setPermissions_cases s dom name perms f with ⟨hserved, hok⟩ | ⟨hserved, herr, hleft⟩
    · exact ⟨fun _ => Or.inl hserved, fun _ herr => absurd hok herr⟩
    · obtain ⟨news, htable, hnodup, hmem⟩ := addPermissions_table dom name f.add perms s 0
      rw [Atomic, hleft, htable]
      constructor
      · intro h
        have hlen := (h herr).2.length_eq
        simp only [List.length_append, List.length_map, Nat.add_eq_left,
          List.length_eq_zero_iff] at hlen
        refine Or.inr (Or.inr (List.eq_nil_iff_forall_not_mem.mpr ?_))
        intro perm hperm
        have hnews := (hmem perm).mpr ⟨hperm, hfresh perm⟩
        rw [hlen] at hnews
        cases hnews
      · rintro (hno | hno | hnil) _
        · exact absurd hno hserved
        · exact absurd hnew hno
        · have hnews : news = [] := by
            apply List.eq_nil_iff_forall_not_mem.mpr
            intro perm hperm
            have hadd := ((hmem perm).mp hperm).1
            rw [hnil] at hadd
            cases hadd
          rw [hnews, List.map_nil, List.append_nil]
          refine ⟨sameAnswers_iff.mpr (fun q => ?_), List.Perm.refl _⟩
          rw [yes_addPermissions, hnil]
          simp

/-- The rules that stay are the ones that do not match. -/
theorem yes_removed (sameText : String → String → Bool) (s : PolicyStore σ) (dom name : String)
    (q : Query) :
    Answers.yes (s.removeFilteredPolicy sameText 0 [name, dom]).memory q
      ↔ ∃ rule ∈ getPolicy s.memory, fieldsMatch rule 0 [name, dom] = false
        ∧ Gives σ (getGroupingPolicy s.memory) q rule := by
  rw [answers_iff]
  simp only [removeFilteredPolicy, LawfulCasbin.grouping_removeFilteredPolicy,
    LawfulRules.mem_removeFiltered, and_assoc]

section
variable (sameText : String → String → Bool) (s : PolicyStore σ) (dom name : String)
  (perms : List String) (f : RoleFaults)

/-- Its answers. -/
theorem yes_updated (q : Query) :
    Answers.yes ((s.removeFilteredPolicy sameText 0 [name, dom]).addPermissions dom name f.add 0
        perms).1.memory q
      ↔ (∃ perm ∈ addedBefore f.add 0 perms,
          Gives σ (getGroupingPolicy s.memory) q (permissionRule dom name perm))
        ∨ ∃ rule ∈ getPolicy s.memory, fieldsMatch rule 0 [name, dom] = false
          ∧ Gives σ (getGroupingPolicy s.memory) q rule := by
  have hgroupings : getGroupingPolicy (s.removeFilteredPolicy sameText 0 [name, dom]).memory
      = getGroupingPolicy s.memory := LawfulCasbin.grouping_removeFilteredPolicy _ _ _
  rw [yes_addPermissions, yes_removed, hgroupings]

theorem updateRole_atomic_iff :
    Atomic s (s.updateRole sameText dom name perms f)
      ↔ f.Served perms ∨ f.remove ≠ none
        ∨ Restores sameText s dom name (addedBefore f.add 0 perms) := by
  rw [updateRole]
  cases hremove : f.remove with
  | some err =>
    refine ⟨fun _ => Or.inr (Or.inl (by simp)), fun _ _ => ⟨?_, List.Perm.refl _⟩⟩
    exact sameAnswers_iff.mpr (fun _ => Iff.rfl)
  | none =>
    simp only [ne_eq, not_true_eq_false, false_or]
    rcases setPermissions_cases (s.removeFilteredPolicy sameText 0 [name, dom]) dom name perms f
      with ⟨hserved, hok⟩ | ⟨hserved, herr, hleft⟩
    · exact ⟨fun _ => Or.inl hserved, fun _ herr => absurd hok herr⟩
    · rw [Atomic, hleft, updated_rows_iff, sameAnswers_iff]
      constructor
      · intro h
        obtain ⟨hsame, hrows⟩ := h herr
        refine Or.inr ⟨?_, ?_, hrows⟩
        · intro q rule hrule hmatch hgives
          exact (yes_updated sameText s dom name perms f q).mp
            ((hsame q).mpr (answers_iff.mpr ⟨rule, hrule, hgives⟩))
        · intro q perm hadd hgives
          exact answers_iff.mp ((hsame q).mp
            ((yes_updated sameText s dom name perms f q).mpr (Or.inl ⟨perm, hadd, hgives⟩)))
      · rintro (hno | hrestores) _
        · exact absurd hno hserved
        · refine ⟨fun q => ?_, hrestores.rows⟩
          rw [yes_updated]
          constructor
          · rintro (⟨perm, hadd, hgives⟩ | ⟨rule, hrule, -, hgives⟩)
            · exact answers_iff.mpr (hrestores.nothingNew q perm hadd hgives)
            · exact answers_iff.mpr ⟨rule, hrule, hgives⟩
          · intro hyes
            obtain ⟨rule, hrule, hgives⟩ := answers_iff.mp hyes
            cases hmatch : fieldsMatch rule 0 [name, dom] with
            | true => exact hrestores.regiven q rule hrule hmatch hgives
            | false => exact Or.inr ⟨rule, hrule, hmatch, hgives⟩

end

end PolicyStore

variable [LawfulCasbin σ]

/-- A role edit that fails changes nothing if and only if it fails before
its first change, or, for an update, when what it has added by then
restores what it had removed. -/
theorem role_edits_atomic_iff (sameText : String → String → Bool) (s : PolicyStore σ)
    (dom name : String) (perms : List String) (f : RoleFaults) :
    (Atomic s (s.updateRole sameText dom name perms f)
        ↔ f.Served perms ∨ f.remove ≠ none
          ∨ Restores sameText s dom name (addedBefore f.add 0 perms))
      ∧ (Atomic s (s.createRole dom name perms f)
        ↔ f.Served perms ∨ getFilteredPolicy s.memory 0 [name, dom] ≠ []
          ∨ addedBefore f.add 0 perms = []) :=
  ⟨PolicyStore.updateRole_atomic_iff sameText s dom name perms f,
    PolicyStore.createRole_atomic_iff s dom name perms f⟩

end

/-! ### A refused permission -/

/-- Viewers see the loans, and alice is one. -/
def viewers : PolicyStore FlatPolicy :=
  { memory :=
      { p := [["viewer", defaultWorkspaceID.val, "page:loans", "access"]]
        g := [["alice", "viewer", defaultWorkspaceID.val]] }
    table :=
      [padRule "p" ["viewer", defaultWorkspaceID.val, "page:loans", "access"],
        padRule "g" ["alice", "viewer", defaultWorkspaceID.val]] }

/-- The first permission is not inserted. -/
def refusedInsert : RoleFaults :=
  { add := fun _ => some "Error 1406: Data too long for column 'v2'" }

/-- The update fails, and alice has lost the loans. -/
theorem failed_update_drops_permissions :
    ¬ Atomic viewers
      (viewers.updateRole (· == ·) defaultWorkspaceID.val "viewer" ["page:reports"]
        refusedInsert) := by
  intro h
  have hsame := (h (by decide)).1.1 "alice" defaultWorkspaceID.val "page:loans"
  exact absurd hsame (by decide)

/-- The law for the same edit. -/
theorem role_edits_atomic_iff_viewers :
    (Atomic viewers
        (viewers.updateRole (· == ·) defaultWorkspaceID.val "viewer" ["page:reports"]
          refusedInsert)
        ↔ refusedInsert.Served ["page:reports"] ∨ refusedInsert.remove ≠ none
          ∨ Restores (· == ·) viewers defaultWorkspaceID.val "viewer"
            (addedBefore refusedInsert.add 0 ["page:reports"]))
      ∧ (Atomic viewers
          (viewers.createRole defaultWorkspaceID.val "viewer" ["page:reports"] refusedInsert)
        ↔ refusedInsert.Served ["page:reports"]
          ∨ getFilteredPolicy viewers.memory 0 ["viewer", defaultWorkspaceID.val] ≠ []
          ∨ addedBefore refusedInsert.add 0 ["page:reports"] = []) :=
  role_edits_atomic_iff (· == ·) viewers defaultWorkspaceID.val "viewer" ["page:reports"]
    refusedInsert

end LendingClaw.Rbac
