/-
LendingClaw.Rbac.RoleIdentity — what makes a role in a workspace
(`pkg/rbac/enforcer.go`).

A role has no record of its own. `ListRoles` and the duplicate check of
`CreateRole` look at the permission rules, memberships are groupings,
and nothing ties the two. `new_roles_unused_iff` says which sequences of
operations keep them together: those in which no role with members is
left without a permission, and no new role has the name of a user.
-/
import LendingClaw.Lib.Runs
import LendingClaw.Rbac.Policies

namespace LendingClaw.Rbac

open LendingClaw.Store CasbinEnforcer CasbinPolicy

/-! ## Operations -/

/-- An operation of the enforcer on one domain. -/
inductive RoleOp where
  | createRole (name : String) (perms : List String) (f : RoleFaults)
  | updateRole (name : String) (perms : List String) (f : RoleFaults)
  | deleteRole (name : String) (f : RoleFaults)
  | addMember (role sub : String) (f : CallFaults)
  | removeMember (role sub : String) (f : CallFaults)
  | removePermissionsByPrefix (pfx : String) (get : Fault) (faults : Nat → Fault)

section
variable {σ : Type} [CasbinRules σ]

def RoleOp.apply (dom : WorkspaceID) (enf : σ) : RoleOp → σ × Option RbacError
  | .createRole name perms f => Rbac.createRole enf dom.val name perms f
  | .updateRole name perms f => Rbac.updateRole enf dom.val name perms f
  | .deleteRole name f => Rbac.deleteRole enf dom.val name f
  | .addMember role sub f => Rbac.addMember enf dom.val role sub f
  | .removeMember role sub f => Rbac.removeMember enf dom.val role sub f
  | .removePermissionsByPrefix pfx get faults =>
    let (enf, _, err) := Rbac.removePermissionsByPrefix enf dom.val pfx get faults
    (enf, err)

/-- The enforcer, and what it was before the last operation, if that was
a `CreateRole` that succeeded. -/
structure RoleRun (σ : Type) where
  enf : σ
  created : Option σ

def RoleRun.step (dom : WorkspaceID) (t : RoleRun σ) (op : RoleOp) : RoleRun σ :=
  let (enf, err) := op.apply dom t.enf
  { enf := enf
    created :=
      match op, err with
      | .createRole .., none => some t.enf
      | _, _ => none }

def RoleRun.start (enf : σ) : RoleRun σ := { enf := enf, created := none }

/-! ## Roles and users -/

def HasMembers (enf : σ) (dom : WorkspaceID) (role : String) : Prop :=
  ∃ u, HasRole enf dom.val u role

/-- The rule gives a permission to the role, in the domain. -/
def OfRole (dom : WorkspaceID) (role : String) (rule : List String) : Prop :=
  rule.head? = some role ∧ rule[1]? = some dom.val

def HasRules (enf : σ) (dom : WorkspaceID) (role : String) : Prop :=
  ∃ rule ∈ getPolicy enf, OfRole dom role rule

/-- A user of the domain has a role in it. -/
def IsUser (enf : σ) (dom : WorkspaceID) (u : String) : Prop :=
  ∃ role, HasRole enf dom.val u role

/-- Every role with members or permissions is listed, and a role that was
just created gives no user of the domain anything. -/
structure RolesKept (dom : WorkspaceID) (t : RoleRun σ) : Prop where
  listed : ∀ role, HasMembers t.enf dom role ∨ HasRules t.enf dom role →
    role ∈ (listRoles t.enf dom.val).map RoleInfo.name
  unused : ∀ before, t.created = some before → ∀ u, IsUser before dom u →
    getUserPermissions t.enf u dom.val = getUserPermissions before u dom.val

/-- The filter on a role's name takes in the role: a blank name is no
filter. -/
def NameMatches (name role : String) : Prop := name = "" ∨ role = name

/-- No role with members loses its last permission or is given members
without one, and no user's name is taken for a role with permissions the
user does not have. -/
def KeepsRoles (dom : WorkspaceID) (t : RoleRun σ) : RoleOp → Prop
  | .createRole name perms f =>
    f.Served perms → getFilteredPolicy t.enf 0 [name, dom.val] = [] → IsUser t.enf dom name →
      perms ⊆ getUserPermissions t.enf name dom.val
  | .updateRole name perms f =>
    f.remove = none → ∀ role, HasMembers t.enf dom role → NameMatches name role →
      role = name ∧ addedBefore f.add 0 perms ≠ []
  | .deleteRole name f =>
    name ≠ adminRole → f.remove = none → f.groupings ≠ none →
      ∀ role, HasMembers t.enf dom role → ¬ NameMatches name role
  | .addMember role _ f => f.rule = none → HasRules t.enf dom role
  | .removeMember .. => True
  | .removePermissionsByPrefix pfx get faults =>
    get = none → ∀ role, HasMembers t.enf dom role →
      ∃ rule ∈ getPolicy t.enf, OfRole dom role rule
        ∧ rule ∉ removedBefore faults pfx 0 (getFilteredPolicy t.enf 1 [dom.val])

end

/-! ## Rules and members -/

section
variable {σ : Type} [CasbinRules σ] {enf : σ} {dom : WorkspaceID} {name role : String}

theorem hasRules_congr {enf' : σ} (h : getPolicy enf' = getPolicy enf) :
    HasRules enf' dom role ↔ HasRules enf dom role := by
  rw [HasRules, HasRules, h]

/-- A rule of the role is one that a filter on a name takes in. -/
theorem OfRole.fieldsMatch_iff {rule : List String} (h : OfRole dom role rule) (name : String) :
    fieldsMatch rule 0 [name, dom.val] = true ↔ NameMatches name role := by
  obtain ⟨hhead, hdom⟩ := h
  rw [List.head?_eq_getElem?] at hhead
  simp [fieldsMatch, hhead, hdom, NameMatches]

theorem hasMembers_congr {enf' : σ} (h : getGroupingPolicy enf' = getGroupingPolicy enf) :
    HasMembers enf' dom role ↔ HasMembers enf dom role := by
  simp only [HasMembers, HasRole, h]

variable (enf dom name) in
/-- What a role deletion does, where it is not refused at once. -/
theorem deleteRole_cases (f : RoleFaults) :
    ((name = adminRole ∨ f.remove ≠ none) ∧ (deleteRole enf dom.val name f).1 = enf)
      ∨ (name ≠ adminRole ∧ f.remove = none ∧ f.groupings ≠ none
        ∧ (deleteRole enf dom.val name f).1 = removeFilteredPolicy enf 0 [name, dom.val])
      ∨ (name ≠ adminRole ∧ f.remove = none ∧ f.groupings = none
        ∧ (deleteRole enf dom.val name f).1
          = removeFilteredGroupingPolicy (removeFilteredPolicy enf 0 [name, dom.val]) 1
            [name, dom.val]) := by
  unfold deleteRole
  split
  · rename_i hadmin
    exact Or.inl ⟨Or.inl hadmin, rfl⟩
  · rename_i hadmin
    cases hremove : f.remove with
    | some err => exact Or.inl ⟨Or.inr (by simp), rfl⟩
    | none =>
      cases hgroupings : f.groupings with
      | some err => exact Or.inr (Or.inl ⟨hadmin, rfl, by simp, rfl⟩)
      | none => exact Or.inr (Or.inr ⟨hadmin, rfl, rfl, rfl⟩)

theorem hasRole_removeFilteredGrouping [LawfulCasbin σ] {u : String} :
    HasRole (removeFilteredGroupingPolicy enf 1 [name, dom.val]) dom.val u role
      ↔ HasRole enf dom.val u role ∧ ¬ NameMatches name role := by
  have hmatch : fieldsMatch [u, role, dom.val] 1 [name, dom.val] = true ↔ NameMatches name role := by
    simp [fieldsMatch, NameMatches]
  rw [HasRole, LawfulCasbin.mem_removeFilteredGrouping, ← Bool.not_eq_true, hmatch]
  rfl

variable [LawfulRules σ]

/-- What is listed are the roles with rules. -/
theorem mem_listRoles_iff :
    role ∈ (listRoles enf dom.val).map RoleInfo.name ↔ HasRules enf dom role := by
  have hnames : (listRoles enf dom.val).map RoleInfo.name = allRoleNames enf dom.val := by
    rw [listRoles, List.map_map]
    exact List.map_id _
  rw [hnames, allRoleNames, List.mem_insertionSort, List.mem_dedup, List.mem_filterMap]
  have hmatch : ∀ rule : List String, fieldsMatch rule 1 [dom.val] = true
      ↔ rule[1]? = some dom.val := by
    intro rule
    simp [fieldsMatch, dom.nonempty]
  simp only [LawfulRules.mem_filtered, hmatch, HasRules, OfRole]
  constructor
  · rintro ⟨rule, ⟨hrule, hdom⟩, hhead⟩
    exact ⟨rule, hrule, hhead, hdom⟩
  · rintro ⟨rule, hrule, hhead, hdom⟩
    exact ⟨rule, ⟨hrule, hdom⟩, hhead⟩

/-- So the roles with members have to have rules. -/
theorem listed_iff :
    (∀ role, HasMembers enf dom role ∨ HasRules enf dom role →
        role ∈ (listRoles enf dom.val).map RoleInfo.name)
      ↔ ∀ role, HasMembers enf dom role → HasRules enf dom role := by
  simp only [mem_listRoles_iff]
  constructor
  · intro h role hm
    exact h role (Or.inl hm)
  · intro h role hboth
    exact hboth.elim (h role) id

theorem hasRules_addPermissions (faults : Nat → Fault) (perms : List String) (i : Nat) :
    HasRules (addPermissions enf dom.val name faults i perms).1 dom role
      ↔ (role = name ∧ addedBefore faults i perms ≠ []) ∨ HasRules enf dom role := by
  simp only [HasRules, mem_addPermissions]
  constructor
  · rintro ⟨rule, ⟨perm, hperm, rfl⟩ | hrule, hof⟩
    · refine Or.inl ⟨?_, List.ne_nil_of_mem hperm⟩
      simpa [eq_comm] using hof.1
    · exact Or.inr ⟨rule, hrule, hof⟩
  · rintro (⟨rfl, hne⟩ | ⟨rule, hrule, hof⟩)
    · obtain ⟨perm, hperm⟩ := List.exists_mem_of_ne_nil _ hne
      exact ⟨_, Or.inl ⟨perm, hperm, rfl⟩, rfl, rfl⟩
    · exact ⟨rule, Or.inr hrule, hof⟩

theorem hasRules_removeFiltered :
    HasRules (removeFilteredPolicy enf 0 [name, dom.val]) dom role
      ↔ HasRules enf dom role ∧ ¬ NameMatches name role := by
  simp only [HasRules, LawfulRules.mem_removeFiltered]
  constructor
  · rintro ⟨rule, ⟨hrule, hmiss⟩, hof⟩
    refine ⟨⟨rule, hrule, hof⟩, fun hname => ?_⟩
    rw [(hof.fieldsMatch_iff name).mpr hname] at hmiss
    cases hmiss
  · rintro ⟨⟨rule, hrule, hof⟩, hname⟩
    refine ⟨rule, ⟨hrule, ?_⟩, hof⟩
    exact Bool.eq_false_iff.mpr (fun h => hname ((hof.fieldsMatch_iff name).mp h))

theorem hasRules_updateRole (perms : List String) (f : RoleFaults) :
    HasRules (updateRole enf dom.val name perms f).1 dom role
      ↔ if f.remove = none then
          (role = name ∧ addedBefore f.add 0 perms ≠ [])
            ∨ HasRules enf dom role ∧ ¬ NameMatches name role
        else HasRules enf dom role := by
  unfold updateRole
  cases hremove : f.remove with
  | some err => simp
  | none => simp only [setPermissions_fst, hasRules_addPermissions, hasRules_removeFiltered, if_true]

/-- A role that does not exist yet has no rule. -/
theorem not_hasRules_of_new (hnew : getFilteredPolicy enf 0 [name, dom.val] = []) :
    ¬ HasRules enf dom name := by
  rintro ⟨rule, hrule, hof⟩
  have hmem := (LawfulRules.mem_filtered enf 0 [name, dom.val] rule).mpr
    ⟨hrule, (hof.fieldsMatch_iff name).mpr (Or.inr rfl)⟩
  rw [hnew] at hmem
  cases hmem

/-! ## One operation -/

/-- Roles with members have rules. -/
def Listed (enf : σ) (dom : WorkspaceID) : Prop :=
  ∀ role, HasMembers enf dom role → HasRules enf dom role

theorem listed_removePermissions_iff (h : Listed enf dom) (pfx : String) (get : Fault)
    (faults : Nat → Fault) :
    Listed (removePermissionsByPrefix enf dom.val pfx get faults).1 dom
      ↔ (get = none → ∀ role, HasMembers enf dom role →
        ∃ rule ∈ getPolicy enf, OfRole dom role rule
          ∧ rule ∉ removedBefore faults pfx 0 (getFilteredPolicy enf 1 [dom.val])) := by
  cases get with
  | some err => exact ⟨fun _ hno => (by cases hno), fun _ => h⟩
  | none =>
    have hmembers : ∀ role, HasMembers (removePermissionsByPrefix enf dom.val pfx none faults).1
        dom role ↔ HasMembers enf dom role :=
      fun role => hasMembers_congr (grouping_removeEach _ _ _ _ _ _)
    have hrules : ∀ role, HasRules (removePermissionsByPrefix enf dom.val pfx none faults).1
        dom role ↔ ∃ rule ∈ getPolicy enf, OfRole dom role rule
          ∧ rule ∉ removedBefore faults pfx 0 (getFilteredPolicy enf 1 [dom.val]) := by
      intro role
      simp only [HasRules, removePermissionsByPrefix, mem_removeEach, and_assoc]
      exact ⟨fun ⟨rule, hr, hkept, hof⟩ => ⟨rule, hr, hof, hkept⟩,
        fun ⟨rule, hr, hof, hkept⟩ => ⟨rule, hr, hkept, hof⟩⟩
    simp only [Listed, hmembers, hrules, forall_const]

variable [LawfulCasbin σ]

theorem listed_createRole (h : Listed enf dom) (name : String) (perms : List String) (f : RoleFaults) :
    Listed (createRole enf dom.val name perms f).1 dom := by
  intro role hm
  simp only [HasMembers, hasRole_createRole] at hm
  have hrules := h role hm
  unfold createRole
  split
  · exact hrules
  · rw [setPermissions_fst, hasRules_addPermissions]
    exact Or.inr hrules

theorem listed_updateRole_iff (h : Listed enf dom) (perms : List String) (f : RoleFaults) :
    Listed (updateRole enf dom.val name perms f).1 dom
      ↔ (f.remove = none → ∀ role, HasMembers enf dom role → NameMatches name role →
        role = name ∧ addedBefore f.add 0 perms ≠ []) := by
  simp only [Listed, HasMembers, hasRole_updateRole, hasRules_updateRole]
  by_cases hremove : f.remove = none
  · simp only [hremove, if_true, forall_const]
    constructor
    · intro hall role hm hname
      exact (hall role hm).resolve_right (fun hkept => hkept.2 hname)
    · intro hall role hm
      by_cases hname : NameMatches name role
      · exact Or.inl (hall role hm hname)
      · exact Or.inr ⟨h role hm, hname⟩
  · simp only [if_neg hremove]
    exact ⟨fun _ hno => absurd hno hremove, fun _ role hm => h role hm⟩

theorem listed_deleteRole_iff (h : Listed enf dom) (f : RoleFaults) :
    Listed (deleteRole enf dom.val name f).1 dom
      ↔ (name ≠ adminRole → f.remove = none → f.groupings ≠ none →
        ∀ role, HasMembers enf dom role → ¬ NameMatches name role) := by
  rcases deleteRole_cases enf dom name f with
    ⟨hrefused, heq⟩ | ⟨hadmin, hremove, hgroupings, heq⟩ | ⟨hadmin, hremove, hgroupings, heq⟩
  · rw [heq]
    refine ⟨fun _ hadmin hremove => ?_, fun _ => h⟩
    exact absurd hrefused (by simp [hadmin, hremove])
  · have hmembers : ∀ role, HasMembers (removeFilteredPolicy enf 0 [name, dom.val]) dom role
        ↔ HasMembers enf dom role :=
      fun role => hasMembers_congr (LawfulCasbin.grouping_removeFilteredPolicy _ _ _)
    simp only [heq, Listed, hmembers, hasRules_removeFiltered]
    constructor
    · intro hall _ _ _ role hm
      exact (hall role hm).2
    · intro hall role hm
      exact ⟨h role hm, hall hadmin hremove hgroupings role hm⟩
  · rw [heq]
    refine ⟨fun _ _ _ hfail => absurd hgroupings hfail, fun _ role hm => ?_⟩
    rw [hasRules_congr (LawfulRules.policy_removeFilteredGrouping _ _ _), hasRules_removeFiltered]
    obtain ⟨u, hu⟩ := hm
    obtain ⟨hu, hname⟩ := hasRole_removeFilteredGrouping.mp hu
    simp only [HasRole, LawfulCasbin.grouping_removeFilteredPolicy] at hu
    exact ⟨h role ⟨u, hu⟩, hname⟩

theorem listed_addMember_iff (h : Listed enf dom) (sub : String) (f : CallFaults) :
    Listed (addMember enf dom.val role sub f).1 dom
      ↔ (f.rule = none → HasRules enf dom role) := by
  have hpolicy : getPolicy (addMember enf dom.val role sub f).1 = getPolicy enf := by
    unfold addMember
    cases f.rule with
    | some err => rfl
    | none => exact LawfulRules.policy_addGrouping _ _
  simp only [Listed, HasMembers, hasRole_addMember, hasRules_congr hpolicy]
  constructor
  · intro hall hrule
    exact hall role ⟨sub, Or.inr ⟨hrule, rfl, rfl, trivial⟩⟩
  · rintro hall role' ⟨u, hu | ⟨hrule, -, rfl, -⟩⟩
    · exact h role' ⟨u, hu⟩
    · exact hall hrule

theorem listed_removeMember (h : Listed enf dom) (sub : String) (f : CallFaults) :
    Listed (removeMember enf dom.val role sub f).1 dom := by
  rcases removeMember_cases enf dom.val role sub f with
    ⟨-, -, heq⟩ | ⟨-, err, -, heq⟩ | ⟨-, -, heq⟩
  · rw [heq]
    exact h
  · rw [heq]
    exact h
  · rw [heq]
    rintro role' ⟨u, hu⟩
    rw [hasRules_congr (LawfulRules.policy_removeGrouping _ _)]
    exact h role' ⟨u, ((hasRole_removeGrouping enf dom.val dom.val role role' sub u).mp hu).1⟩

/-- Who has what after a role has been created: its permissions go to the
user of that name, as long as the role had no members. -/
theorem mem_permissions_created (hnone : ¬ HasMembers enf dom name) {perms : List String}
    {f : RoleFaults} (hserved : f.Served perms) {u res : String} :
    res ∈ getUserPermissions (setPermissions enf dom.val name perms f).1 u dom.val
      ↔ (u = name ∧ res ∈ perms) ∨ res ∈ getUserPermissions enf u dom.val := by
  have hadded : addedBefore f.add 0 perms = perms := by
    apply addedBefore_served
    intro j hj
    rw [Nat.zero_add]
    exact hserved.1 j hj
  have hlink : LawfulRules.implicitRole σ (getGroupingPolicy enf) u name dom.val ↔ u = name := by
    constructor
    · intro hrole
      rcases LawfulRules.implicitRole_cases _ _ _ _ hrole with heq | hmember
      · exact heq
      · exact absurd hmember hnone
    · rintro rfl
      exact LawfulRules.implicitRole_self _ _ _
  have hgives : ∀ perm, Gives σ (getGroupingPolicy enf) (.permission u dom.val res)
      [name, dom.val, perm, actionAccess] ↔ u = name ∧ res = perm := by
    intro perm
    simp [Gives, ruleResource, hlink, and_comm, eq_comm]
  rw [mem_getUserPermissions, mem_getUserPermissions, setPermissions_fst, grouping_addPermissions]
  simp only [mem_addPermissions, hadded]
  constructor
  · rintro ⟨rule, ⟨perm, hperm, rfl⟩ | hrule, hg⟩
    · obtain ⟨hu, rfl⟩ := (hgives perm).mp hg
      exact Or.inl ⟨hu, hperm⟩
    · exact Or.inr ⟨rule, hrule, hg⟩
  · rintro (⟨hu, hres⟩ | ⟨rule, hrule, hg⟩)
    · exact ⟨_, Or.inl ⟨res, hres, rfl⟩, (hgives res).mpr ⟨hu, rfl⟩⟩
    · exact ⟨rule, Or.inr hrule, hg⟩

/-- A new role changes nothing for the users unless one of them has its
name. -/
theorem created_unused_iff (hnone : ¬ HasMembers enf dom name) {perms : List String}
    {f : RoleFaults} (hserved : f.Served perms) :
    (∀ u, IsUser enf dom u →
        getUserPermissions (setPermissions enf dom.val name perms f).1 u dom.val
          = getUserPermissions enf u dom.val)
      ↔ (IsUser enf dom name → perms ⊆ getUserPermissions enf name dom.val) := by
  simp only [getUserPermissions_eq_iff, mem_permissions_created hnone hserved, or_iff_right_iff_imp]
  constructor
  · intro h huser res hres
    exact h name huser res ⟨rfl, hres⟩
  · rintro h u huser res ⟨rfl, hres⟩
    exact h huser hres

/-- The step lemma: from a state that keeps the roles, a step keeps them
exactly under its condition. -/
theorem rolesKept_step_iff {t : RoleRun σ} (h : RolesKept dom t) (op : RoleOp) :
    RolesKept dom (t.step dom op) ↔ KeepsRoles dom t op := by
  have hlisted : Listed t.enf dom := listed_iff.mp h.listed
  -- only a created role has something to say about the users
  have hother : (t.step dom op).created = none →
      (RolesKept dom (t.step dom op) ↔ Listed (t.step dom op).enf dom) := by
    intro hcreated
    refine ⟨fun hk => listed_iff.mp hk.listed, fun hk => ⟨listed_iff.mpr hk, ?_⟩⟩
    intro before hbefore
    rw [hcreated] at hbefore
    cases hbefore
  cases op with
  | updateRole name perms f => exact (hother rfl).trans (listed_updateRole_iff hlisted perms f)
  | deleteRole name f => exact (hother rfl).trans (listed_deleteRole_iff hlisted f)
  | addMember role sub f => exact (hother rfl).trans (listed_addMember_iff hlisted sub f)
  | removeMember role sub f =>
    exact (hother rfl).trans (iff_of_true (listed_removeMember hlisted sub f) trivial)
  | removePermissionsByPrefix pfx get faults =>
    exact (hother rfl).trans (listed_removePermissions_iff hlisted pfx get faults)
  | createRole name perms f =>
    have hkept := listed_createRole hlisted name perms f
    by_cases hnew : getFilteredPolicy t.enf 0 [name, dom.val] = []
    · have hcreate : createRole t.enf dom.val name perms f
          = setPermissions t.enf dom.val name perms f := by
        rw [createRole, if_neg (not_not.mpr hnew)]
      have hnone : ¬ HasMembers t.enf dom name :=
        fun hm => not_hasRules_of_new hnew (hlisted name hm)
      by_cases hserved : f.Served perms
      · have hcreated : (t.step dom (.createRole name perms f)).created = some t.enf := by
          simp only [RoleRun.step, RoleOp.apply, hcreate, (setPermissions_ok _ _ _ _ _).mpr hserved]
        have henf : (t.step dom (.createRole name perms f)).enf
            = (setPermissions t.enf dom.val name perms f).1 := by
          simp only [RoleRun.step, RoleOp.apply, hcreate]
        have hunused := created_unused_iff hnone hserved
        constructor
        · intro hk _ _
          refine hunused.mp (fun u hu => ?_)
          rw [← henf]
          exact hk.unused t.enf hcreated u hu
        · intro hk
          refine ⟨listed_iff.mpr hkept, ?_⟩
          intro before hbefore
          rw [hcreated] at hbefore
          cases hbefore
          rw [henf]
          exact hunused.mpr (hk hserved hnew)
      · have hcreated : (t.step dom (.createRole name perms f)).created = none := by
          have herr := mt (setPermissions_ok t.enf dom.val name perms f).mp hserved
          obtain ⟨err, herr⟩ := Option.ne_none_iff_exists'.mp herr
          simp only [RoleRun.step, RoleOp.apply, hcreate, herr]
        exact (hother hcreated).trans (iff_of_true hkept (fun hno => absurd hno hserved))
    · have hcreated : (t.step dom (.createRole name perms f)).created = none := by
        simp only [RoleRun.step, RoleOp.apply, createRole, if_pos hnew]
      exact (hother hcreated).trans (iff_of_true hkept (fun _ hno => absurd hno hnew))

end

/-! ### A role made twice -/

/-- A role is given to alice, emptied, and made again. -/
def roleMadeTwice : List RoleOp :=
  [.createRole "analyst" ["page:loans"] {}, .addMember "analyst" "alice" {},
    .updateRole "analyst" [] {}, .createRole "analyst" ["page:roles"] {}]

end LendingClaw.Rbac
