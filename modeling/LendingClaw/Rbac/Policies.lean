/-
LendingClaw.Rbac.Policies — the policy rules behind the answers of the
enforcer, and what its write methods do to them (`pkg/rbac/enforcer.go`).

`Rbac.Management` has the groupings of a role; here are its permissions.
Casbin documents that a request is allowed by any rule whose role the
subject is linked to, and that the links come from the groupings alone:
`LawfulRules`. The two queries of the enforcer, `IsAllowed` and
`GetUserPermissions`, are then both read off the rules
(`answers_iff`).
-/
import LendingClaw.Rbac.Adapter
import LendingClaw.Rbac.Management

namespace LendingClaw.Rbac

open LendingClaw.Store CasbinEnforcer CasbinPolicy

/-- `Enforce`, and the removal of a single rule. -/
class CasbinRules (σ : Type) extends CasbinEnforcer σ where
  enforce : σ → String → String → String → String → Bool
  removePolicy : σ → List String → σ

open CasbinRules

/-- What casbin documents of policies. The role manager has the groupings
only: `hasLink` is what the matcher asks of it, up to a depth, and
`implicitRole` what the implicit permissions go through. -/
class LawfulRules (σ : Type) [CasbinRules σ] where
  hasLink : List (List String) → String → String → String → Prop
  implicitRole : List (List String) → String → String → String → Prop
  implicitRole_self : ∀ (g : List (List String)) (role dom : String), implicitRole g role role dom
  implicitRole_cases : ∀ (g : List (List String)) (sub role dom : String),
    implicitRole g sub role dom → sub = role ∨ ∃ v, [v, role, dom] ∈ g
  enforce_iff : ∀ (e : σ) (sub dom obj act : String),
    enforce e sub dom obj act = true
      ↔ ∃ role, [role, dom, obj, act] ∈ getPolicy e ∧ hasLink (getGroupingPolicy e) sub role dom
  implicit_iff : ∀ (e : σ) (sub dom res : String),
    (∃ rule ∈ getImplicitPermissionsForUser e sub dom, ruleResource dom rule = some res)
      ↔ ∃ rule ∈ getPolicy e, ruleResource dom rule = some res
        ∧ ∃ role, rule.head? = some role ∧ implicitRole (getGroupingPolicy e) sub role dom
  mem_filtered : ∀ (e : σ) (i : Nat) (vs rule : List String),
    rule ∈ getFilteredPolicy e i vs ↔ rule ∈ getPolicy e ∧ fieldsMatch rule i vs = true
  mem_add : ∀ (e : σ) (rule rule' : List String),
    rule' ∈ getPolicy (addPolicy e rule) ↔ rule' = rule ∨ rule' ∈ getPolicy e
  mem_remove : ∀ (e : σ) (rule rule' : List String),
    rule' ∈ getPolicy (removePolicy e rule) ↔ rule' ∈ getPolicy e ∧ rule' ≠ rule
  mem_removeFiltered : ∀ (e : σ) (i : Nat) (vs rule : List String),
    rule ∈ getPolicy (removeFilteredPolicy e i vs)
      ↔ rule ∈ getPolicy e ∧ fieldsMatch rule i vs = false
  grouping_remove : ∀ (e : σ) (rule : List String),
    getGroupingPolicy (removePolicy e rule) = getGroupingPolicy e
  policy_addGrouping : ∀ (e : σ) (rule : List String),
    getPolicy (addGroupingPolicy e rule) = getPolicy e
  policy_removeGrouping : ∀ (e : σ) (rule : List String),
    getPolicy (removeGroupingPolicy e rule) = getPolicy e
  policy_removeFilteredGrouping : ∀ (e : σ) (i : Nat) (vs : List String),
    getPolicy (removeFilteredGroupingPolicy e i vs) = getPolicy e

/-! ## Enforcer methods -/

section
variable {σ : Type} [CasbinRules σ]

/-- `Enforcer.IsAllowed`. -/
def isAllowed (enf : σ) (sub dom resource : String) : Bool :=
  enforce enf sub dom resource actionAccess

/-- `allRoleNames`. -/
def allRoleNames (enf : σ) (dom : String) : List String :=
  (((getFilteredPolicy enf 1 [dom]).filterMap List.head?).dedup).insertionSort (· ≤ ·)

/-- `rolePermissions`. -/
def rolePermissions (enf : σ) (role dom : String) : List String :=
  ((getFilteredPolicy enf 0 [role, dom]).filterMap (fun p => p[2]?)).insertionSort (· ≤ ·)

/-- `Role`. -/
structure RoleInfo where
  name : String
  permissions : List String
  members : List String
  deriving DecidableEq

/-- `Enforcer.ListRoles`. -/
def listRoles (enf : σ) (dom : String) : List RoleInfo :=
  (allRoleNames enf dom).map (fun name =>
    { name := name
      permissions := rolePermissions enf name dom
      members := roleMembers enf name dom })

/-- The rule is one that `RemovePermissionsByPrefix` removes. -/
def hasResourcePrefix (pfx : String) : List String → Bool
  | [_, _, res, _] => Lib.hasPrefix res pfx
  | _ => false

/-- Its loop over the policies of the domain; `i` counts them. -/
def removeEach (faults : Nat → Fault) (pfx : String) :
    (i : Nat) → List (List String) → (enf : σ) → (count : Nat) → σ × Nat × Option RbacError
  | _, [], enf, count => (enf, count, none)
  | i, p :: policies, enf, count =>
    if hasResourcePrefix pfx p = false then removeEach faults pfx (i + 1) policies enf count
    else
      match faults i with
      | some err =>
        (enf, count, some (.other
          ("rbac: remove policy [" ++ " ".intercalate p ++ "]: " ++ err)))
      | none =>
        removeEach faults pfx (i + 1) policies (removePolicy enf p)
          (if (getPolicy enf).contains p then count + 1 else count)

/-- `Enforcer.RemovePermissionsByPrefix`. -/
def removePermissionsByPrefix (enf : σ) (dom pfx : String) (get : Fault) (faults : Nat → Fault) :
    σ × Nat × Option RbacError :=
  match get with
  | some err => (enf, 0, some (.other ("rbac: get policy: " ++ err)))
  | none => removeEach faults pfx 0 (getFilteredPolicy enf 1 [dom]) enf 0

end

/-! ## Where calls stop -/

/-- The permissions that are added before the first call that fails. -/
def addedBefore (faults : Nat → Fault) : (i : Nat) → List String → List String
  | _, [] => []
  | i, perm :: perms =>
    match faults i with
    | some _ => []
    | none => perm :: addedBefore faults (i + 1) perms

/-- The rules that are removed before the first call that fails. -/
def removedBefore (faults : Nat → Fault) (pfx : String) :
    (i : Nat) → List (List String) → List (List String)
  | _, [] => []
  | i, p :: policies =>
    if hasResourcePrefix pfx p = false then removedBefore faults pfx (i + 1) policies
    else
      match faults i with
      | some _ => []
      | none => p :: removedBefore faults pfx (i + 1) policies

theorem addedBefore_served {faults : Nat → Fault} :
    ∀ (perms : List String) (i : Nat), (∀ j < perms.length, faults (i + j) = none) →
      addedBefore faults i perms = perms := by
  intro perms
  induction perms with
  | nil =>
    intro i _
    rfl
  | cons perm perms ih =>
    intro i h
    have hi : faults i = none := h 0 (by simp)
    rw [addedBefore, hi, ih]
    intro j hj
    rw [Nat.add_assoc, Nat.add_comm 1 j]
    exact h (j + 1) (by simpa using hj)

theorem addPermissions_ok {σ : Type} [CasbinEnforcer σ] (dom name : String)
    (faults : Nat → Fault) :
    ∀ (perms : List String) (enf : σ) (i : Nat),
      (addPermissions enf dom name faults i perms).2 = none
        ↔ ∀ j < perms.length, faults (i + j) = none := by
  intro perms
  induction perms with
  | nil =>
    intro enf i
    simp [addPermissions]
  | cons perm perms ih =>
    intro enf i
    rw [addPermissions]
    cases hi : faults i with
    | some err =>
      simp only [reduceCtorEq, false_iff]
      intro hall
      have h0 := hall 0 (by simp)
      rw [Nat.add_zero, hi] at h0
      cases h0
    | none =>
      rw [ih]
      constructor
      · intro hall j hj
        cases j with
        | zero => exact hi
        | succ j =>
          rw [Nat.add_comm j 1, ← Nat.add_assoc]
          exact hall j (by simpa using hj)
      · intro hall j hj
        rw [Nat.add_assoc, Nat.add_comm 1 j]
        exact hall (j + 1) (by simpa using hj)

/-- No permission is refused, and the table is saved. -/
def RoleFaults.Served (f : RoleFaults) (perms : List String) : Prop :=
  (∀ i < perms.length, f.add i = none) ∧ f.save = none

theorem setPermissions_ok {σ : Type} [CasbinEnforcer σ] (enf : σ) (dom name : String)
    (perms : List String) (f : RoleFaults) :
    (setPermissions enf dom name perms f).2 = none ↔ f.Served perms := by
  have hok := addPermissions_ok dom name f.add perms enf 0
  simp only [Nat.zero_add] at hok
  rw [setPermissions, RoleFaults.Served, ← hok]
  cases hadd : addPermissions enf dom name f.add 0 perms with
  | mk enf' err =>
    cases err with
    | some err => simp
    | none => simp [savedWith]

theorem setPermissions_fst {σ : Type} [CasbinEnforcer σ] (enf : σ) (dom name : String)
    (perms : List String) (f : RoleFaults) :
    (setPermissions enf dom name perms f).1 = (addPermissions enf dom name f.add 0 perms).1 := by
  unfold setPermissions
  split
  · rename_i heq
    rw [heq]
  · rename_i heq
    rw [heq]
    rfl

theorem removedBefore_subset (faults : Nat → Fault) (pfx : String) :
    ∀ (policies : List (List String)) (i : Nat), ∀ rule ∈ removedBefore faults pfx i policies,
      rule ∈ policies ∧ hasResourcePrefix pfx rule = true := by
  intro policies
  induction policies with
  | nil =>
    intro i rule hrule
    cases hrule
  | cons p policies ih =>
    intro i rule hrule
    rw [removedBefore] at hrule
    split at hrule
    · obtain ⟨hmem, hpfx⟩ := ih (i + 1) rule hrule
      exact ⟨List.mem_cons_of_mem p hmem, hpfx⟩
    · rename_i hp
      cases hi : faults i with
      | some err =>
        rw [hi] at hrule
        cases hrule
      | none =>
        rw [hi] at hrule
        rcases List.mem_cons.mp hrule with rfl | hrule
        · exact ⟨List.mem_cons_self, by simpa using hp⟩
        · obtain ⟨hmem, hpfx⟩ := ih (i + 1) rule hrule
          exact ⟨List.mem_cons_of_mem p hmem, hpfx⟩

theorem grouping_addPermissions {σ : Type} [CasbinEnforcer σ] [LawfulCasbin σ]
    (dom name : String) (faults : Nat → Fault) :
    ∀ (perms : List String) (enf : σ) (i : Nat),
      getGroupingPolicy (addPermissions enf dom name faults i perms).1
        = getGroupingPolicy enf := by
  intro perms
  induction perms with
  | nil =>
    intro enf i
    rfl
  | cons perm perms ih =>
    intro enf i
    rw [addPermissions]
    cases faults i with
    | some err => rfl
    | none => rw [ih, LawfulCasbin.grouping_addPolicy]

/-! ## Answers -/

/-- A question to the enforcer: `IsAllowed`, or whether
`GetUserPermissions` has the resource. -/
inductive Query where
  | isAllowed (sub dom resource : String)
  | permission (sub dom resource : String)

def Answers.yes {σ : Type} [CasbinRules σ] (enf : σ) : Query → Prop
  | .isAllowed sub dom resource => Rbac.isAllowed enf sub dom resource = true
  | .permission sub dom resource => resource ∈ getUserPermissions enf sub dom

/-- Equal sets of permissions are equal answers. -/
theorem getUserPermissions_eq_iff {σ : Type} [CasbinPolicy σ] {e e' : σ} {sub dom : String} :
    getUserPermissions e sub dom = getUserPermissions e' sub dom
      ↔ ∀ resource, resource ∈ getUserPermissions e sub dom
        ↔ resource ∈ getUserPermissions e' sub dom := by
  have hsorted : ∀ enf : σ, (getUserPermissions enf sub dom).Pairwise (· ≤ ·) :=
    fun enf => List.pairwise_insertionSort _ _
  have hnodup : ∀ enf : σ, (getUserPermissions enf sub dom).Nodup :=
    fun enf => (List.perm_insertionSort _ _).nodup_iff.mpr (List.nodup_dedup _)
  constructor
  · intro h resource
    rw [h]
  · intro h
    have hperm := (List.perm_ext_iff_of_nodup (hnodup e) (hnodup e')).mpr h
    exact hperm.eq_of_pairwise (fun _ _ _ _ hab hba => String.le_antisymm hab hba) (hsorted e)
      (hsorted e')

section
variable {σ : Type} [CasbinRules σ] [LawfulRules σ]

/-- The rule gives the query a yes, under the groupings. -/
def Gives (σ : Type) [CasbinRules σ] [LawfulRules σ] (g : List (List String)) :
    Query → List String → Prop
  | .isAllowed sub dom resource, rule =>
    ∃ role, rule = [role, dom, resource, actionAccess]
      ∧ LawfulRules.hasLink σ g sub role dom
  | .permission sub dom resource, rule =>
    ruleResource dom rule = some resource
      ∧ ∃ role, rule.head? = some role ∧ LawfulRules.implicitRole σ g sub role dom

theorem mem_getUserPermissions {enf : σ} {sub dom resource : String} :
    resource ∈ getUserPermissions enf sub dom
      ↔ ∃ rule ∈ getPolicy enf, Gives σ (getGroupingPolicy enf) (.permission sub dom resource)
        rule := by
  simp only [getUserPermissions, List.mem_insertionSort, List.mem_dedup, List.mem_filterMap]
  exact LawfulRules.implicit_iff enf sub dom resource

/-- Both queries are read off the rules. -/
theorem answers_iff {enf : σ} {q : Query} :
    Answers.yes enf q ↔ ∃ rule ∈ getPolicy enf, Gives σ (getGroupingPolicy enf) q rule := by
  cases q with
  | isAllowed sub dom resource =>
    simp only [Answers.yes, isAllowed, LawfulRules.enforce_iff, Gives]
    constructor
    · intro h
      obtain ⟨role, hrule, hlink⟩ := h
      exact ⟨_, hrule, role, rfl, hlink⟩
    · intro h
      obtain ⟨rule, hrule, role, rfl, hlink⟩ := h
      exact ⟨role, hrule, hlink⟩
  | permission sub dom resource => exact mem_getUserPermissions

/-! ## What each method does to the rules -/

theorem mem_addPermissions (dom name : String) (faults : Nat → Fault) (rule : List String) :
    ∀ (perms : List String) (enf : σ) (i : Nat),
      rule ∈ getPolicy (addPermissions enf dom name faults i perms).1
        ↔ (∃ perm ∈ addedBefore faults i perms, rule = [name, dom, perm, actionAccess])
          ∨ rule ∈ getPolicy enf := by
  intro perms
  induction perms with
  | nil =>
    intro enf i
    simp [addPermissions, addedBefore]
  | cons perm perms ih =>
    intro enf i
    rw [addPermissions, addedBefore]
    cases faults i with
    | some err => simp
    | none =>
      simp only [ih, LawfulRules.mem_add, List.mem_cons, exists_eq_or_imp, actionAccess]
      rw [← or_assoc, or_comm (b := rule = _)]

theorem grouping_removeEach (faults : Nat → Fault) (pfx : String) :
    ∀ (policies : List (List String)) (enf : σ) (i count : Nat),
      getGroupingPolicy (removeEach faults pfx i policies enf count).1
        = getGroupingPolicy enf := by
  intro policies
  induction policies with
  | nil =>
    intro enf i count
    rfl
  | cons p policies ih =>
    intro enf i count
    rw [removeEach]
    split
    · exact ih enf (i + 1) count
    · cases faults i with
      | some err => rfl
      | none => rw [ih, LawfulRules.grouping_remove]

theorem mem_removeEach (faults : Nat → Fault) (pfx : String) (rule : List String) :
    ∀ (policies : List (List String)) (enf : σ) (i count : Nat),
      rule ∈ getPolicy (removeEach faults pfx i policies enf count).1
        ↔ rule ∈ getPolicy enf ∧ rule ∉ removedBefore faults pfx i policies := by
  intro policies
  induction policies with
  | nil =>
    intro enf i count
    simp [removeEach, removedBefore]
  | cons p policies ih =>
    intro enf i count
    rw [removeEach, removedBefore]
    split
    · exact ih enf (i + 1) count
    · cases faults i with
      | some err => simp
      | none =>
        simp only [ih, LawfulRules.mem_remove, List.mem_cons, not_or, and_assoc]

end

/-! ## Rule lists -/

namespace FlatPolicy

/-- Users are linked to themselves and to the roles they are given. -/
def hasLink (g : List (List String)) (sub role dom : String) : Bool :=
  role == sub || g.contains [sub, role, dom]

def allows (g : List (List String)) (sub dom obj act : String) : List String → Bool
  | [role, d, o, a] => d == dom && o == obj && a == act && hasLink g sub role dom
  | _ => false

end FlatPolicy

instance : CasbinRules FlatPolicy where
  enforce e sub dom obj act := e.p.any (FlatPolicy.allows e.g sub dom obj act)
  removePolicy e rule := { e with p := e.p.filter (fun r => r != rule) }

namespace FlatPolicy

theorem allows_iff {g : List (List String)} {sub dom obj act : String} {rule : List String} :
    allows g sub dom obj act rule = true
      ↔ ∃ role, rule = [role, dom, obj, act] ∧ hasLink g sub role dom = true := by
  unfold allows
  split
  · simp only [Bool.and_eq_true, beq_iff_eq, List.cons.injEq, and_true]
    constructor
    · rintro ⟨⟨⟨rfl, rfl⟩, rfl⟩, hlink⟩
      exact ⟨_, ⟨rfl, rfl, rfl, rfl⟩, hlink⟩
    · rintro ⟨role, ⟨rfl, rfl, rfl, rfl⟩, hlink⟩
      exact ⟨⟨⟨rfl, rfl⟩, rfl⟩, hlink⟩
  · rename_i hshape
    simp only [Bool.false_eq_true, false_iff]
    rintro ⟨role, rfl, -⟩
    exact hshape _ _ _ _ rfl

theorem ruleResource_some {dom res : String} {rule : List String}
    (h : ruleResource dom rule = some res) : ∃ role rest, rule = role :: dom :: res :: rest := by
  unfold ruleResource at h
  split at h
  · split at h
    · rename_i role d res' rest hd
      cases h
      exact ⟨role, rest, by rw [hd]⟩
    · cases h
  · cases h

end FlatPolicy

instance : LawfulRules FlatPolicy where
  hasLink g sub role dom := FlatPolicy.hasLink g sub role dom = true
  implicitRole g sub role dom := FlatPolicy.hasLink g sub role dom = true
  implicitRole_self g role dom := by simp [FlatPolicy.hasLink]
  implicitRole_cases g sub role dom h := by
    simp only [FlatPolicy.hasLink, Bool.or_eq_true, beq_iff_eq, List.contains_iff_mem] at h
    exact h.imp Eq.symm (fun hmem => ⟨sub, hmem⟩)
  enforce_iff e sub dom obj act := by
    simp only [enforce, getPolicy, getGroupingPolicy, List.any_eq_true, FlatPolicy.allows_iff]
    constructor
    · rintro ⟨rule, hrule, role, rfl, hlink⟩
      exact ⟨role, hrule, hlink⟩
    · rintro ⟨role, hrule, hlink⟩
      exact ⟨_, hrule, role, rfl, hlink⟩
  implicit_iff e sub dom res := by
    simp only [getImplicitPermissionsForUser, getPolicy, getGroupingPolicy, List.mem_filter]
    constructor
    · rintro ⟨rule, ⟨hrule, hmatch⟩, hres⟩
      obtain ⟨role, rest, rfl⟩ := FlatPolicy.ruleResource_some hres
      refine ⟨_, hrule, hres, role, rfl, ?_⟩
      simp only [Bool.and_eq_true] at hmatch
      simpa [FlatPolicy.hasLink] using hmatch.2
    · rintro ⟨rule, hrule, hres, role, hhead, hlink⟩
      obtain ⟨role', rest, rfl⟩ := FlatPolicy.ruleResource_some hres
      simp only [List.head?_cons, Option.some.injEq] at hhead
      subst hhead
      refine ⟨_, ⟨hrule, ?_⟩, hres⟩
      simp only [FlatPolicy.hasLink, Bool.or_eq_true, beq_iff_eq] at hlink
      simpa [fieldsMatch] using hlink
  mem_filtered e i vs rule := by
    simp [getFilteredPolicy, getPolicy, List.mem_filter]
  mem_add e rule rule' := FlatPolicy.mem_addRuleTo
  mem_remove e rule rule' := by simp [removePolicy, getPolicy, List.mem_filter]
  mem_removeFiltered e i vs rule := by
    simp [removeFilteredPolicy, getPolicy, List.mem_filter]
  grouping_remove e rule := rfl
  policy_addGrouping e rule := rfl
  policy_removeGrouping e rule := rfl
  policy_removeFilteredGrouping e i vs := rfl

end LendingClaw.Rbac
