/-
LendingClaw.Rbac.Management — the enforcer's write side
(`pkg/rbac/enforcer.go`): roles and their members.

Casbin's management calls are the class `CasbinEnforcer`, and what they
are documented to do is `LawfulCasbin`: the rules are a set, a blank
filter value matches anything, and the roles of a user in a domain are
the groupings. `FlatPolicy` is the instance to run on.

Each call may fail in the adapter before the rule is changed in memory,
and `SavePolicy` may fail after it; the two are the faults of a call.
-/
import LendingClaw.Rbac.Enforcer

namespace LendingClaw.Rbac

open LendingClaw.Store

/-- The casbin calls behind the enforcer's write methods, and the two
role queries. -/
class CasbinEnforcer (σ : Type) extends CasbinPolicy σ where
  getPolicy : σ → List (List String)
  getGroupingPolicy : σ → List (List String)
  getRolesForUserInDomain : σ → String → String → List String
  getUsersForRoleInDomain : σ → String → String → List String
  addPolicy : σ → List String → σ
  removeFilteredPolicy : σ → Nat → List String → σ
  addGroupingPolicy : σ → List String → σ
  removeGroupingPolicy : σ → List String → σ
  removeFilteredGroupingPolicy : σ → Nat → List String → σ

open CasbinEnforcer

/-- What casbin documents of them, as far as groupings go. -/
class LawfulCasbin (σ : Type) [CasbinEnforcer σ] : Prop where
  mem_roles : ∀ (e : σ) (user role dom : String),
    role ∈ getRolesForUserInDomain e user dom ↔ [user, role, dom] ∈ getGroupingPolicy e
  nodup_roles : ∀ (e : σ) (user dom : String), (getRolesForUserInDomain e user dom).Nodup
  mem_users : ∀ (e : σ) (user role dom : String),
    user ∈ getUsersForRoleInDomain e role dom ↔ [user, role, dom] ∈ getGroupingPolicy e
  nodup_users : ∀ (e : σ) (role dom : String), (getUsersForRoleInDomain e role dom).Nodup
  mem_addGrouping : ∀ (e : σ) (rule rule' : List String),
    rule' ∈ getGroupingPolicy (addGroupingPolicy e rule)
      ↔ rule' = rule ∨ rule' ∈ getGroupingPolicy e
  mem_removeGrouping : ∀ (e : σ) (rule rule' : List String),
    rule' ∈ getGroupingPolicy (removeGroupingPolicy e rule)
      ↔ rule' ∈ getGroupingPolicy e ∧ rule' ≠ rule
  mem_removeFilteredGrouping : ∀ (e : σ) (i : Nat) (vs rule : List String),
    rule ∈ getGroupingPolicy (removeFilteredGroupingPolicy e i vs)
      ↔ rule ∈ getGroupingPolicy e ∧ fieldsMatch rule i vs = false
  grouping_addPolicy : ∀ (e : σ) (rule : List String),
    getGroupingPolicy (addPolicy e rule) = getGroupingPolicy e
  grouping_removeFilteredPolicy : ∀ (e : σ) (i : Nat) (vs : List String),
    getGroupingPolicy (removeFilteredPolicy e i vs) = getGroupingPolicy e

/-! ## Enforcer methods -/

/-- `AdminRole`. -/
def adminRole : String := "admin"

/-- An error of the enforcer; `ErrLastAdmin` is told apart. -/
inductive RbacError where
  | lastAdmin
  | other (text : String)
  deriving DecidableEq

/-- `err.Error()`. -/
def RbacError.text : RbacError → String
  | .lastAdmin => "workspace must have at least one admin"
  | .other text => text

/-- The faults of one grouping change: the rule, then `SavePolicy`. -/
structure CallFaults where
  rule : Fault := none
  save : Fault := none
  deriving DecidableEq

def CallFaults.Served (f : CallFaults) : Prop := f.rule = none ∧ f.save = none

/-- The faults of a role change: removing its policies, adding each
permission, removing its groupings, `SavePolicy`. -/
structure RoleFaults where
  remove : Fault := none
  add : Nat → Fault := fun _ => none
  groupings : Fault := none
  save : Fault := none

section
variable {σ : Type} [CasbinEnforcer σ]

/-- `enf.e.SavePolicy()`: the memory stays as it is. -/
def savedWith (enf : σ) (save : Fault) : σ × Option RbacError := (enf, save.map .other)

/-- `roleMembers`. -/
def roleMembers (enf : σ) (role dom : String) : List String :=
  (getUsersForRoleInDomain enf role dom).insertionSort (· ≤ ·)

/-- `GetRolesForUser`. -/
def getRolesForUser (enf : σ) (sub dom : String) : List String :=
  (getRolesForUserInDomain enf sub dom).insertionSort (· ≤ ·)

/-- `Enforcer.AddMember`. -/
def addMember (enf : σ) (dom role sub : String) (f : CallFaults) : σ × Option RbacError :=
  match f.rule with
  | some err => (enf, some (.other ("add grouping: " ++ err)))
  | none => savedWith (addGroupingPolicy enf [sub, role, dom]) f.save

/-- The guard of `Enforcer.RemoveMember`: the only admin, and it is `sub`. -/
def isLastAdmin (enf : σ) (dom sub : String) : Bool :=
  (roleMembers enf adminRole dom).length == 1 && (roleMembers enf adminRole dom).contains sub

/-- `Enforcer.RemoveMember`. -/
def removeMember (enf : σ) (dom role sub : String) (f : CallFaults) : σ × Option RbacError :=
  if role = adminRole ∧ isLastAdmin enf dom sub = true then (enf, some .lastAdmin)
  else
    match f.rule with
    | some err => (enf, some (.other ("remove grouping: " ++ err)))
    | none => savedWith (removeGroupingPolicy enf [sub, role, dom]) f.save

/-- The loop over the permissions of `CreateRole` and `UpdateRole`; `i`
counts the calls. -/
def addPermissions (enf : σ) (dom name : String) (faults : Nat → Fault) :
    (i : Nat) → List String → σ × Option RbacError
  | _, [] => (enf, none)
  | i, perm :: perms =>
    match faults i with
    | some err => (enf, some (.other ("add policy: " ++ err)))
    | none => addPermissions (addPolicy enf [name, dom, perm, "access"]) dom name faults
        (i + 1) perms

/-- The permissions, then `SavePolicy`. -/
def setPermissions (enf : σ) (dom name : String) (perms : List String) (f : RoleFaults) :
    σ × Option RbacError :=
  match addPermissions enf dom name f.add 0 perms with
  | (enf, some err) => (enf, some err)
  | (enf, none) => savedWith enf f.save

/-- `Enforcer.CreateRole`. -/
def createRole (enf : σ) (dom name : String) (perms : List String) (f : RoleFaults) :
    σ × Option RbacError :=
  if CasbinPolicy.getFilteredPolicy enf 0 [name, dom] ≠ [] then
    (enf, some (.other ("role \x22" ++ name ++ "\x22 already exists")))
  else setPermissions enf dom name perms f

/-- `Enforcer.UpdateRole`. -/
def updateRole (enf : σ) (dom name : String) (perms : List String) (f : RoleFaults) :
    σ × Option RbacError :=
  match f.remove with
  | some err => (enf, some (.other ("remove old policies: " ++ err)))
  | none => setPermissions (removeFilteredPolicy enf 0 [name, dom]) dom name perms f

/-- `Enforcer.DeleteRole`. -/
def deleteRole (enf : σ) (dom name : String) (f : RoleFaults) : σ × Option RbacError :=
  if name = adminRole then (enf, some .lastAdmin)
  else
    match f.remove with
    | some err => (enf, some (.other ("remove policies: " ++ err)))
    | none =>
      let enf := removeFilteredPolicy enf 0 [name, dom]
      match f.groupings with
      | some err => (enf, some (.other ("remove groupings: " ++ err)))
      | none => savedWith (removeFilteredGroupingPolicy enf 1 [name, dom]) f.save

end

/-! ## What each method does to the groupings -/

section
variable {σ : Type} [CasbinEnforcer σ]

/-- `sub` has `role` in the domain. -/
def HasRole (enf : σ) (dom sub role : String) : Prop :=
  [sub, role, dom] ∈ getGroupingPolicy enf

instance (enf : σ) (dom sub role : String) : Decidable (HasRole enf dom sub role) :=
  inferInstanceAs (Decidable ([sub, role, dom] ∈ getGroupingPolicy enf))

theorem getRolesForUser_sorted (enf : σ) (sub dom : String) :
    (getRolesForUser enf sub dom).Pairwise (· ≤ ·) :=
  List.pairwise_insertionSort _ _

/-- A removal that is refused leaves the policy; one that is served, or
whose save fails, removes the one grouping. -/
theorem removeMember_cases (enf : σ) (dom role sub : String) (f : CallFaults) :
    (role = adminRole ∧ isLastAdmin enf dom sub = true
      ∧ removeMember enf dom role sub f = (enf, some .lastAdmin))
    ∨ (¬ (role = adminRole ∧ isLastAdmin enf dom sub = true)
      ∧ ∃ err, f.rule = some err
        ∧ removeMember enf dom role sub f = (enf, some (.other ("remove grouping: " ++ err))))
    ∨ (¬ (role = adminRole ∧ isLastAdmin enf dom sub = true) ∧ f.rule = none
      ∧ removeMember enf dom role sub f
          = (removeGroupingPolicy enf [sub, role, dom], f.save.map .other)) := by
  unfold removeMember
  split
  · rename_i h
    exact Or.inl ⟨h.1, h.2, rfl⟩
  · rename_i h
    cases hf : f.rule with
    | some err => exact Or.inr (Or.inl ⟨h, err, rfl, rfl⟩)
    | none => exact Or.inr (Or.inr ⟨h, rfl, rfl⟩)

variable [LawfulCasbin σ]

@[simp] theorem mem_getRolesForUser (enf : σ) (dom sub role : String) :
    role ∈ getRolesForUser enf sub dom ↔ HasRole enf dom sub role := by
  simp [getRolesForUser, List.mem_insertionSort, LawfulCasbin.mem_roles, HasRole]

@[simp] theorem mem_roleMembers (enf : σ) (dom sub role : String) :
    sub ∈ roleMembers enf role dom ↔ HasRole enf dom sub role := by
  simp [roleMembers, List.mem_insertionSort, LawfulCasbin.mem_users, HasRole]

theorem getRolesForUser_nodup (enf : σ) (sub dom : String) :
    (getRolesForUser enf sub dom).Nodup :=
  (List.perm_insertionSort _ _).nodup_iff.mpr (LawfulCasbin.nodup_roles enf sub dom)

/-- The guard: `sub` is an admin, and the only one. -/
theorem isLastAdmin_iff (enf : σ) (dom sub : String) :
    isLastAdmin enf dom sub = true ↔
      HasRole enf dom sub adminRole ∧ ∀ u, HasRole enf dom u adminRole → u = sub := by
  have hnodup : (roleMembers enf adminRole dom).Nodup :=
    (List.perm_insertionSort _ _).nodup_iff.mpr (LawfulCasbin.nodup_users enf adminRole dom)
  simp only [isLastAdmin, Bool.and_eq_true, beq_iff_eq, List.contains_iff_mem,
    ← mem_roleMembers]
  generalize roleMembers enf adminRole dom = users at hnodup
  constructor
  · intro h
    obtain ⟨hlen, hmem⟩ := h
    obtain ⟨u, rfl⟩ := List.length_eq_one_iff.mp hlen
    simp at hmem
    subst hmem
    exact ⟨by simp, by simp⟩
  · intro h
    obtain ⟨hmem, hall⟩ := h
    refine ⟨?_, hmem⟩
    have hrep : users = [sub] := List.perm_singleton.mp
      ((List.perm_ext_iff_of_nodup hnodup (List.nodup_singleton sub)).mpr (by
        intro u
        simp only [List.mem_singleton]
        exact ⟨hall u, fun h => h ▸ hmem⟩))
    rw [hrep]
    rfl

theorem hasRole_addMember (enf : σ) (dom dom' role role' sub sub' : String) (f : CallFaults) :
    HasRole (addMember enf dom role sub f).1 dom' sub' role' ↔
      HasRole enf dom' sub' role'
        ∨ (f.rule = none ∧ sub' = sub ∧ role' = role ∧ dom' = dom) := by
  unfold addMember
  cases hf : f.rule with
  | some err => simp
  | none =>
    simp only [savedWith, HasRole, LawfulCasbin.mem_addGrouping, List.cons.injEq, and_true,
      true_and]
    tauto

theorem hasRole_removeGrouping (enf : σ) (dom dom' role role' sub sub' : String) :
    HasRole (removeGroupingPolicy enf [sub, role, dom]) dom' sub' role' ↔
      HasRole enf dom' sub' role' ∧ ¬ (sub' = sub ∧ role' = role ∧ dom' = dom) := by
  simp [HasRole, LawfulCasbin.mem_removeGrouping]

theorem hasRole_addPermissions (dom name : String) (faults : Nat → Fault) (dom' sub role : String) :
    ∀ (perms : List String) (enf : σ) (i : Nat),
      HasRole (addPermissions enf dom name faults i perms).1 dom' sub role
        ↔ HasRole enf dom' sub role := by
  intro perms
  induction perms with
  | nil => intro enf i; rfl
  | cons perm perms ih =>
    intro enf i
    rw [addPermissions]
    cases faults i with
    | some err => rfl
    | none =>
      rw [ih]
      simp [HasRole, LawfulCasbin.grouping_addPolicy]

theorem hasRole_setPermissions (enf : σ) (dom name : String) (perms : List String)
    (f : RoleFaults) (dom' sub role : String) :
    HasRole (setPermissions enf dom name perms f).1 dom' sub role
      ↔ HasRole enf dom' sub role := by
  have h := hasRole_addPermissions dom name f.add dom' sub role perms enf 0
  unfold setPermissions
  split
  · rename_i heq
    rw [heq] at h
    exact h
  · rename_i heq
    rw [heq] at h
    exact h

theorem hasRole_createRole (enf : σ) (dom name : String) (perms : List String) (f : RoleFaults)
    (dom' sub role : String) :
    HasRole (createRole enf dom name perms f).1 dom' sub role ↔ HasRole enf dom' sub role := by
  unfold createRole
  split
  · rfl
  · exact hasRole_setPermissions enf dom name perms f dom' sub role

theorem hasRole_updateRole (enf : σ) (dom name : String) (perms : List String) (f : RoleFaults)
    (dom' sub role : String) :
    HasRole (updateRole enf dom name perms f).1 dom' sub role ↔ HasRole enf dom' sub role := by
  unfold updateRole
  split
  · rfl
  · rw [hasRole_setPermissions]
    simp [HasRole, LawfulCasbin.grouping_removeFilteredPolicy]

/-- Deleting a named role removes groupings of that role only, and never
an admin. -/
theorem hasRole_deleteRole_admin (enf : σ) (dom name : String) (hname : name ≠ "")
    (f : RoleFaults) (dom' sub : String) :
    HasRole (deleteRole enf dom name f).1 dom' sub adminRole
      ↔ HasRole enf dom' sub adminRole := by
  unfold deleteRole
  split
  · rfl
  · rename_i hadmin
    cases f.remove with
    | some err => rfl
    | none =>
      cases f.groupings with
      | some err => simp [HasRole, LawfulCasbin.grouping_removeFilteredPolicy]
      | none =>
        have hmiss : fieldsMatch [sub, adminRole, dom'] 1 [name, dom] = false := by
          have hne : ¬ adminRole = name := fun h => hadmin h.symm
          simp [fieldsMatch, hname, hne]
        simp [savedWith, HasRole, LawfulCasbin.mem_removeFilteredGrouping,
          LawfulCasbin.grouping_removeFilteredPolicy, hmiss]

end

/-! ## Rule lists -/

namespace FlatPolicy

/-- The middle field of the groupings of a user in a domain. -/
def roleOf (user dom : String) : List String → Option String
  | [u, r, d] => if u = user ∧ d = dom then some r else none
  | _ => none

def userOf (role dom : String) : List String → Option String
  | [u, r, d] => if r = role ∧ d = dom then some u else none
  | _ => none

/-- A rule set has no duplicates. -/
def addRuleTo (rules : List (List String)) (rule : List String) : List (List String) :=
  if rules.contains rule then rules else rules ++ [rule]

end FlatPolicy

open FlatPolicy in
instance : CasbinEnforcer FlatPolicy where
  getPolicy e := e.p
  getGroupingPolicy e := e.g
  getRolesForUserInDomain e user dom := (e.g.filterMap (roleOf user dom)).dedup
  getUsersForRoleInDomain e role dom := (e.g.filterMap (userOf role dom)).dedup
  addPolicy e rule := { e with p := addRuleTo e.p rule }
  removeFilteredPolicy e i vs := { e with p := e.p.filter (fun r => !fieldsMatch r i vs) }
  addGroupingPolicy e rule := { e with g := addRuleTo e.g rule }
  removeGroupingPolicy e rule := { e with g := e.g.filter (fun r => r != rule) }
  removeFilteredGroupingPolicy e i vs := { e with g := e.g.filter (fun r => !fieldsMatch r i vs) }

namespace FlatPolicy

theorem roleOf_eq_some {user dom role : String} {rule : List String} :
    roleOf user dom rule = some role ↔ rule = [user, role, dom] := by
  unfold roleOf
  split
  · simp only [Option.ite_none_right_eq_some, Option.some.injEq, List.cons.injEq, and_true]
    tauto
  · rename_i h
    simp only [reduceCtorEq, false_iff]
    intro hr
    exact h _ _ _ hr

theorem userOf_eq_some {role dom user : String} {rule : List String} :
    userOf role dom rule = some user ↔ rule = [user, role, dom] := by
  unfold userOf
  split
  · simp only [Option.ite_none_right_eq_some, Option.some.injEq, List.cons.injEq, and_true]
    tauto
  · rename_i h
    simp only [reduceCtorEq, false_iff]
    intro hr
    exact h _ _ _ hr

theorem mem_addRuleTo {rules : List (List String)} {rule rule' : List String} :
    rule' ∈ addRuleTo rules rule ↔ rule' = rule ∨ rule' ∈ rules := by
  unfold addRuleTo
  split
  · rename_i h
    rw [List.contains_iff_mem] at h
    constructor
    · exact Or.inr
    · intro h'
      rcases h' with rfl | h'
      · exact h
      · exact h'
  · simp [or_comm]

end FlatPolicy

open FlatPolicy in
instance : LawfulCasbin FlatPolicy where
  mem_roles e user role dom := by
    simp [getRolesForUserInDomain, getGroupingPolicy, List.mem_dedup, List.mem_filterMap,
      roleOf_eq_some]
  nodup_roles e user dom := List.nodup_dedup _
  mem_users e user role dom := by
    simp [getUsersForRoleInDomain, getGroupingPolicy, List.mem_dedup, List.mem_filterMap,
      userOf_eq_some]
  nodup_users e role dom := List.nodup_dedup _
  mem_addGrouping e rule rule' := mem_addRuleTo
  mem_removeGrouping e rule rule' := by
    simp [removeGroupingPolicy, getGroupingPolicy, List.mem_filter]
  mem_removeFilteredGrouping e i vs rule := by
    simp [removeFilteredGroupingPolicy, getGroupingPolicy, List.mem_filter]
  grouping_addPolicy e rule := rfl
  grouping_removeFilteredPolicy e i vs := rfl

end LendingClaw.Rbac
