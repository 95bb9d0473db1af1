/-
LendingClaw.Rbac.Enforcer — what the enforcer answers from casbin's
policy (`pkg/rbac/enforcer.go`, the read side).

Casbin itself is a third-party package, so its in-memory policy is a
type parameter with the query methods the enforcer calls
(`CasbinPolicy`). `FlatPolicy` is one concrete such policy, the rule
lists themselves with the lookups casbin documents for them, used where
a definition has to be run on rules.
-/
import LendingClaw.Tools.Types
import Mathlib.Data.List.Dedup
import Mathlib.Data.List.Sort

namespace LendingClaw.Rbac

open LendingClaw.Tools

/-- The casbin queries behind the enforcer's read methods. -/
class CasbinPolicy (σ : Type) where
  getFilteredPolicy : σ → Nat → List String → List (List String)
  getFilteredGroupingPolicy : σ → Nat → List String → List (List String)
  getImplicitPermissionsForUser : σ → String → String → List (List String)

section
variable {σ : Type} [CasbinPolicy σ]

/-- `Enforcer.HasRoles`. -/
def hasRoles (enf : σ) (dom : String) : Bool :=
  !(CasbinPolicy.getFilteredPolicy enf 1 [dom]).isEmpty
    || !(CasbinPolicy.getFilteredGroupingPolicy enf 2 [dom]).isEmpty

/-- The resource of a rule `[role, dom, resource, action]` of the domain. -/
def ruleResource (dom : String) (p : List String) : Option String :=
  match p with
  | _ :: d :: res :: _ => if d = dom then some res else none
  | _ => none

/-- `Enforcer.GetUserPermissions`: the distinct resources, sorted. Never
the nil slice. -/
def getUserPermissions (enf : σ) (sub dom : String) : List String :=
  (((CasbinPolicy.getImplicitPermissionsForUser enf sub dom).filterMap
    (ruleResource dom)).dedup).insertionSort (· ≤ ·)

end

/-- The prefix test of `FilterToolPermissions`. -/
def isToolPermission (p : String) : Bool :=
  Lib.hasPrefix p "tool:" || Lib.hasPrefix p "mcp:"

/-- `FilterToolPermissions`: `keys` starts as the nil slice and is only
ever appended to. -/
def filterToolPermissions (perms : List String) : Slice String :=
  perms.foldl (fun keys p => if isToolPermission p then Slice.append keys p else keys) none

theorem foldl_filterToolPermissions (perms : List String) (keys : List String) :
    perms.foldl (fun ks p => if isToolPermission p then Slice.append ks p else ks)
      (some keys : Slice String) = some (keys ++ perms.filter isToolPermission) := by
  induction perms generalizing keys with
  | nil => simp
  | cons p perms ih =>
    simp only [List.foldl_cons]
    by_cases h : isToolPermission p = true
    · have happ : Slice.append (some keys) p = some (keys ++ [p]) := rfl
      rw [if_pos h, happ, ih]
      simp [h]
    · rw [if_neg h, ih]
      simp [h]

/-- The filter keeps the tool permissions, and answers nil when there is
none: the two meanings of an empty result are not told apart. -/
theorem filterToolPermissions_eq (perms : List String) :
    filterToolPermissions perms
      = if perms.filter isToolPermission = [] then none
        else some (perms.filter isToolPermission) := by
  induction perms with
  | nil => rfl
  | cons p perms ih =>
    unfold filterToolPermissions at ih ⊢
    simp only [List.foldl_cons]
    by_cases h : isToolPermission p = true
    · have happ : Slice.append (none : Slice String) p = some [p] := rfl
      rw [if_pos h, happ, foldl_filterToolPermissions]
      simp [h]
    · rw [if_neg h, ih]
      simp [h]

theorem filterToolPermissions_none {perms : List String}
    (h : ∀ p ∈ perms, isToolPermission p = false) : filterToolPermissions perms = none := by
  rw [filterToolPermissions_eq, if_pos]
  rw [List.filter_eq_nil_iff]
  exact fun p hp => by simp [h p hp]

theorem filterToolPermissions_some {perms : List String}
    (h : ∃ p ∈ perms, isToolPermission p = true) :
    filterToolPermissions perms = some (perms.filter isToolPermission) := by
  obtain ⟨p, hp, hk⟩ := h
  rw [filterToolPermissions_eq, if_neg]
  intro hnil
  exact List.not_mem_nil (hnil ▸ List.mem_filter.mpr ⟨hp, hk⟩)

/-- Every permission key passes the filter. -/
theorem isToolPermission_permissionKeyOf (t : Tool) :
    isToolPermission (permissionKeyOf t) = true := by
  rw [isToolPermission, Bool.or_eq_true]
  exact permissionKeyOf_prefix t

/-! ## A policy to run on -/

/-- Policy and grouping rules as lists, no role being itself assigned to
a role. -/
structure FlatPolicy where
  p : List (List String)
  g : List (List String)
  deriving DecidableEq, Repr

/-- Casbin's field filter: a blank value matches anything. -/
def fieldsMatch (rule : List String) (fieldIndex : Nat) (values : List String) : Bool :=
  (values.zipIdx fieldIndex).all (fun vi => vi.1 == "" || rule[vi.2]? == some vi.1)

instance : CasbinPolicy FlatPolicy where
  getFilteredPolicy e i vs := e.p.filter (fun r => fieldsMatch r i vs)
  getFilteredGroupingPolicy e i vs := e.g.filter (fun r => fieldsMatch r i vs)
  getImplicitPermissionsForUser e user dom :=
    e.p.filter (fun r => fieldsMatch r 1 [dom]
      && (r[0]? == some user || e.g.contains [user, (r[0]?).getD "", dom]))

end LendingClaw.Rbac
